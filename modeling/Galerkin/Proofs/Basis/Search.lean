import Galerkin.Proofs.Basis.Span

/-! # The span search without a bound

The span search bisects until it has found a span, or passes over knot intervals of length zero until one
has positive length. Its definition takes a number of steps that is enough. Here are the loops as they are,
without such a number: they come to an end, and with the same span.

* **`RunsUntil`** — a loop that comes to an end, and `RunsUntil.unique`: with one result;
* **`KnotVector.Searches`** — a search that comes to an end;
* **`KnotVector.searches_iff`** — every search ends, and with the span of the point;
* **`KnotVector.knot_findSpan_end`**, **`KnotVector.knot_findSpan_start`** — the spans of points outside the
  domain. -/

namespace Galerkin

/-- **A loop that comes to an end:** it takes one step after the other, from `start` until a state is
`done`, and that is the result. -/
inductive RunsUntil {σ : Type} (done : σ → Prop) (next : σ → σ) : (start result : σ) → Prop where
  | stop {s : σ} (h : done s) : RunsUntil done next s s
  | step {s result : σ} (h : ¬ done s) (rest : RunsUntil done next (next s) result) :
      RunsUntil done next s result

/-- A loop has one result. -/
theorem RunsUntil.unique {σ : Type} {done : σ → Prop} {next : σ → σ} {s r r' : σ}
    (h : RunsUntil done next s r) (h' : RunsUntil done next s r') : r = r' := by
  induction h with
  | stop hdone =>
    cases h' with
    | stop => rfl
    | step hnot => exact absurd hdone hnot
  | step hnot _ ih =>
    cases h' with
    | stop hdone => exact absurd hdone hnot
    | step _ rest' => exact ih rest'

namespace KnotVector

variable {α : Type} [Scalar α] [LinearOrder α]

/-! ## (1) The loops -/

/-- The middle of a range. -/
def middle (range : Nat × Nat) : Nat := (range.1 + range.2) / 2

/-- Whether the knot interval in the middle of a range holds `u`. -/
def MiddleHolds (kv : KnotVector α) (u : α) (range : Nat × Nat) : Prop :=
  kv.knot (middle range) ≤ u ∧ u < kv.knot (middle range + 1)

/-- The lower half of a range if `u` lies before its middle, else the upper half. -/
def halve (kv : KnotVector α) (u : α) (range : Nat × Nat) : Nat × Nat :=
  if u < kv.knot (middle range) then (range.1, middle range) else (middle range, range.2)

/-- **The search for the span of a point** comes to an end, with the given result. -/
def Searches (kv : KnotVector α) (u : α) (result : Nat) : Prop :=
  if kv.knot kv.dofs ≤ u then
    RunsUntil (fun s => s ≤ kv.degree ∨ kv.knot s < kv.knot (s + 1)) (· - 1) (kv.dofs - 1) result
  else if u ≤ kv.knot kv.degree then
    RunsUntil (fun s => kv.dofs - 1 ≤ s ∨ kv.knot s < kv.knot (s + 1)) (· + 1) kv.degree result
  else
    ∃ range, RunsUntil (kv.MiddleHolds u) (kv.halve u) (kv.degree, kv.dofs) range ∧ result = middle range

/-! ## (2) Loops come to an end -/

variable [OrderedScalar α] (kv : KnotVector α)

/-- **The loop downwards comes to an end,** since the spans it passes get smaller. -/
theorem runsUntil_lastSpan (floor above : Nat) :
    RunsUntil (fun s => s ≤ floor ∨ kv.knot s < kv.knot (s + 1)) (· - 1) (floor + above)
      (kv.lastSpan floor above) := by
  induction above with
  | zero => exact .stop (.inl le_rfl)
  | succ above ih =>
    rw [lastSpan]
    by_cases hproper : kv.knot (floor + (above + 1)) < kv.knot (floor + (above + 1) + 1)
    · rw [if_pos ((kv.properSpan_iff _).mpr hproper)]
      exact .stop (.inr hproper)
    · rw [if_neg (by rwa [properSpan_iff])]
      refine .step ?_ ih
      rintro (hle | hlt)
      · omega
      · exact hproper hlt

/-- **The loop upwards comes to an end,** since the spans that are left get fewer. -/
theorem runsUntil_firstSpan (s below : Nat) :
    RunsUntil (fun i => s + below ≤ i ∨ kv.knot i < kv.knot (i + 1)) (· + 1) s (kv.firstSpan s below) := by
  induction below generalizing s with
  | zero => exact .stop (.inl le_rfl)
  | succ below ih =>
    rw [firstSpan]
    by_cases hproper : kv.knot s < kv.knot (s + 1)
    · rw [if_pos ((kv.properSpan_iff _).mpr hproper)]
      exact .stop (.inr hproper)
    · rw [if_neg (by rwa [properSpan_iff])]
      have hrest := ih (s + 1)
      rw [Nat.add_right_comm, Nat.add_assoc] at hrest
      refine .step ?_ hrest
      rintro (hle | hlt)
      · omega
      · exact hproper hlt

/-- **The bisection comes to an end,** since each step moves one of the bounds towards the other: the lower
knot is at most the point and the upper knot above it, so the middle is not the bound that it replaces. -/
theorem exists_runsUntil_bisectSpan {u : α} (fuel : Nat) :
    ∀ {low high : Nat}, high - low ≤ fuel → low < high → kv.knot low ≤ u → u < kv.knot high →
      ∃ range, RunsUntil (kv.MiddleHolds u) (kv.halve u) (low, high) range ∧
        kv.bisectSpan u fuel low high = middle range := by
  induction fuel with
  | zero => intro low high hfuel hlt; omega
  | succ fuel ih =>
    intro low high hfuel hlt hlow hhigh
    have hmiddle : middle (low, high) = (low + high) / 2 := rfl
    rw [bisectSpan]
    simp only [OrderedScalar.lt_eq, OrderedScalar.le_eq, decide_eq_true_iff, ← hmiddle]
    by_cases hbelow : u < kv.knot (middle (low, high))
    · have hne : middle (low, high) ≠ low := by
        intro h
        rw [h] at hbelow
        exact absurd hbelow (not_lt.mpr hlow)
      obtain ⟨range, hrun, hresult⟩ := ih (by omega) (by omega) hlow hbelow
      refine ⟨range, .step (fun h => absurd hbelow (not_lt.mpr h.1)) ?_, ?_⟩
      · rwa [halve, if_pos hbelow]
      · rw [if_pos hbelow, hresult]
    · by_cases habove : kv.knot (middle (low, high) + 1) ≤ u
      · have hne : middle (low, high) + 1 ≠ high := by
          intro h
          rw [h] at habove
          exact absurd hhigh (not_lt.mpr habove)
        obtain ⟨range, hrun, hresult⟩ := ih (by omega) (by omega) (not_lt.mp hbelow) hhigh
        refine ⟨range, .step (fun h => absurd h.2 (not_lt.mpr habove)) ?_, ?_⟩
        · rwa [halve, if_neg hbelow]
        · rw [if_neg hbelow, if_pos habove, hresult]
      · refine ⟨(low, high), .stop ⟨not_lt.mp hbelow, not_le.mp habove⟩, ?_⟩
        rw [if_neg hbelow, if_neg habove]

/-- **Every search comes to an end, with the span of the point,** and with no other one. -/
theorem searches_iff (u : α) (result : Nat) : kv.Searches u result ↔ result = kv.findSpan u := by
  have hdofs := kv.degree_lt_dofs
  have hindex : kv.degree + (kv.dofs - 1 - kv.degree) = kv.dofs - 1 := by omega
  unfold Searches
  rw [findSpan]
  simp only [OrderedScalar.le_eq, decide_eq_true_iff]
  by_cases hupper : kv.knot kv.dofs ≤ u
  · have hend := kv.runsUntil_lastSpan kv.degree (kv.dofs - 1 - kv.degree)
    rw [hindex] at hend
    rw [if_pos hupper, if_pos hupper]
    exact ⟨fun h => h.unique hend, fun h => h ▸ hend⟩
  · by_cases hlower : u ≤ kv.knot kv.degree
    · have hend := kv.runsUntil_firstSpan kv.degree (kv.dofs - 1 - kv.degree)
      rw [hindex] at hend
      rw [if_neg hupper, if_neg hupper, if_pos hlower, if_pos hlower]
      exact ⟨fun h => h.unique hend, fun h => h ▸ hend⟩
    · obtain ⟨range, hend, hresult⟩ := kv.exists_runsUntil_bisectSpan (kv.dofs + 1) (by omega)
        hdofs (not_le.mp hlower).le (not_le.mp hupper)
      rw [if_neg hupper, if_neg hupper, if_neg hlower, if_neg hlower, hresult]
      constructor
      · rintro ⟨range', hend', rfl⟩
        rw [hend'.unique hend]
      · exact fun h => ⟨range, hend, h⟩

/-! ## (3) Points outside the domain -/

/-- **The span of a point behind the domain,** or at its end, ends where the domain does. -/
theorem knot_findSpan_end {u : α} (h : kv.knot kv.dofs ≤ u) :
    kv.knot (kv.findSpan u + 1) = kv.knot kv.dofs := by
  have hspan := kv.isSpanFor_findSpan u
  have hdofs := kv.degree_lt_dofs
  apply le_antisymm
  · exact kv.knot_mono hspan.lt_dofs (by omega)
  · rw [findSpan, OrderedScalar.le_eq, if_pos (decide_eq_true h)]
    exact kv.le_knot_lastSpan

/-- **The span of a point before the domain** starts where the domain does. -/
theorem knot_findSpan_start {u : α} (h : u < kv.knot kv.degree) :
    kv.knot (kv.findSpan u) = kv.knot kv.degree := by
  have hspan := kv.isSpanFor_findSpan u
  have hlt := hspan.lt_dofs
  have hupper : ¬ kv.knot kv.dofs ≤ u := not_le.mpr (h.trans kv.domain_lt)
  apply le_antisymm
  · rw [findSpan, OrderedScalar.le_eq, OrderedScalar.le_eq, if_neg (by rwa [decide_eq_true_iff]),
      if_pos (decide_eq_true h.le)]
    exact kv.knot_firstSpan_le
  · exact kv.knot_mono hspan.degree_le (by omega)

end KnotVector

end Galerkin
