import Galerkin.Basis.Derivatives
import Galerkin.Proofs.Basis.Mesh

/-! # The span of a point

The span search picks, for every point of the domain, a knot interval of positive length that holds the
point; at the ends of the domain it passes over the intervals of length zero. Only the functions whose knots
reach over that interval have a jet there. Nothing but the order of the scalars is used.

* **`KnotVector.bisectSpan_spec`**, **`KnotVector.lastSpan_spec`**, **`KnotVector.firstSpan_spec`** — the
  three searches;
* **`KnotVector.IsSpanFor`**, **`KnotVector.isSpanFor_findSpan`** — the span of a point;
* **`KnotVector.jetAt_get_eq_zero`** — functions that do not reach over the span have derivatives zero. -/

namespace Galerkin

variable {α : Type} [Scalar α] [LinearOrder α] [OrderedScalar α]

namespace KnotVector

variable (kv : KnotVector α)

/-! ## (1) Span search inside the domain -/

/-- **Bisection finds the span of a point** that lies between the knots at its bounds. -/
theorem bisectSpan_spec {u : α} {fuel : Nat} :
    ∀ {low high : Nat}, high - low ≤ fuel → low < high → kv.knot low ≤ u → u < kv.knot high →
      low ≤ kv.bisectSpan u fuel low high ∧ kv.bisectSpan u fuel low high < high ∧
        kv.knot (kv.bisectSpan u fuel low high) ≤ u ∧
          u < kv.knot (kv.bisectSpan u fuel low high + 1) := by
  induction fuel with
  | zero => intro low high hfuel hlt; omega
  | succ fuel ih =>
    intro low high hfuel hlt hlow hhigh
    rw [bisectSpan]
    simp only [OrderedScalar.lt_eq, OrderedScalar.le_eq, decide_eq_true_iff]
    set mid := (low + high) / 2 with hmid
    by_cases hbelow : u < kv.knot mid
    · -- The point lies before the middle, which is then not the lower bound.
      rw [if_pos hbelow]
      have hne : mid ≠ low := fun h => absurd hbelow (not_lt.mpr (h ▸ hlow))
      obtain ⟨h₁, h₂, h₃⟩ := @ih low mid (by omega) (by omega) hlow hbelow
      exact ⟨h₁, by omega, h₃⟩
    · rw [if_neg hbelow]
      by_cases habove : kv.knot (mid + 1) ≤ u
      · rw [if_pos habove]
        have hne : mid + 1 ≠ high := fun h => absurd hhigh (not_lt.mpr (h ▸ habove))
        have hne' : mid ≠ low := by
          intro h
          omega
        obtain ⟨h₁, h₂, h₃⟩ := @ih mid high (by omega) (by omega)
          (not_lt.mp hbelow) hhigh
        exact ⟨by omega, h₂, h₃⟩
      · rw [if_neg habove]
        exact ⟨by omega, by omega, not_lt.mp hbelow, not_le.mp habove⟩

/-- **The span of a point inside the domain holds the point.** -/
theorem findSpan_spec {u : α} (hlow : kv.knot kv.degree < u) (hhigh : u < kv.knot kv.dofs) :
    kv.degree ≤ kv.findSpan u ∧ kv.findSpan u < kv.dofs ∧ kv.knot (kv.findSpan u) ≤ u ∧
      u < kv.knot (kv.findSpan u + 1) := by
  have hspan : kv.findSpan u = kv.bisectSpan u (kv.dofs + 1) kv.degree kv.dofs := by
    rw [findSpan]
    simp only [OrderedScalar.le_eq, decide_eq_true_iff]
    rw [if_neg (not_le.mpr hhigh), if_neg (not_le.mpr hlow)]
  rw [hspan]
  exact kv.bisectSpan_spec (by omega) kv.degree_lt_dofs hlow.le hhigh

/-! ## (2) Spans at the ends of the domain -/

/-- A span of positive length. -/
theorem properSpan_iff (s : Nat) : kv.properSpan s = true ↔ kv.knot s < kv.knot (s + 1) := by
  rw [properSpan, OrderedScalar.lt_eq, decide_eq_true_iff]

/-- **Knots with no span of positive length between them** are equal. -/
theorem knot_le_of_spans {i j : Nat} (hij : i ≤ j)
    (hspans : ∀ m, i ≤ m → m < j → kv.properSpan m = false) : kv.knot j ≤ kv.knot i := by
  induction j, hij using Nat.le_induction with
  | base => exact le_refl _
  | succ j hij ih =>
    have hlast := hspans j hij (Nat.lt_succ_self j)
    rw [← Bool.not_eq_true, properSpan_iff, not_lt] at hlast
    exact hlast.trans (ih fun m hm hmj => hspans m hm (by omega))

omit [LinearOrder α] [OrderedScalar α] in
/-- **The search downwards** passes spans of length zero only, and ends at a span of positive length or at
its floor. -/
theorem lastSpan_spec (floor above : Nat) :
    floor ≤ kv.lastSpan floor above ∧ kv.lastSpan floor above ≤ floor + above ∧
      (∀ m, kv.lastSpan floor above < m → m ≤ floor + above → kv.properSpan m = false) ∧
      (kv.lastSpan floor above = floor ∨ kv.properSpan (kv.lastSpan floor above) = true) := by
  induction above with
  | zero => exact ⟨le_refl _, le_refl _, fun m hm hle => absurd hm (by rw [lastSpan]; omega), .inl rfl⟩
  | succ above ih =>
    rw [lastSpan]
    split
    · rename_i hproper
      exact ⟨by omega, le_refl _, fun m hm hle => absurd hm (by omega), .inr hproper⟩
    · rename_i hnot
      obtain ⟨hfloor, hle, hpassed, hend⟩ := ih
      refine ⟨hfloor, by omega, fun m hm hm' => ?_, hend⟩
      rcases Nat.eq_or_lt_of_le hm' with rfl | hlt
      · rwa [Bool.not_eq_true] at hnot
      · exact hpassed m hm (by omega)

omit [LinearOrder α] [OrderedScalar α] in
/-- **The search upwards** passes spans of length zero only, and ends at a span of positive length or at
its last. -/
theorem firstSpan_spec (s below : Nat) :
    s ≤ kv.firstSpan s below ∧ kv.firstSpan s below ≤ s + below ∧
      (∀ m, s ≤ m → m < kv.firstSpan s below → kv.properSpan m = false) ∧
      (kv.firstSpan s below = s + below ∨ kv.properSpan (kv.firstSpan s below) = true) := by
  induction below generalizing s with
  | zero =>
    refine ⟨le_refl _, le_refl _, fun m hm hlt => absurd hm ?_, .inl rfl⟩
    rw [firstSpan] at hlt
    omega
  | succ below ih =>
    rw [firstSpan]
    split
    · rename_i hproper
      exact ⟨le_refl _, by omega, fun m hm hlt => absurd hm (by omega), .inr hproper⟩
    · rename_i hnot
      obtain ⟨hfirst, hle, hpassed, hend⟩ := ih (s + 1)
      refine ⟨by omega, by omega, fun m hm hlt => ?_, hend.imp_left fun h => by omega⟩
      rcases Nat.eq_or_lt_of_le hm with rfl | hgt
      · rwa [Bool.not_eq_true] at hnot
      · exact hpassed m hgt hlt

/-- **A span for a point:** one of the domain with positive length. It holds the point if the domain does,
and ends behind it unless the domain ends there. -/
structure IsSpanFor (u : α) (s : Nat) : Prop where
  degree_le : kv.degree ≤ s
  lt_dofs : s < kv.dofs
  proper : kv.knot s < kv.knot (s + 1)
  start_le : kv.knot kv.degree ≤ u → kv.knot s ≤ u
  le_end : u ≤ kv.knot kv.dofs → u ≤ kv.knot (s + 1)
  lt_end : u < kv.knot kv.dofs → u < kv.knot (s + 1)

/-- The search downwards passes over spans of length zero, so its span ends where the domain does. -/
theorem le_knot_lastSpan :
    kv.knot kv.dofs ≤ kv.knot (kv.lastSpan kv.degree (kv.dofs - 1 - kv.degree) + 1) := by
  have hdofs := kv.degree_lt_dofs
  obtain ⟨hfloor, hle, hpassed, -⟩ := kv.lastSpan_spec kv.degree (kv.dofs - 1 - kv.degree)
  exact kv.knot_le_of_spans (by omega) fun m hm hlt => hpassed m (by omega) (by omega)

/-- The search upwards passes over spans of length zero, so its span starts where the domain does. -/
theorem knot_firstSpan_le :
    kv.knot (kv.firstSpan kv.degree (kv.dofs - 1 - kv.degree)) ≤ kv.knot kv.degree := by
  obtain ⟨hfirst, -, hpassed, -⟩ := kv.firstSpan_spec kv.degree (kv.dofs - 1 - kv.degree)
  exact kv.knot_le_of_spans hfirst hpassed

/-- At the upper end of the domain the search downwards finds a span. -/
theorem isSpanFor_lastSpan {u : α} (hupper : kv.knot kv.dofs ≤ u) :
    kv.IsSpanFor u (kv.lastSpan kv.degree (kv.dofs - 1 - kv.degree)) := by
  have hdofs := kv.degree_lt_dofs
  have hlast := kv.le_knot_lastSpan
  obtain ⟨hfloor, hle, -, hend⟩ := kv.lastSpan_spec kv.degree (kv.dofs - 1 - kv.degree)
  set s := kv.lastSpan kv.degree (kv.dofs - 1 - kv.degree)
  have hproper : kv.knot s < kv.knot (s + 1) := by
    rcases hend with hend | hend
    · rw [hend] at hlast ⊢
      exact kv.domain_lt.trans_le hlast
    · exact (kv.properSpan_iff s).mp hend
  exact ⟨hfloor, by omega, hproper, fun _ => (kv.knot_mono (by omega) (by omega)).trans hupper,
    fun h => h.trans hlast, fun h => h.trans_le hlast⟩

/-- At the lower end of the domain the search upwards finds a span. -/
theorem isSpanFor_firstSpan {u : α} (hlower : u ≤ kv.knot kv.degree) :
    kv.IsSpanFor u (kv.firstSpan kv.degree (kv.dofs - 1 - kv.degree)) := by
  have hdofs := kv.degree_lt_dofs
  have hstart := kv.knot_firstSpan_le
  obtain ⟨hfirst, hle, -, hend⟩ := kv.firstSpan_spec kv.degree (kv.dofs - 1 - kv.degree)
  set s := kv.firstSpan kv.degree (kv.dofs - 1 - kv.degree)
  have hproper : kv.knot s < kv.knot (s + 1) := by
    rcases hend with hend | hend
    · have hindex : s + 1 = kv.dofs := by omega
      rw [hindex]
      exact hstart.trans_lt kv.domain_lt
    · exact (kv.properSpan_iff s).mp hend
  have hpoint : u < kv.knot (s + 1) :=
    hlower.trans_lt ((kv.knot_mono hfirst (by omega)).trans_lt hproper)
  exact ⟨hfirst, by omega, hproper, fun h => hstart.trans h, fun _ => hpoint.le, fun _ => hpoint⟩

/-- **The span that is found for a point** is one for it. -/
theorem isSpanFor_findSpan (u : α) : kv.IsSpanFor u (kv.findSpan u) := by
  by_cases hupper : kv.knot kv.dofs ≤ u
  · rw [findSpan, OrderedScalar.le_eq, if_pos (decide_eq_true hupper)]
    exact kv.isSpanFor_lastSpan hupper
  · by_cases hlower : u ≤ kv.knot kv.degree
    · rw [findSpan, OrderedScalar.le_eq, OrderedScalar.le_eq, if_neg (by rwa [decide_eq_true_iff]),
        if_pos (decide_eq_true hlower)]
      exact kv.isSpanFor_firstSpan hlower
    · obtain ⟨hfirst, hlt, hstart, hpoint⟩ :=
        kv.findSpan_spec (not_le.mp hlower) (not_le.mp hupper)
      exact ⟨hfirst, hlt, hstart.trans_lt hpoint, fun _ => hstart, fun _ => hpoint.le, fun _ => hpoint⟩

/-! ## (3) Functions without a jet -/

omit [LinearOrder α] [OrderedScalar α] in
/-- There is one list of derivatives for each function that reaches over a span. -/
theorem size_spanDerivatives (s : SpanPoint α) (orders : Nat) :
    (spanDerivatives s orders).size = s.degree + 1 := by
  rw [spanDerivatives, Array.size_map, Array.size_range]

/-- **A function that does not reach over the span of a point** has derivatives zero there. -/
theorem jetAt_get_eq_zero {u : α} {f : Nat}
    (hout : f < kv.findSpan u - kv.degree ∨ kv.findSpan u < f) (m k : Nat) :
    (kv.jetAt m u).get f k = Scalar.zero := by
  have hdegree := (kv.isSpanFor_findSpan u).degree_le
  have hfirst : (kv.jetAt m u).first = kv.findSpan u - kv.degree := rfl
  rw [Jet.get]
  split
  · rfl
  · have hsize : (kv.jetAt m u).values.size = kv.degree + 1 := size_spanDerivatives _ _
    have hnone : (kv.jetAt m u).values[f - (kv.jetAt m u).first]? = none :=
      Array.getElem?_eq_none (by omega)
    rw [Array.getD_eq_getD_getElem?, Array.getD_eq_getD_getElem?, hnone]
    rfl

end KnotVector

end Galerkin
