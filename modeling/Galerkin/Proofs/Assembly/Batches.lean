import Galerkin.Assembly.WorkerPool
import Galerkin.Proofs.Steps

/-! # Batches of tasks

The chunks of a range are not empty and make up the range, one after the other. A batch of tasks, one for
each chunk, has the result that the tasks have one after the other.

* **`Outcome.bind_eq_ok_iff`** — an operation succeeds when its steps do;
* **`flatMap_chunkRanges`** — the chunks of a range make up the range;
* **`runChunks_result`**, **`runChunks_inputs_result`** — the result of a batch. -/

namespace Galerkin

variable {β γ : Type}

/-! ## (1) Outcomes -/

/-- The result of two operations, whatever they report. -/
theorem Outcome.bind_result (x : Outcome β) (f : β → Outcome γ) :
    (x >>= f).result = x.result >>= fun b => (f b).result := by
  rw [Outcome.bind_eq]
  cases h : x.result with
  | ok b => rw [Outcome.andThen_ok h]; rfl
  | error e => rw [Outcome.andThen_error h]; rfl

/-- Two operations succeed when the first one does and the second one does on its result. -/
theorem Outcome.bind_eq_ok_iff {x : Outcome β} {f : β → Outcome γ} {c : γ} :
    (x >>= f).result = .ok c ↔ ∃ b, x.result = .ok b ∧ (f b).result = .ok c := by
  rw [Outcome.bind_result, Galerkin.bind_eq_ok_iff]

/-! ## (2) Chunks -/

/-- Intervals between growing bounds make up a range. -/
theorem flatMap_indices_bounds (bound : Nat → Nat) (hzero : bound 0 = 0)
    (hmono : ∀ c, bound c ≤ bound (c + 1)) (m : Nat) :
    ((List.range m).flatMap fun c => Interval.indices ⟨bound c, bound (c + 1)⟩) =
      List.range (bound m) := by
  induction m with
  | zero => rw [List.range_zero, List.flatMap_nil, hzero, List.range_zero]
  | succ m ih =>
    have hsplit : bound (m + 1) = bound m + (bound (m + 1) - bound m) := by
      have := hmono m
      omega
    rw [List.range_succ, List.flatMap_append, ih, List.flatMap_singleton, Interval.indices,
      Interval.size, List.range_eq_range', List.range_eq_range']
    conv_rhs => rw [hsplit, ← List.range'_append_1, Nat.zero_add]

/-- **The chunks of a range make up the range.** -/
theorem flatMap_chunkRanges (n k : Nat) :
    (chunkRanges n k).flatMap Interval.indices = List.range n := by
  unfold chunkRanges
  by_cases hn : n = 0
  · rw [if_pos hn, hn]
    rfl
  · rw [if_neg hn]
    simp only
    set count := min (max k 1) n with hcount
    have hpos : 0 < count := by omega
    have hlt : n % count < count := Nat.mod_lt _ hpos
    have hdiv : count * (n / count) + n % count = n := Nat.div_add_mod n count
    rw [List.flatMap_map,
      flatMap_indices_bounds fun c => c * (n / count) + min c (n % count)]
    · rw [Nat.min_eq_right (Nat.le_of_lt hlt), hdiv]
    · rw [Nat.zero_mul, Nat.zero_min]
    · intro c
      have hbase : 0 ≤ n / count := Nat.zero_le _
      rw [Nat.add_mul, Nat.one_mul]
      omega

/-- **A chunk is not empty,** and lies in the range. -/
theorem mem_chunkRanges {n k : Nat} {s : Interval} (h : s ∈ chunkRanges n k) :
    s.first < s.last ∧ s.last ≤ n := by
  unfold chunkRanges at h
  by_cases hn : n = 0
  · rw [if_pos hn] at h
    cases h
  · rw [if_neg hn] at h
    simp only at h
    set count := min (max k 1) n with hcount
    obtain ⟨c, hc, rfl⟩ := List.mem_map.mp h
    have hpos : 0 < count := by omega
    have hbase : 0 < n / count := Nat.div_pos (by omega) hpos
    have hdiv : count * (n / count) + n % count = n := Nat.div_add_mod n count
    have hle : (c + 1) * (n / count) ≤ count * (n / count) :=
      Nat.mul_le_mul_right _ (List.mem_range.mp hc)
    constructor
    · simp only
      rw [Nat.add_mul, Nat.one_mul]
      omega
    · simp only
      omega

/-! ## (3) Batches -/

/-- A failure is among the failures. -/
theorem failures_cons_of_error {o : Outcome β} {e : Error} (h : o.result = .error e)
    (outcomes : List (Outcome β)) : failures (o :: outcomes) = e :: failures outcomes := by
  rw [failures, failures, List.filterMap_cons, h]

/-- A success is not. -/
theorem failures_cons_of_ok {o : Outcome β} {b : β} (h : o.result = .ok b) (outcomes : List (Outcome β)) :
    failures (o :: outcomes) = failures outcomes := by
  rw [failures, failures, List.filterMap_cons, h]

/-- A success is among the successes. -/
theorem successes_cons_of_ok {o : Outcome β} {b : β} (h : o.result = .ok b)
    (outcomes : List (Outcome β)) : successes (o :: outcomes) = b :: successes outcomes := by
  rw [successes, successes, List.filterMap_cons, h]

/-- Outcomes without failures have all results. -/
theorem mapM_result_of_no_failure {outcomes : List (Outcome β)} (h : failures outcomes = []) :
    outcomes.mapM (·.result) = .ok (successes outcomes) := by
  induction outcomes with
  | nil => rfl
  | cons o outcomes ih =>
    rw [List.mapM_cons]
    cases ho : o.result with
    | error e =>
      rw [failures_cons_of_error ho] at h
      cases h
    | ok b =>
      rw [failures_cons_of_ok ho] at h
      rw [ih h, successes_cons_of_ok ho]
      rfl

/-- Outcomes with a failure have the first one. -/
theorem mapM_result_of_failure {outcomes : List (Outcome β)} {first : Error} {rest : List Error}
    (h : failures outcomes = first :: rest) : outcomes.mapM (·.result) = .error first := by
  induction outcomes with
  | nil => cases h
  | cons o outcomes ih =>
    rw [List.mapM_cons]
    cases ho : o.result with
    | error e =>
      rw [failures_cons_of_error ho] at h
      exact congrArg Except.error (List.cons.inj h).1
    | ok b =>
      rw [failures_cons_of_ok ho] at h
      rw [ih h]
      rfl

/-- **The result of a batch** is that of its tasks one after the other: the first failure, or all results in
chunk order. -/
theorem runChunks_result (chunks : Nat) (task : Nat → Outcome β) :
    (runChunks chunks task).result = (List.range chunks).mapM fun c => (task c).result := by
  have htasks : (attempts chunks task).mapM (·.result) =
      (List.range chunks).mapM fun c => (task c).result := List.mapM_map ..
  rw [← htasks, runChunks]
  cases hfail : failures (attempts chunks task) with
  | nil => exact (mapM_result_of_no_failure hfail).symm
  | cons e rest => exact (mapM_result_of_failure hfail).symm

/-- The elements of an array by number are those of its list. -/
theorem map_getD_range (xs : List γ) (d : γ) :
    (List.range xs.length).map (fun c => xs.toArray.getD c d) = xs := by
  refine List.ext_getElem (by rw [List.length_map, List.length_range]) fun c _ hc => ?_
  rw [List.getElem_map, List.getElem_range, Array.getD_eq_getD_getElem?, List.getElem?_toArray,
    List.getElem?_eq_getElem hc, Option.getD_some]

/-- **A batch over some inputs** has the result of going over the inputs. -/
theorem runChunks_inputs_result (xs : List γ) (d : γ) (task : γ → Outcome β) :
    (runChunks xs.toArray.size fun c => task (xs.toArray.getD c d)).result =
      xs.mapM fun x => (task x).result := by
  conv_rhs => rw [← map_getD_range xs d, List.mapM_map]
  exact runChunks_result _ _

/-- **What every task begins with** succeeds if a batch does. -/
theorem exists_start_of_runChunks {δ : Type} {chunks : Nat} (hpos : 0 < chunks) {start : Outcome δ}
    {task : Nat → δ → Outcome β} {results : List β}
    (h : (runChunks chunks fun c => start >>= task c).result = .ok results) :
    ∃ b, start.result = .ok b := by
  rw [runChunks_result] at h
  obtain ⟨_, -, hstep⟩ := exists_step_of_mapM h (List.mem_range.mpr hpos)
  obtain ⟨b, hb, -⟩ := Outcome.bind_eq_ok_iff.mp hstep
  exact ⟨b, hb⟩

end Galerkin
