import Galerkin.Proofs.Form.Programs
import Galerkin.Proofs.Index.Linear

/-! # Kept entries of precomputed fields

The program of a precomputed field writes the entries that are kept, one after the other, and they are
kept one after the other: each component is written once. An entry below the diagonal of a symmetric
matrix is read where its mirror image above the diagonal is kept.

* **`FieldVariable.upper`** — the entry that is kept for an entry;
* **`backingIndex_keptPositions`** — the kept entries fill the components in order;
* **`lowerField_evaluateAt`** — what the program of a precomputed field adds to a component;
* **`lowerField_outputs`** — the program has one output for each component. -/

namespace Galerkin

variable {α : Type}

section Lists

variable {β γ : Type} [DecidableEq γ]

/-- An element whose key no other has is the only one with its key. -/
theorem filter_key_eq_singleton {key : β → γ} {xs : List β} (h : (xs.map key).Nodup) {x : β}
    (hx : x ∈ xs) : (xs.filter fun y => key y = key x) = [x] := by
  induction xs with
  | nil => cases hx
  | cons y ys ih =>
    obtain ⟨hy, hys⟩ := List.nodup_cons.mp h
    rcases List.mem_cons.mp hx with rfl | hx
    · rw [List.filter_cons, if_pos (decide_eq_true rfl), List.filter_eq_nil_iff.mpr]
      intro z hz hkey
      exact hy (of_decide_eq_true hkey ▸ List.mem_map_of_mem hz)
    · have hne : key y ≠ key x := fun heq => hy (heq ▸ List.mem_map_of_mem hx)
      rw [List.filter_cons, if_neg (fun hkey => hne (of_decide_eq_true hkey)), ih hys hx]

end Lists

/-! ## (1) The packed triangle -/

/-- The row-major numbers of a table. -/
theorem flatMap_range_number (rows cols : Nat) :
    ((List.range rows).flatMap fun i => (List.range cols).map fun j => i * cols + j) =
      List.range (rows * cols) := by
  rw [flatMap_range_map rows cols fun i j => i * cols + j]
  refine (List.map_congr_left fun k _ => ?_).trans (List.map_id _)
  exact Nat.div_add_mod' k cols

/-- The number of kept entries before a row of the packed triangle. -/
def rowStart (n row : Nat) : Nat := row * n - row * (row - 1) / 2

/-- A row of the packed triangle starts where the row before it ends. -/
theorem rowStart_succ {n row : Nat} (h : row < n) : rowStart n (row + 1) = rowStart n row + (n - row) := by
  -- The entries left out so far are those of a triangle that is inside the rows.
  obtain ⟨t, ht⟩ := Nat.even_mul_pred_self row
  have hpred : row * (row - 1) + row = row * row := by
    cases row with
    | zero => rfl
    | succ row => rw [Nat.add_sub_cancel]; ring
  have hrows : row * row ≤ row * n := Nat.mul_le_mul_left _ h.le
  have hnext : (row + 1) * (row + 1 - 1) = row * row + row := by rw [Nat.add_sub_cancel]; ring
  have hnextRows : (row + 1) * n = row * n + n := by ring
  rw [rowStart, rowStart, hnext, hnextRows]
  omega

/-- All rows together are the packed triangle. -/
theorem rowStart_self (n : Nat) : rowStart n n = n * (n + 1) / 2 := by
  obtain ⟨t, ht⟩ := Nat.even_mul_pred_self n
  have hpred : n * (n - 1) + n = n * n := by
    cases n with
    | zero => rfl
    | succ n => rw [Nat.add_sub_cancel]; ring
  have hnext : n * (n + 1) = n * n + n := by ring
  rw [rowStart, hnext]
  omega

/-- The columns of a row on and above the diagonal. -/
theorem filter_range_le (i n : Nat) :
    ((List.range n).filter fun j => decide (i ≤ j)) = List.range' i (n - i) := by
  induction n with
  | zero => simp
  | succ n ih =>
    rw [List.range_succ, List.filter_append, ih, List.filter_singleton]
    by_cases h : i ≤ n
    · rw [decide_eq_true h, Nat.succ_sub h, List.range'_1_concat, Nat.add_sub_cancel' h]
      rfl
    · rw [decide_eq_false h, Nat.sub_eq_zero_of_le (Nat.le_of_not_le h), Nat.sub_eq_zero_of_le (by omega)]
      rfl

/-- The entries of a row on and above the diagonal are kept one after the other. -/
theorem map_symmetricIndex_row (n row : Nat) :
    (List.range' row (n - row)).map (fun j => symmetricIndex row j n) =
      List.range' (rowStart n row) (n - row) := by
  have hindex : ∀ j ∈ List.range' row (n - row), symmetricIndex row j n = rowStart n row + (j - row) := by
    intro j hj
    have hle := (List.mem_range'_1.mp hj).1
    unfold symmetricIndex
    rw [Nat.min_eq_left hle, Nat.max_eq_right hle]
    rfl
  rw [List.map_congr_left hindex, List.range'_eq_map_range, List.map_map]
  conv_rhs => rw [List.range'_eq_map_range]
  refine List.map_congr_left fun k _ => ?_
  rw [Function.comp_apply, Nat.add_sub_cancel_left]

/-- **The entries on and above the diagonal,** row by row, are kept one after the other. -/
theorem map_symmetricIndex_rows {n rows : Nat} (h : rows ≤ n) :
    ((List.range rows).flatMap fun i =>
      (List.range' i (n - i)).map fun j => symmetricIndex i j n) = List.range (rowStart n rows) := by
  induction rows with
  | zero => simp [rowStart]
  | succ row ih =>
    rw [List.range_succ, List.flatMap_append, List.flatMap_singleton, ih (Nat.le_of_succ_le h),
      map_symmetricIndex_row, rowStart_succ h, List.range_eq_range', List.range_eq_range',
      ← List.range'_append_1, Nat.zero_add]

namespace FieldVariable

/-! ## (2) Kept entries -/

/-- **The entry that is kept for entry `(i, j)`:** of a symmetric matrix the one of the two that is on or
above the diagonal. -/
def upper (f : FieldVariable α) (i j : Nat) : Nat × Nat :=
  if f.symmetric then (min i j, max i j) else (i, j)

/-- An entry and the one that is kept for it have one component. -/
theorem backingIndex_upper (f : FieldVariable α) (i j : Nat) :
    f.backingIndex (f.upper i j).1 (f.upper i j).2 = f.backingIndex i j := by
  unfold backingIndex upper
  cases f.symmetric with
  | true =>
    rcases Nat.le_total i j with h | h
    · simp [h]
    · simp [h, symmetricIndex_comm j i]
  | false => rfl

variable {f : FieldVariable α}

/-- The entry that is kept for an entry is one of the kept ones. -/
theorem upper_mem_keptPositions (hf : f.shape.Declarable f.symmetric) {i j : Nat}
    (hi : i < f.shape.rows) (hj : j < f.shape.cols) : f.upper i j ∈ keptPositions f := by
  unfold upper keptPositions
  cases hs : f.symmetric with
  | true =>
    have hsquare := (hf.square hs).2
    rw [if_pos rfl, List.mem_filter]
    exact ⟨Shape.mem_positions.mpr (by omega), by simp⟩
  | false =>
    rw [if_neg (by decide), List.mem_filter]
    exact ⟨Shape.mem_positions.mpr ⟨hi, hj⟩, rfl⟩

/-- **The kept entries fill the components in order.** -/
theorem backingIndex_keptPositions (hf : f.shape.Declarable f.symmetric) :
    ((keptPositions f).map fun p => f.backingIndex p.1 p.2) = List.range f.storageSize := by
  unfold keptPositions backingIndex storageSize Shape.positions
  cases hs : f.symmetric with
  | true =>
    obtain ⟨-, hsquare⟩ := hf.square hs
    have hrow : ∀ i, (((List.range f.shape.cols).map fun j => (i, j)).filter fun p : Nat × Nat =>
        !true || decide (p.1 ≤ p.2)).map (fun p => symmetricIndex p.1 p.2 f.shape.rows) =
          (List.range' i (f.shape.rows - i)).map fun j => symmetricIndex i j f.shape.rows := by
      intro i
      rw [List.filter_map, List.map_map, ← hsquare, ← filter_range_le]
      rfl
    simp only [if_true, List.filter_flatMap, List.map_flatMap]
    rw [symmetricStorageSize_natCast, ← rowStart_self, ← map_symmetricIndex_rows (Nat.le_refl _)]
    exact congrArg (List.flatMap · _) (funext hrow)
  | false =>
    simp only [Bool.not_false, Bool.true_or, List.filter_true, List.map_flatMap, List.map_map]
    exact flatMap_range_number f.shape.rows f.shape.cols

end FieldVariable

/-! ## (3) Writing the kept entries -/

variable [Scalar α] {form : Form α} {point : PointData α} {f : FieldVariable α} {s : LoweringState α}
  {registers : List Nat} {values : List α}

/-- **What a lowering has done after some kept entries:** there is one output for each, in order, and its
register holds the entry. The values are those of the definition, entry by entry. -/
structure LoweringState.Written (s : LoweringState α) (form : Form α) (point : PointData α)
    (f : FieldVariable α) (registers : List Nat) (values : List α) (entries : List (Nat × Nat)) :
    Prop where
  sound : s.Sound form point
  registers : List.Forall₂ (s.builder.Holds point) registers values
  outputs : List.Forall₂ (fun p o => o.1 = f.backingIndex p.1 p.2 ∧
    s.builder.Holds point o.2 (values.getD (p.1 * f.shape.cols + p.2) Scalar.zero))
      entries s.builder.outputs

/-- **Writing an entry** is an entry more. -/
theorem emitKept_achieves {entries : List (Nat × Nat)}
    (hs : s.Written form point f registers values entries) (p : Nat × Nat) :
    Achieves False (emitKept f registers p.1 p.2) s fun _ s' =>
      s'.Written form point f registers values (entries ++ [p]) := by
  unfold emitKept
  refine (registerAt_achieves hs.registers False.elim).bind ?_
  rintro r _ ⟨rfl, -, hr⟩
  refine (emitOutput_spec hr.1 False.elim).mono id ?_
  rintro _ _ ⟨-, rfl⟩
  refine ⟨hs.sound.output _ hr.1, hs.registers, ?_⟩
  exact List.rel_append hs.outputs (.cons ⟨Int.toNat_natCast _, hr⟩ .nil)

/-- The values that the outputs add to a slot. -/
theorem LoweringState.Written.terms {entries : List (Nat × Nat)}
    (h : s.Written form point f registers values entries) :
    (s.builder.outputs.map fun o => (o.1, s.builder.value point o.2)) = entries.map fun p =>
      (f.backingIndex p.1 p.2, values.getD (p.1 * f.shape.cols + p.2) Scalar.zero) := by
  obtain ⟨-, -, hall⟩ := h
  generalize s.builder.outputs = outputs at hall ⊢
  induction hall with
  | nil => rfl
  | cons ho _ ih => rw [List.map_cons, List.map_cons, ih, ho.1, ho.2.2]

variable [DecidableEq α]

/-- The program of a precomputed field is that of its definition and its kept entries. -/
theorem lowerField_eq_ok_iff {o : Operand α} (ho : f.definition = .precomputed o) {p : Program α} :
    lowerField form f = .ok p ↔ 1 ≤ f.storageSize ∧ ∃ s, (do
      let registers ← lowerIn form .grid o
      (keptPositions f).forM fun p => emitKept f registers p.1 p.2 : LoweringM α Unit).run
        { builder := { slots := f.storageSize } } = .ok ((), s) ∧ s.builder.finish = p := by
  rw [← programOf_eq_ok_iff, lowerField, ho]

variable [CommutativeScalar α]

/-- **The lowering of a precomputed field** writes all kept entries. -/
theorem lowerField_written (hform : form.Valid) {e : Expr α} (he : f.definition = .precomputed (some e))
    {p : Program α} (hp : lowerField form f = .ok p) (point : PointData α) :
    ∃ (s : LoweringState α) (registers : List Nat),
      s.Written form point f registers (form.valuesOf point e) (keptPositions f) ∧
        s.builder.finish = p := by
  obtain ⟨-, s, hs, rfl⟩ := (lowerField_eq_ok_iff he).mp hp
  have hstart : ({ builder := { slots := f.storageSize } } : LoweringState α).Sound form point :=
    ⟨ProgramBuilder.wellFormed_empty _, fun _ h => nomatch h⟩
  have hlower : Achieves False (lowerIn form .grid (some e)) { builder := { slots := f.storageSize } }
      (Lowered form point _ (form.valuesOf point e)) :=
    (lower_achieves (fieldRegisters_achieves hform _) e _ hstart).mono False.elim fun _ _ h => h
  have hwritten : Achieves False (do
      let registers ← lowerIn form .grid (some e)
      (keptPositions f).forM fun p => emitKept f registers p.1 p.2 : LoweringM α Unit)
      { builder := { slots := f.storageSize } } fun _ s => ∃ registers,
        s.Written form point f registers (form.valuesOf point e) (keptPositions f) := by
    refine hlower.bind fun registers t ht => ?_
    have hnone : t.Written form point f registers (form.valuesOf point e) [] :=
      ⟨ht.sound, ht.holds, ht.grows.outputs ▸ .nil⟩
    refine (Achieves.forM (C := fun entries t => t.Written form point f registers
      (form.valuesOf point e) entries) (l := []) hnone fun entries p t ht => ?_).mono id
        fun _ t ht => ⟨registers, ht⟩
    exact (emitKept_achieves ht p).mono And.left fun _ _ h => h
  obtain ⟨registers, hall⟩ := hwritten.2 _ _ hs
  exact ⟨s, registers, hall, rfl⟩

/-! ## (4) The program of a precomputed field -/

/-- **The program of a precomputed field has one output for each component,** in order. -/
theorem lowerField_outputs (hform : form.Valid) (hf : f ∈ form.fields) {o : Operand α}
    (ho : f.definition = .precomputed o) {p : Program α} (hp : lowerField form f = .ok p) :
    p.outputs.map Prod.fst = List.range f.storageSize := by
  obtain ⟨e, rfl, -⟩ := hform.precomputed f hf o ho
  -- Which point is looked at is immaterial here.
  obtain ⟨s, registers, hs, rfl⟩ := lowerField_written hform ho hp
    ⟨fun _ => Scalar.zero, fun _ _ => Scalar.zero⟩
  have hslots := congrArg (List.map Prod.fst) hs.terms
  rw [List.map_map, List.map_map] at hslots
  rw [← FieldVariable.backingIndex_keptPositions (hform.shapes f hf), ProgramBuilder.finish, List.map_map]
  exact hslots

/-- **What the program of a precomputed field adds to a component:** the entry of the definition that is
kept there, once. -/
theorem lowerField_evaluateAt (hform : form.Valid) (hf : f ∈ form.fields) {e : Expr α}
    (he : f.definition = .precomputed (some e)) {p : Program α} (hp : lowerField form f = .ok p)
    (point : PointData α) (sums : Array α) :
    (p.evaluateAt point sums).size = sums.size ∧ ∀ i < f.shape.rows, ∀ j < f.shape.cols,
      (p.evaluateAt point sums)[f.backingIndex i j]? = sums[f.backingIndex i j]?.map
        (· + (form.valuesOf point e).getD ((f.upper i j).1 * f.shape.cols + (f.upper i j).2)
          Scalar.zero) := by
  obtain ⟨s, registers, hs, rfl⟩ := lowerField_written hform he hp point
  have hterms : s.builder.finish.evaluateAt point sums = Program.addTerms sums
      ((keptPositions f).map fun p => (f.backingIndex p.1 p.2,
        (form.valuesOf point e).getD (p.1 * f.shape.cols + p.2) Scalar.zero)) := by
    rw [ProgramBuilder.finish_evaluateAt hs.sound.wellFormed, ← hs.terms]
    exact s.builder.draft.evaluateAt_eq_addTerms point sums
  have hshape := hform.shapes f hf
  rw [hterms]
  refine ⟨Program.size_addTerms _ _, fun i hi j hj => ?_⟩
  -- No two kept entries share a component, so one term goes to that of entry `(i, j)`.
  have hnodup : ((keptPositions f).map fun p => f.backingIndex p.1 p.2).Nodup :=
    FieldVariable.backingIndex_keptPositions hshape ▸ List.nodup_range
  have hone := filter_key_eq_singleton hnodup (FieldVariable.upper_mem_keptPositions hshape hi hj)
  simp only [FieldVariable.backingIndex_upper] at hone
  rw [Program.getElem?_addTerms, List.filter_map, List.map_map]
  have hfilter : (keptPositions f).filter ((fun t : Nat × α => decide (t.1 = f.backingIndex i j)) ∘
      fun p => (f.backingIndex p.1 p.2,
        (form.valuesOf point e).getD (p.1 * f.shape.cols + p.2) Scalar.zero)) = [f.upper i j] := hone
  rw [hfilter]
  rfl

end Galerkin
