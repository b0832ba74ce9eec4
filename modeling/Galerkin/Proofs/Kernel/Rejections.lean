import Galerkin.Proofs.Kernel.Entries

/-! # Entries that are refused

An entry checks the indices of an axis just before it looks at the supports there, and it is zero at once
when they do not meet. So an index out of range is only seen if the supports meet on all axes before it.
The entry of a linear form has no such way out and sees all indices.

* **`OutsideOn`** — an index out of range on an axis;
* **`SeesOutside`** — one that an entry comes to see, and **`seesOutside_cons`**: axis by axis;
* **`CompiledKernel.commonNodes_outcome`** — the nodes of an entry, if it sees none;
* **`CompiledKernel.queries_outOfRange_iff`** — when entries fail, and that they have a value otherwise. -/

namespace Galerkin

variable {α : Type}

/-! ## (1) Indices out of range -/

/-- **An index out of range on an axis:** no basis function there has it. -/
def OutsideOn (axes : List (AxisTables α)) (index : List Nat) (axis : Nat) : Prop :=
  ∃ v i, axes[axis]? = some v ∧ index[axis]? = some i ∧ v.dofs ≤ i

section Outside

variable {v u : AxisTables α} {vs us : List (AxisTables α)} {i j axis : Nat} {is js : List Nat}

/-- The first axis. -/
theorem outsideOn_zero : OutsideOn (v :: vs) (i :: is) 0 ↔ v.dofs ≤ i := by
  constructor
  · rintro ⟨v', i', hv, hi, h⟩
    obtain rfl := Option.some.inj hv
    obtain rfl := Option.some.inj hi
    exact h
  · exact fun h => ⟨v, i, rfl, rfl, h⟩

/-- A later axis. -/
theorem outsideOn_succ : OutsideOn (v :: vs) (i :: is) (axis + 1) ↔ OutsideOn vs is axis := Iff.rfl

/-- Some axis, the first one or a later one. -/
theorem exists_outsideOn_cons :
    (∃ axis, OutsideOn (v :: vs) (i :: is) axis) ↔ v.dofs ≤ i ∨ ∃ axis, OutsideOn vs is axis := by
  constructor
  · rintro ⟨axis, h⟩
    cases axis with
    | zero => exact .inl (outsideOn_zero.mp h)
    | succ axis => exact .inr ⟨axis, outsideOn_succ.mp h⟩
  · rintro (h | ⟨axis, h⟩)
    · exact ⟨0, outsideOn_zero.mpr h⟩
    · exact ⟨axis + 1, outsideOn_succ.mpr h⟩

/-- **Without an index out of range all are in range.** -/
theorem forall₂_lt_iff (hlen : is.length = vs.length) :
    List.Forall₂ (fun i v => i < v.dofs) is vs ↔ ¬∃ axis, OutsideOn vs is axis := by
  induction is generalizing vs with
  | nil =>
    obtain rfl := List.eq_nil_of_length_eq_zero hlen.symm
    refine iff_of_true .nil ?_
    rintro ⟨axis, v, i, hv, -⟩
    cases hv
  | cons i is ih =>
    obtain ⟨v, vs, rfl⟩ := List.exists_cons_of_length_eq_add_one hlen.symm
    rw [exists_outsideOn_cons, not_or, not_le, ← ih (Nat.succ.inj hlen), List.forall₂_cons]

/-- **An index out of range that an entry comes to see:** the supports meet on all axes before. -/
def SeesOutside (vs us : List (AxisTables α)) (is js : List Nat) : Prop :=
  ∃ axis, (OutsideOn vs is axis ∨ OutsideOn us js axis) ∧
    ∀ s ∈ (CompiledKernel.overlapsOf vs us is js).take axis, s.isEmpty = false

/-- **It is on the first axis, or the supports meet there** and it is on a later one. -/
theorem seesOutside_cons :
    SeesOutside (v :: vs) (u :: us) (i :: is) (j :: js) ↔ (v.dofs ≤ i ∨ u.dofs ≤ j) ∨
      ((v.supportOf i).intersect (u.supportOf j)).isEmpty = false ∧ SeesOutside vs us is js := by
  have hcons : CompiledKernel.overlapsOf (v :: vs) (u :: us) (i :: is) (j :: js) =
      (v.supportOf i).intersect (u.supportOf j) :: CompiledKernel.overlapsOf vs us is js := rfl
  constructor
  · rintro ⟨axis, houtside, hmeet⟩
    cases axis with
    | zero => exact .inl (houtside.imp outsideOn_zero.mp outsideOn_zero.mp)
    | succ axis =>
      rw [hcons, List.take_succ_cons, List.forall_mem_cons] at hmeet
      exact .inr ⟨hmeet.1, axis, houtside.imp outsideOn_succ.mp outsideOn_succ.mp, hmeet.2⟩
  · rintro (houtside | ⟨hfirst, axis, houtside, hmeet⟩)
    · exact ⟨0, houtside.imp outsideOn_zero.mpr outsideOn_zero.mpr, fun s hs => nomatch hs⟩
    · refine ⟨axis + 1, houtside.imp outsideOn_succ.mpr outsideOn_succ.mpr, ?_⟩
      rw [hcons, List.take_succ_cons, List.forall_mem_cons]
      exact ⟨hfirst, hmeet⟩

/-- Without axes there is nothing to see. -/
theorem not_seesOutside_nil : ¬SeesOutside ([] : List (AxisTables α)) [] [] [] := by
  rintro ⟨axis, ⟨v, i, hv, -⟩ | ⟨v, i, hv, -⟩, -⟩ <;> cases hv

end Outside

namespace CompiledKernel

/-! ## (2) Nodes -/

/-- **The nodes of an entry:** it fails because of an index exactly if it comes to see one out of range;
otherwise it finds its nodes, and none at all if there is one that it does not see. -/
theorem commonNodes_outcome (n : Nat) {vs us : List (AxisTables α)} {is js : List Nat}
    (hlen : vs.length = us.length) (hi : is.length = vs.length) (hj : js.length = us.length) :
    (SeesOutside vs us is js → OutOfRange (commonNodes n vs us is js)) ∧
      (¬SeesOutside vs us is js → ∃ nodes, commonNodes n vs us is js = .ok nodes ∧
        ((∃ axis, OutsideOn vs is axis ∨ OutsideOn us js axis) → nodes = none)) := by
  induction vs generalizing us is js with
  | nil =>
    obtain rfl := List.eq_nil_of_length_eq_zero hlen.symm
    obtain rfl := List.eq_nil_of_length_eq_zero hi
    obtain rfl := List.eq_nil_of_length_eq_zero hj
    refine ⟨fun h => absurd h not_seesOutside_nil, fun _ => ⟨some [], rfl, ?_⟩⟩
    rintro ⟨axis, ⟨v, i, hv, -⟩ | ⟨v, i, hv, -⟩⟩ <;> cases hv
  | cons v vs ih =>
    obtain ⟨u, us, rfl⟩ := List.exists_cons_of_length_eq_add_one hlen.symm
    obtain ⟨i, is, rfl⟩ := List.exists_cons_of_length_eq_add_one hi
    obtain ⟨j, js, rfl⟩ := List.exists_cons_of_length_eq_add_one hj
    obtain ⟨ihsees, ihnot⟩ := ih (Nat.succ.inj hlen) (Nat.succ.inj hi) (Nat.succ.inj hj)
    rw [seesOutside_cons, commonNodes]
    by_cases hv : v.dofs ≤ i
    · -- The test index of this axis is out of range.
      have hcheck : OutOfRange (checkIndex .entryTest i v.dofs) :=
        outOfRange_checkIndex_iff.mpr fun h => absurd (Int.ofNat_lt.mp h.2) (not_lt.mpr hv)
      exact ⟨fun _ => hcheck.bind _, fun h => absurd (.inl (.inl hv)) h⟩
    have hicheck : checkIndex .entryTest i v.dofs = .ok () :=
      checkIndex_eq_ok_iff.mpr ⟨Int.natCast_nonneg _, Int.ofNat_lt.mpr (not_le.mp hv)⟩
    rw [hicheck]
    by_cases hu : u.dofs ≤ j
    · -- The trial index is.
      have hcheck : OutOfRange (checkIndex .entryTrial j u.dofs) :=
        outOfRange_checkIndex_iff.mpr fun h => absurd (Int.ofNat_lt.mp h.2) (not_lt.mpr hu)
      exact ⟨fun _ => hcheck.bind _, fun h => absurd (.inl (.inr hu)) h⟩
    have hjcheck : checkIndex .entryTrial j u.dofs = .ok () :=
      checkIndex_eq_ok_iff.mpr ⟨Int.natCast_nonneg _, Int.ofNat_lt.mpr (not_le.mp hu)⟩
    rw [hjcheck]
    -- What is out of range on some axis is so on a later one.
    have hlater : (∃ axis, OutsideOn (v :: vs) (i :: is) axis ∨ OutsideOn (u :: us) (j :: js) axis) →
        ∃ axis, OutsideOn vs is axis ∨ OutsideOn us js axis := by
      simp only [exists_or, exists_outsideOn_cons, hv, hu, false_or, imp_self]
    cases hempty : ((v.supportOf i).intersect (u.supportOf j)).isEmpty with
    | true =>
      simp only [hv, hu, hempty, or_self, Bool.true_eq_false, false_and]
      exact ⟨False.elim, fun _ => ⟨none, rfl, fun _ => rfl⟩⟩
    | false =>
      simp only [hv, hu, hempty, or_self, false_or, true_and]
      refine ⟨fun h => (ihsees h).bind _, fun h => ?_⟩
      obtain ⟨nodes, hnodes, hnone⟩ := ihnot h
      refine ⟨nodes.map (((v.supportOf i).intersect (u.supportOf j)).scale n :: ·), ?_, fun houtside => ?_⟩
      · rw [hnodes]
        rfl
      · rw [hnone (hlater houtside), Option.map_none]

/-- The nodes on the support of a test function, axis by axis. -/
theorem testNodes_cons (n : Nat) (v : AxisTables α) (vs : List (AxisTables α)) (i : Nat) (is : List Nat) :
    testNodes n (v :: vs) (i :: is) = checkIndex .loadTest i v.dofs >>= fun _ =>
      testNodes n vs is >>= fun nodes => pure ((v.supportOf i).scale n :: nodes) := by
  rw [testNodes, List.zip_cons_cons, List.mapM_cons]
  cases h : checkIndex .loadTest i v.dofs with
  | error e =>
    simp only [h]
    rfl
  | ok _ =>
    simp only [h]
    rfl

/-- **The nodes of an entry of a linear form:** it sees every index. -/
theorem testNodes_outcome (n : Nat) {vs : List (AxisTables α)} {is : List Nat}
    (hi : is.length = vs.length) :
    OutOfRange (testNodes n vs is) ∨ List.Forall₂ (fun i v => i < v.dofs) is vs := by
  induction vs generalizing is with
  | nil =>
    obtain rfl := List.eq_nil_of_length_eq_zero hi
    exact .inr .nil
  | cons v vs ih =>
    obtain ⟨i, is, rfl⟩ := List.exists_cons_of_length_eq_add_one hi
    rw [testNodes_cons]
    by_cases hv : i < v.dofs
    · have hcheck : checkIndex .loadTest i v.dofs = .ok () :=
        checkIndex_eq_ok_iff.mpr ⟨Int.natCast_nonneg _, Int.ofNat_lt.mpr hv⟩
      rw [hcheck]
      exact (ih (Nat.succ.inj hi)).imp (fun h => h.bind _) (.cons hv)
    · have hcheck : OutOfRange (checkIndex .loadTest i v.dofs) :=
        outOfRange_checkIndex_iff.mpr fun h => absurd (Int.ofNat_lt.mp h.2) hv
      exact .inl (hcheck.bind _)

/-! ## (3) Entries -/

variable [Scalar α]

/-- **Entries fail because of an index exactly if they come to see one out of range.** Take a kernel and data
with the same number of axes for both spaces, and indices with one number per axis. An entry of a bilinear
form fails if an index is out of range on some axis and the supports meet on all axes before; otherwise it
has a value, which is zero if an index is out of range and not seen. The entry of a linear form fails if any
index is out of range, and has a value otherwise. -/
theorem queries_outOfRange_iff (k : CompiledKernel α) (data : KernelData α) (test trial : List Nat)
    (haxes : data.test.length = data.trial.length) (htest : test.length = data.test.length)
    (htrial : trial.length = data.trial.length) :
    (k.form.arity = .bilinear →
      (OutOfRange (k.entry data test trial) ↔ SeesOutside data.test data.trial test trial) ∧
      (¬SeesOutside data.test data.trial test trial → ∃ sums, k.entry data test trial = .ok sums ∧
        ((∃ axis, OutsideOn data.test test axis ∨ OutsideOn data.trial trial axis) →
          sums = Array.replicate k.program.slots Scalar.zero))) ∧
    (k.form.arity = .linear →
      (OutOfRange (k.entry1 data test) ↔ ∃ axis, OutsideOn data.test test axis) ∧
      ((¬∃ axis, OutsideOn data.test test axis) → ∃ sums, k.entry1 data test = .ok sums)) := by
  obtain ⟨hsees, hnot⟩ := commonNodes_outcome data.pointsPerElement haxes htest htrial
  constructor
  · intro harity
    have hvalue : ¬SeesOutside data.test data.trial test trial → ∃ sums,
        k.entry data test trial = .ok sums ∧
          ((∃ axis, OutsideOn data.test test axis ∨ OutsideOn data.trial trial axis) →
            sums = Array.replicate k.program.slots Scalar.zero) := by
      intro h
      obtain ⟨nodes, hnodes, hnone⟩ := hnot h
      refine ⟨_, entry_of_commonNodes harity hnodes, fun houtside => ?_⟩
      rw [hnone houtside, Option.elim_none]
    refine ⟨⟨fun h => ?_, fun h => ?_⟩, hvalue⟩
    · by_contra hunseen
      obtain ⟨sums, hsums, -⟩ := hvalue hunseen
      exact not_outOfRange_ok (hsums ▸ h)
    · rw [entry, harity]
      exact (hsees h).bind _
  · intro harity
    have hvalue : (¬∃ axis, OutsideOn data.test test axis) → ∃ sums, k.entry1 data test = .ok sums := by
      intro h
      have hnodes := testNodes_eq_ok data.pointsPerElement ((forall₂_lt_iff htest).mpr h)
      rw [entry1, harity, hnodes]
      exact ⟨_, rfl⟩
    refine ⟨⟨fun h => ?_, fun h => ?_⟩, hvalue⟩
    · by_contra hinside
      obtain ⟨sums, hsums⟩ := hvalue hinside
      exact not_outOfRange_ok (hsums ▸ h)
    · have hnodes : OutOfRange (testNodes data.pointsPerElement data.test test) :=
        (testNodes_outcome data.pointsPerElement htest).resolve_right fun hall =>
          (forall₂_lt_iff htest).mp hall h
      rw [entry1, harity]
      exact hnodes.bind _

/-- **An index out of range is not seen** behind an axis on which the supports do not meet: the first and the
last hat do not, and there is no function with number 99 on the second axis. -/
theorem entry_unseen_hatKnots : (do
    let k ← CompiledKernel.emit 2 productForm
    let data ← k.prepare (.shared [hatKnots, unitKnots]) (.identity 2)
    k.entry data [0, 0] [2, 99]) = .ok #[0] := by
  decide +kernel

/-- The supports of the hats on the first axis, and of two functions on one element on the second. -/
def hatData : KernelData ℚ :=
  let hats : AxisTables ℚ := ⟨#[⟨0, 1⟩, ⟨0, 2⟩, ⟨1, 2⟩], ⟨3, 4, 0, #[]⟩⟩
  let line : AxisTables ℚ := ⟨#[⟨0, 1⟩, ⟨0, 1⟩], ⟨2, 2, 0, #[]⟩⟩
  { KernelData.uninitialized with trial := [hats, line], test := [hats, line], pointsPerElement := 2 }

/-- With a neighbour instead of the last hat the index is seen, and a linear form sees it in any case. -/
theorem queries_outOfRange_iff_hatData :
    (∃ k, CompiledKernel.emit 2 productForm = .ok k ∧ OutOfRange (k.entry hatData [0, 0] [1, 99]) ∧
      k.entry hatData [0, 0] [2, 99] = .ok (Array.replicate k.program.slots 0)) ∧
    ∃ k, CompiledKernel.emit 2 valueForm = .ok k ∧ OutOfRange (k.entry1 hatData [0, 99]) := by
  obtain ⟨k, hk⟩ := exists_eq_ok (x := CompiledKernel.emit 2 productForm) (by decide +kernel)
  obtain ⟨k', hk'⟩ := exists_eq_ok (x := CompiledKernel.emit 2 valueForm) (by decide +kernel)
  have harity : k.form.arity = .bilinear := (emit_eq_ok hk).1 ▸ rfl
  have harity' : k'.form.arity = .linear := (emit_eq_ok hk').1 ▸ rfl
  have houtside : OutsideOn hatData.trial [2, 99] 1 := ⟨_, _, rfl, rfl, by decide⟩
  have hunseen : ¬SeesOutside hatData.test hatData.trial [0, 0] [2, 99] := by
    intro h
    rcases seesOutside_cons.mp h with (h | h) | ⟨h, -⟩ <;> exact absurd h (by decide)
  refine ⟨⟨k, hk, ?_, ?_⟩, k', hk', ?_⟩
  · have hqueries := (queries_outOfRange_iff k hatData [0, 0] [1, 99] rfl rfl rfl).1 harity
    exact hqueries.1.mpr ⟨1, .inr ⟨_, _, rfl, rfl, by decide⟩, by decide⟩
  · have hqueries := (queries_outOfRange_iff k hatData [0, 0] [2, 99] rfl rfl rfl).1 harity
    obtain ⟨sums, hsums, hzero⟩ := hqueries.2 hunseen
    exact hsums.trans (congrArg Except.ok (hzero ⟨1, .inr houtside⟩))
  · have hqueries := (queries_outOfRange_iff k' hatData [0, 99] [0, 0] rfl rfl rfl).2 harity'
    exact hqueries.1.mpr ⟨1, _, _, rfl, rfl, by decide⟩

end CompiledKernel

end Galerkin
