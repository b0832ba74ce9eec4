import Galerkin.Proofs.Assembly.Neighbors

/-! # Positions of entries

Rows and columns of an assembled matrix are words. If the sizes of the matrix are within the range of
storage indices, words stand for the numbers of unknowns, and the position of an entry determines the
pair of functions it belongs to.

* **`Layout.toNat_unknowns`** — sizes without wrap-around;
* **`SparseMatrix.ofTriplets_eq_ok_iff`** — the conditions on entries;
* **`Assembler.mem_blockTriplets`** — the positions of the entries of a block;
* **`Assembler.IsMeetingEntry`** — entries of functions whose supports meet on every axis. -/

namespace Galerkin

variable {α : Type}

/-! ## (1) Sizes -/

/-- Whether the number of unknowns is within the range of storage indices. -/
def Layout.FitsStorage (l : Layout) : Prop :=
  MultiIndex.product l.dofs * l.components ≤ SparseMatrix.storageLimit.toNat

instance (l : Layout) : Decidable l.FitsStorage := inferInstanceAs (Decidable (_ ≤ _))

/-- **The number of unknowns,** where words do not wrap around. -/
theorem Layout.toNat_unknowns {l : Layout} (h : l.FitsStorage) :
    l.unknowns.toNat = MultiIndex.product l.dofs * l.components := by
  have hword : l.unknowns = UInt64.ofNat (MultiIndex.product l.dofs * l.components) := by
    rw [unknowns, functions, words, MultiIndex.product_ofNat, componentWord, ← UInt64.ofNat_mul]
  rw [hword]
  exact UInt64.toNat_ofNat_of_lt' (Nat.lt_of_le_of_lt h (by decide))

/-- The word of an unknown stands for its number. -/
theorem Layout.toNat_unknown {l : Layout} (h : l.FitsStorage) {index : List Nat} {r : Nat}
    (hindex : List.Forall₂ (· < ·) index l.dofs) (hr : r < l.components) :
    (UInt64.ofNat (MultiIndex.linearIndex index l.dofs * l.components + r)).toNat =
      MultiIndex.linearIndex index l.dofs * l.components + r := by
  have hlt := MultiIndex.unknown_lt hindex hr
  exact UInt64.toNat_ofNat_of_lt' (Nat.lt_of_lt_of_le (Nat.lt_of_lt_of_le hlt h) (by decide))

/-- **A matrix has sizes within the range of storage indices,** and its entries lie inside. -/
theorem SparseMatrix.ofTriplets_eq_ok_iff {triplets : Array (Triplet α)} {rows cols : GlobalIndex}
    {m : SparseMatrix α} :
    ofTriplets triplets rows cols = .ok m ↔ (rows ≤ storageLimit ∧ cols ≤ storageLimit) ∧
      (∀ t ∈ triplets, t.row < rows ∧ t.col < cols) ∧ m = ⟨rows, cols, triplets⟩ := by
  have hposition : ∀ t : Triplet α, checkPosition rows cols t = .ok () ↔ t.row < rows ∧ t.col < cols := by
    intro t
    rw [checkPosition, bind_eq_ok_iff, ← checkWord_eq_ok_iff, ← checkWord_eq_ok_iff]
    exact ⟨fun ⟨_, hrow, hcol⟩ => ⟨hrow, hcol⟩, fun ⟨hrow, hcol⟩ => ⟨(), hrow, hcol⟩⟩
  rw [ofTriplets, require_bind_eq_ok_iff, bind_eq_ok_iff, Bool.and_eq_true, decide_eq_true_iff,
    decide_eq_true_iff]
  refine and_congr_right fun _ => ?_
  constructor
  · rintro ⟨⟨⟩, hall, hm⟩
    rw [forM_eq_ok_iff] at hall
    exact ⟨fun t ht => (hposition t).mp (hall t (Array.mem_toList_iff.mpr ht)),
      (Except.ok.inj hm).symm⟩
  · rintro ⟨hall, rfl⟩
    exact ⟨(), forM_eq_ok_iff.mpr fun t ht => (hposition t).mpr (hall t (Array.mem_toList_iff.mp ht)),
      rfl⟩

namespace Assembler

variable {a : Assembler α} {axes : List AxisSupports} {test trial : List Nat} {t : Triplet α}

/-! ## (2) Entries -/

/-- **The entries of a block** lie at the unknowns of its functions, and mirrored ones at the mirrored
positions. -/
theorem mem_blockTriplets [Scalar α] {i j : Nat} {mirror : Bool} {block : Array α}
    (h : t ∈ a.blockTriplets i j mirror block) :
    ∃ r < a.test.components, ∃ c < a.trial.components,
      (t.row = UInt64.ofNat (i * a.test.components + r) ∧
        t.col = UInt64.ofNat (j * a.trial.components + c)) ∨
      mirror = true ∧ t.row = UInt64.ofNat (j * a.trial.components + c) ∧
        t.col = UInt64.ofNat (i * a.test.components + r) := by
  obtain ⟨r, hr, h⟩ := List.mem_flatMap.mp h
  obtain ⟨c, hc, h⟩ := List.mem_flatMap.mp h
  refine ⟨r, List.mem_range.mp hr, c, List.mem_range.mp hc, ?_⟩
  rcases List.mem_cons.mp h with rfl | h
  · exact .inl ⟨rfl, rfl⟩
  · cases mirror with
    | false => cases h
    | true =>
      obtain rfl := List.mem_singleton.mp h
      exact .inr ⟨rfl, rfl, rfl⟩

/-- A block with components has an entry at the first ones. -/
theorem exists_mem_blockTriplets [Scalar α] (hr : 0 < a.test.components) (hc : 0 < a.trial.components)
    (i j : Nat) (mirror : Bool) (block : Array α) :
    ∃ t ∈ a.blockTriplets i j mirror block, t.row = UInt64.ofNat (i * a.test.components + 0) ∧
      t.col = UInt64.ofNat (j * a.trial.components + 0) := by
  refine ⟨_, List.mem_flatMap.mpr ⟨0, List.mem_range.mpr hr, List.mem_flatMap.mpr
    ⟨0, List.mem_range.mpr hc, List.mem_cons_self ..⟩⟩, rfl, rfl⟩

/-- **An entry of a pair of functions whose supports meet on every axis:** its row and its column are
unknowns of these functions. -/
def IsMeetingEntry (a : Assembler α) (axes : List AxisSupports) (t : Triplet α) : Prop :=
  ∃ test trial r c, List.Forall₂ (· < ·) test a.test.dofs ∧ List.Forall₂ (· < ·) trial a.trial.dofs ∧
    r < a.test.components ∧ c < a.trial.components ∧
    t.row.toNat = MultiIndex.linearIndex test a.test.dofs * a.test.components + r ∧
    t.col.toNat = MultiIndex.linearIndex trial a.trial.dofs * a.trial.components + c ∧
    MeetOnAxes axes test trial

/-- An entry at the unknowns of functions whose supports meet. -/
theorem isMeetingEntry_of_meet (hrows : a.test.FitsStorage) (hcols : a.trial.FitsStorage)
    (htest : List.Forall₂ (· < ·) test a.test.dofs) (htrial : List.Forall₂ (· < ·) trial a.trial.dofs)
    (hmeet : MeetOnAxes axes test trial) {r c : Nat} (hr : r < a.test.components)
    (hc : c < a.trial.components)
    (hrow : t.row = UInt64.ofNat (MultiIndex.linearIndex test a.test.dofs * a.test.components + r))
    (hcol : t.col = UInt64.ofNat (MultiIndex.linearIndex trial a.trial.dofs * a.trial.components + c)) :
    a.IsMeetingEntry axes t := by
  refine ⟨test, trial, r, c, htest, htrial, hr, hc, ?_, ?_, hmeet⟩
  · rw [hrow, Layout.toNat_unknown hrows htest hr]
  · rw [hcol, Layout.toNat_unknown hcols htrial hc]

/-- **The position of an entry determines its functions.** -/
theorem IsMeetingEntry.meet (h : a.IsMeetingEntry axes t) (hrows : a.test.FitsStorage)
    (hcols : a.trial.FitsStorage) (htest : List.Forall₂ (· < ·) test a.test.dofs)
    (htrial : List.Forall₂ (· < ·) trial a.trial.dofs) {r c : Nat} (hr : r < a.test.components)
    (hc : c < a.trial.components)
    (hrow : t.row = UInt64.ofNat (MultiIndex.linearIndex test a.test.dofs * a.test.components + r))
    (hcol : t.col = UInt64.ofNat (MultiIndex.linearIndex trial a.trial.dofs * a.trial.components + c)) :
    MeetOnAxes axes test trial := by
  obtain ⟨test', trial', r', c', htest', htrial', hr', hc', hrow', hcol', hmeet⟩ := h
  rw [hrow, Layout.toNat_unknown hrows htest hr] at hrow'
  rw [hcol, Layout.toNat_unknown hcols htrial hc] at hcol'
  obtain rfl := MultiIndex.unknown_inj htest htest' hr hr' hrow'
  obtain rfl := MultiIndex.unknown_inj htrial htrial' hc hc' hcol'
  exact hmeet

/-- Such an entry lies inside the matrix. -/
theorem IsMeetingEntry.lt (h : a.IsMeetingEntry axes t) (hrows : a.test.FitsStorage)
    (hcols : a.trial.FitsStorage) : t.row < a.rows ∧ t.col < a.cols := by
  obtain ⟨test, trial, r, c, htest, htrial, hr, hc, hrow, hcol, -⟩ := h
  rw [UInt64.lt_iff_toNat_lt, UInt64.lt_iff_toNat_lt, hrow, hcol, rows, cols,
    Layout.toNat_unknowns hrows, Layout.toNat_unknowns hcols]
  exact ⟨MultiIndex.unknown_lt htest hr, MultiIndex.unknown_lt htrial hc⟩

/-- **Such entries make a matrix.** -/
theorem ofTriplets_of_meeting (hrows : a.test.FitsStorage) (hcols : a.trial.FitsStorage)
    {triplets : Array (Triplet α)} (h : ∀ t ∈ triplets, a.IsMeetingEntry axes t) :
    SparseMatrix.ofTriplets triplets a.rows a.cols = .ok ⟨a.rows, a.cols, triplets⟩ := by
  refine SparseMatrix.ofTriplets_eq_ok_iff.mpr ⟨⟨?_, ?_⟩, fun t ht => (h t ht).lt hrows hcols, rfl⟩
  · rw [UInt64.le_iff_toNat_le, rows, Layout.toNat_unknowns hrows]
    exact hrows
  · rw [UInt64.le_iff_toNat_le, cols, Layout.toNat_unknowns hcols]
    exact hcols

end Assembler

end Galerkin
