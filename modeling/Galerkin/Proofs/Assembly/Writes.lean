import Galerkin.Assembly.Matrix
import Galerkin.Proofs.Index.Arrays
import Galerkin.Proofs.Index.Linear
import Mathlib.Data.List.Induction
import Mathlib.Data.List.Perm.Basic

/-! # Blocks written to an array

The entries of a banded matrix are written block by block. Writes to different positions do not touch each
other's entries, so writes that agree wherever they have a position in common can be done in any order.

* **`Assembler.writtenEntries`** — the entries that a write changes;
* **`Assembler.ConsistentWrites`** — full blocks, one for each position;
* **`Assembler.ConsistentWrites.foldl_perm`** — such writes have one result in any order;
* **`Assembler.ConsistentWrites.getElem?_of_mem`** — the entries are those of the block written there. -/

namespace Galerkin.Assembler

variable {α : Type} {blockSize : Nat} {w v : BlockWrite α} {ws vs : List (BlockWrite α)}

/-! ## (1) One write -/

/-- The entries that a write changes. -/
def writtenEntries (blockSize : Nat) (w : BlockWrite α) : Interval :=
  ⟨w.1 * blockSize, w.1 * blockSize + w.2.size⟩

/-- **An entry after a write** comes from the block if it is one that the write changes. -/
theorem getElem?_writeBlock (entries : Array α) (w : BlockWrite α) (k : Nat) :
    (writeBlock blockSize entries w)[k]? =
      if (writtenEntries blockSize w).contains k = true ∧ k < entries.size
        then w.2[k - w.1 * blockSize]? else entries[k]? := by
  rw [writeBlock, getElem?_foldl_setIfInBounds, Nat.add_zero, Array.length_toList, Array.getElem?_toList]
  simp only [Interval.contains_iff, writtenEntries, and_assoc]

/-- Writing a block leaves the number of entries. -/
@[simp] theorem size_writeBlock (entries : Array α) (w : BlockWrite α) :
    (writeBlock blockSize entries w).size = entries.size :=
  size_foldl_setIfInBounds ..

/-- **The entries of a position** are changed by writes to that position only. -/
theorem contains_writtenEntries_iff (hw : w.2.size = blockSize) {position s : Nat} (hs : s < blockSize) :
    (writtenEntries blockSize w).contains (position * blockSize + s) = true ↔ w.1 = position := by
  simp only [Interval.contains_iff, writtenEntries, hw]
  constructor
  · rintro ⟨hlow, hhigh⟩
    have hsplit : w.1 * blockSize + (position * blockSize + s - w.1 * blockSize) =
        position * blockSize + s := by omega
    exact (MultiIndex.eq_and_eq_of_mul_add_eq (by omega) hs hsplit).1
  · rintro rfl
    omega

/-- **Full blocks at different positions** have no entry in common. -/
theorem writtenEntries_disjoint (hw : w.2.size = blockSize) (hv : v.2.size = blockSize)
    (hne : w.1 ≠ v.1) {k : Nat} (hk : (writtenEntries blockSize w).contains k = true) :
    (writtenEntries blockSize v).contains k = false := by
  have hbounds := Interval.contains_iff.mp hk
  simp only [writtenEntries, hw] at hbounds
  obtain ⟨s, rfl⟩ := Nat.exists_eq_add_of_le hbounds.1
  rw [← Bool.not_eq_true, contains_writtenEntries_iff hv (by omega)]
  exact hne.symm

/-- **Full blocks at different positions can be written in either order.** -/
theorem writeBlock_comm (hw : w.2.size = blockSize) (hv : v.2.size = blockSize) (hne : w.1 ≠ v.1)
    (entries : Array α) : writeBlock blockSize (writeBlock blockSize entries w) v =
      writeBlock blockSize (writeBlock blockSize entries v) w := by
  refine Array.ext_getElem? fun k => ?_
  simp only [getElem?_writeBlock, size_writeBlock]
  by_cases hk : (writtenEntries blockSize w).contains k = true
  · rw [writtenEntries_disjoint hw hv hne hk]
    simp only [Bool.false_eq_true, false_and, if_false]
  · rw [Bool.not_eq_true] at hk
    simp only [hk, Bool.false_eq_true, false_and, if_false]

/-! ## (2) Several writes -/

/-- **Writes of full blocks, one block for each position:** whenever two of them have the same position
they are the same. -/
structure ConsistentWrites (blockSize : Nat) (ws : List (BlockWrite α)) : Prop where
  size_eq : ∀ w ∈ ws, w.2.size = blockSize
  unique : ∀ w ∈ ws, ∀ v ∈ ws, w.1 = v.1 → w = v

namespace ConsistentWrites

/-- Some of these writes. -/
theorem of_subset (h : ConsistentWrites blockSize ws) (hsub : vs ⊆ ws) : ConsistentWrites blockSize vs :=
  ⟨fun w hw => h.size_eq w (hsub hw), fun w hw v hv => h.unique w (hsub hw) v (hsub hv)⟩

/-- **Consistent writes have one result in any order.** -/
theorem foldl_perm (h : ConsistentWrites blockSize ws) (hperm : ws.Perm vs) (entries : Array α) :
    ws.foldl (writeBlock blockSize) entries = vs.foldl (writeBlock blockSize) entries := by
  refine hperm.foldl_eq' (fun w hw v hv entries => ?_) entries
  -- Two writes at one position are the same write; at two positions they commute.
  by_cases heq : w.1 = v.1
  · rw [h.unique w hw v hv heq]
  · exact writeBlock_comm (h.size_eq w hw) (h.size_eq v hv) heq entries

end ConsistentWrites

/-- Writing blocks leaves the number of entries. -/
theorem size_foldl_writeBlock (entries : Array α) :
    (ws.foldl (writeBlock blockSize) entries).size = entries.size := by
  induction ws generalizing entries with
  | nil => rfl
  | cons w ws ih => rw [List.foldl_cons, ih, size_writeBlock]

/-- **A block that is not written** stays as it is. -/
theorem getElem?_of_not_written (hsize : ∀ w ∈ ws, w.2.size = blockSize) {position : Nat}
    (hnot : ∀ w ∈ ws, w.1 ≠ position) {s : Nat} (hs : s < blockSize) (entries : Array α) :
    (ws.foldl (writeBlock blockSize) entries)[position * blockSize + s]? =
      entries[position * blockSize + s]? := by
  induction ws generalizing entries with
  | nil => rfl
  | cons w ws ih =>
    obtain ⟨hw, hsize⟩ := List.forall_mem_cons.mp hsize
    obtain ⟨hne, hnot⟩ := List.forall_mem_cons.mp hnot
    have hout : (writtenEntries blockSize w).contains (position * blockSize + s) = false := by
      rwa [← Bool.not_eq_true, contains_writtenEntries_iff hw hs]
    rw [List.foldl_cons, ih hsize hnot, getElem?_writeBlock, hout]
    simp only [Bool.false_eq_true, false_and, if_false]

/-- **A block that is written** has the entries of the write. -/
theorem ConsistentWrites.getElem?_of_mem (h : ConsistentWrites blockSize ws) (hw : w ∈ ws) {s : Nat}
    (hs : s < blockSize) {entries : Array α} (hin : w.1 * blockSize + s < entries.size) :
    (ws.foldl (writeBlock blockSize) entries)[w.1 * blockSize + s]? = w.2[s]? := by
  induction ws using List.reverseRecOn with
  | nil => cases hw
  | append_singleton ws v ih =>
    rw [List.foldl_append, List.foldl_cons, List.foldl_nil, getElem?_writeBlock, size_foldl_writeBlock]
    -- The last write decides, unless it is at another position.
    have hv := List.mem_append_right ws (List.mem_singleton_self v)
    by_cases heq : w.1 = v.1
    · obtain rfl := h.unique w hw v hv heq
      rw [if_pos ⟨(contains_writtenEntries_iff (h.size_eq w hw) hs).mpr rfl, hin⟩,
        Nat.add_sub_cancel_left]
    · have hmem : w ∈ ws := by
        rcases List.mem_append.mp hw with hmem | hmem
        · exact hmem
        · exact absurd (congrArg Prod.fst (List.mem_singleton.mp hmem)) heq
      have hout : (writtenEntries blockSize v).contains (w.1 * blockSize + s) = false := by
        rw [← Bool.not_eq_true, contains_writtenEntries_iff (h.size_eq v hv) hs]
        exact fun h => heq h.symm
      rw [hout]
      simp only [Bool.false_eq_true, false_and, if_false]
      exact ih (h.of_subset (List.subset_append_left _ _)) hmem

end Galerkin.Assembler
