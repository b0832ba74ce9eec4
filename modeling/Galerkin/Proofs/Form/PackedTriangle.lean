import Galerkin.Proofs.Form.Kept
import Galerkin.Proofs.Form.SymmetricFields
import Mathlib.Data.Sym.Sym2

/-! # The packed triangle

A symmetric matrix keeps its entries on and above the diagonal, row by row. The position of an entry is a
quadratic formula with a halving; these positions are all numbers below the size of the storage, in the order of
the entries, so an entry and its mirror image are the only entries of their component.

* **`upperTriangle`** — the entries on and above the diagonal, row by row;
* **`symmetricIndex_eq_iff`** — entries that share a position are one entry or mirror images;
* **`packingSteps`** — the operations of the formula over the integers;
* **`symmetricIndex_bijective`** — the storage has one component for each unordered entry. -/

namespace Galerkin

/-! ## (1) The entries that are kept -/

/-- **The entries on and above the diagonal,** row by row. -/
def upperTriangle (n : Nat) : List (Nat × Nat) :=
  (List.range n).flatMap fun i => (List.range' i (n - i)).map (Prod.mk i)

/-- An entry on or above the diagonal has its column to the right of its row. -/
theorem mem_upperTriangle {n i j : Nat} : (i, j) ∈ upperTriangle n ↔ i ≤ j ∧ j < n := by
  simp only [upperTriangle, List.mem_flatMap, List.mem_range, List.mem_map, List.mem_range'_1, Prod.mk.injEq]
  constructor
  · rintro ⟨_, hi, _, ⟨hle, hlt⟩, rfl, rfl⟩
    exact ⟨hle, by omega⟩
  · rintro ⟨hle, hlt⟩
    exact ⟨i, by omega, j, ⟨hle, by omega⟩, rfl, rfl⟩

/-- The entries are listed row by row, and each row from left to right. -/
theorem pairwise_upperTriangle (n : Nat) : (upperTriangle n).Pairwise (Prod.Lex (· < ·) (· < ·)) := by
  rw [upperTriangle, List.pairwise_flatMap]
  refine ⟨fun i _ => ?row, List.pairwise_lt_range.imp fun {i k} hik => ?rows⟩
  case row =>
    rw [List.pairwise_map]
    exact (List.pairwise_lt_range' 1).imp fun hlt => Prod.Lex.right i hlt
  case rows =>
    rintro _ hp _ hq
    obtain ⟨j, -, rfl⟩ := List.mem_map.mp hp
    obtain ⟨l, -, rfl⟩ := List.mem_map.mp hq
    exact Prod.Lex.left j l hik

/-! ## (2) Their positions -/

/-- **The positions of the entries** are the numbers below the size of the storage, in order. -/
theorem map_symmetricIndex_upperTriangle (n : Nat) :
    (upperTriangle n).map (fun p => symmetricIndex p.1 p.2 n) = List.range (symmetricStorageSize n) := by
  -- The rows before row `n` are all rows.
  rw [symmetricStorageSize_natCast, ← rowStart_self, ← map_symmetricIndex_rows (Nat.le_refl n), upperTriangle,
    List.map_flatMap]
  simp only [List.map_map]
  rfl

/-- Entries on or above the diagonal do not share a position. -/
theorem symmetricIndex_injOn {n i j k l : Nat} (hij : (i, j) ∈ upperTriangle n) (hkl : (k, l) ∈ upperTriangle n)
    (h : symmetricIndex i j n = symmetricIndex k l n) : i = k ∧ j = l := by
  -- The positions are the members of a range, which has no number twice.
  have hnodup : ((upperTriangle n).map fun p => symmetricIndex p.1 p.2 n).Nodup := by
    rw [map_symmetricIndex_upperTriangle]
    exact List.nodup_range
  exact Prod.mk.inj (List.inj_on_of_nodup_map hnodup hij hkl h)

/-- The position is that of the mirror image on or above the diagonal. -/
theorem symmetricIndex_min_max (i j n : Nat) : symmetricIndex (min i j) (max i j) n = symmetricIndex i j n := by
  rcases Nat.le_total i j with h | h
  · rw [Nat.min_eq_left h, Nat.max_eq_right h]
  · rw [Nat.min_eq_right h, Nat.max_eq_left h, symmetricIndex_comm]

/-- **Entries that share a position** are one entry or mirror images of each other. -/
theorem symmetricIndex_eq_iff {n i j k l : Nat} (hi : i < n) (hj : j < n) (hk : k < n) (hl : l < n) :
    symmetricIndex i j n = symmetricIndex k l n ↔ s(i, j) = s(k, l) := by
  have hupper {a b : Nat} (ha : a < n) (hb : b < n) : (min a b, max a b) ∈ upperTriangle n :=
    mem_upperTriangle.mpr ⟨min_le_max, max_lt ha hb⟩
  rw [Sym2.eq_iff]
  constructor
  · intro h
    rw [← symmetricIndex_min_max i j, ← symmetricIndex_min_max k l] at h
    obtain ⟨hmin, hmax⟩ := symmetricIndex_injOn (hupper hi hj) (hupper hk hl) h
    omega
  · rintro (⟨rfl, rfl⟩ | ⟨rfl, rfl⟩)
    · rfl
    · exact symmetricIndex_comm i j n

/-! ## (3) The formula over the integers -/

/-- **The operations of the formula** for an entry on or above the diagonal, over the integers and in order. The
last result is the position. -/
def packingSteps (row col n : ℤ) : List ℤ :=
  [row * n, row - 1, row * (row - 1), row * (row - 1) / 2, row * n - row * (row - 1) / 2, col - row,
    row * n - row * (row - 1) / 2 + (col - row)]

/-- **The entries that are left out before a row,** as the natural number and the integer that the halving
gives. -/
theorem exists_leftOut (row : Nat) : ∃ t : Nat, row * (row - 1) = 2 * t ∧ (row : ℤ) * (row - 1) = 2 * t := by
  obtain ⟨t, ht⟩ := Nat.even_mul_pred_self row
  refine ⟨t, ht.trans (Nat.two_mul t).symm, ?_⟩
  have hcast : ((row * (row - 1) : Nat) : ℤ) = row * (row - 1) := by
    cases row with
    | zero => rfl
    | succ row => push_cast; ring
  rw [← hcast, ht]
  push_cast
  ring

variable {row col n : Nat}

/-- **Differences that are cut off at zero lose nothing,** so the position is the one over the integers. -/
theorem getLast_packingSteps (hle : row ≤ col) (hlt : col < n) :
    (packingSteps row col n).getLast? = some (symmetricIndex row col n : ℤ) := by
  obtain ⟨t, ht, htCast⟩ := exists_leftOut row
  have hleft : 2 * t ≤ row * n := ht ▸ Nat.mul_le_mul_left row (by omega)
  have hlast : (packingSteps row col n).getLast? = some ((row : ℤ) * n - row * (row - 1) / 2 + (col - row)) := rfl
  have hhalf : 2 * (t : ℤ) / 2 = t := by omega
  rw [hlast, htCast, hhalf, symmetricIndex, Nat.min_eq_left hle, Nat.max_eq_right hle]
  simp only [ht, Nat.mul_div_cancel_left t Nat.two_pos]
  rw [Nat.cast_add, Nat.cast_sub (by omega), Nat.cast_sub hle, Nat.cast_mul]

/-- **No result of the formula exceeds the product that sizes the storage.** -/
theorem packingSteps_bounds (hle : row ≤ col) (hlt : col < n) :
    ∀ x ∈ packingSteps row col n, -1 ≤ x ∧ x ≤ n * (n + 1) := by
  obtain ⟨t, ht, htCast⟩ := exists_leftOut row
  have hleft : 2 * t ≤ row * n := ht ▸ Nat.mul_le_mul_left row (by omega)
  have hproduct : row * n + n ≤ n * n := by
    rw [← Nat.succ_mul]
    exact Nat.mul_le_mul_right n (by omega)
  have hhalf : 2 * (t : ℤ) / 2 = t := by omega
  have hrow : (row : ℤ) * n = ((row * n : Nat) : ℤ) := (Nat.cast_mul _ _).symm
  have hsize : (n : ℤ) * (n + 1) = ((n * n : Nat) : ℤ) + n := by push_cast; ring
  intro x hx
  simp only [packingSteps, List.mem_cons, List.not_mem_nil, or_false] at hx
  -- Every result is linear in the two products and the number of entries left out.
  rw [htCast, hhalf, hrow] at hx
  rw [hsize]
  generalize row * n = p at *
  generalize n * n = q at *
  omega

/-! ## (4) Storage -/

variable {α : Type}

/-- **Packed symmetric storage is a bijection.** Mirrored entries have one position. The entries on and above the
diagonal, listed row by row, have the positions `0, 1, …` below the size of the storage, in this order; an entry
inside the matrix has its position inside the storage and shares it with its mirror image only. The position is
the last result of the formula over the integers, all of whose results are as small as the product `n (n + 1)`
that sizes the storage. So are the components of a symmetric field. -/
theorem symmetricIndex_bijective (n : Nat) :
    (∀ i j, symmetricIndex i j n = symmetricIndex j i n) ∧
      ((∀ i j, (i, j) ∈ upperTriangle n ↔ i ≤ j ∧ j < n) ∧
        (upperTriangle n).Pairwise (Prod.Lex (· < ·) (· < ·)) ∧
        (upperTriangle n).map (fun p => symmetricIndex p.1 p.2 n) = List.range (symmetricStorageSize n)) ∧
      (∀ i < n, ∀ j < n, symmetricIndex i j n < symmetricStorageSize n ∧
        ∀ k < n, ∀ l < n, symmetricIndex i j n = symmetricIndex k l n ↔ s(i, j) = s(k, l)) ∧
      (∀ i j, i ≤ j → j < n →
        (packingSteps i j n).getLast? = some (symmetricIndex i j n : ℤ) ∧
          ∀ x ∈ packingSteps i j n, -1 ≤ x ∧ x ≤ n * (n + 1)) ∧
      ∀ f : FieldVariable α, f.symmetric = true → f.shape = .matrix n n → ∀ i < n, ∀ j < n,
        f.backingIndex i j < f.storageSize ∧
          ∀ k < n, ∀ l < n, f.backingIndex i j = f.backingIndex k l ↔ s(i, j) = s(k, l) := by
  have hentries : ∀ i < n, ∀ j < n, symmetricIndex i j n < symmetricStorageSize n ∧
      ∀ k < n, ∀ l < n, symmetricIndex i j n = symmetricIndex k l n ↔ s(i, j) = s(k, l) := by
    intro i hi j hj
    refine ⟨?_, fun k hk l hl => symmetricIndex_eq_iff hi hj hk hl⟩
    rw [symmetricStorageSize_natCast]
    exact symmetricIndex_lt hi hj
  refine ⟨fun i j => symmetricIndex_comm i j n,
    ⟨fun i j => mem_upperTriangle, pairwise_upperTriangle n, map_symmetricIndex_upperTriangle n⟩, hentries,
    fun i j hle hlt => ⟨getLast_packingSteps hle hlt, packingSteps_bounds hle hlt⟩, ?_⟩
  intro f hsymmetric hshape i hi j hj
  -- A symmetric field keeps its entries at the positions of the triangle.
  have hbacking (k l : Nat) : f.backingIndex k l = symmetricIndex k l n := by
    rw [FieldVariable.backingIndex, if_pos hsymmetric, hshape]
    rfl
  have hstorage : f.storageSize = symmetricStorageSize n := by
    rw [FieldVariable.storageSize, if_pos hsymmetric, hshape]
    rfl
  simp only [hbacking, hstorage]
  exact hentries i hi j hj

/-- A symmetric field that keeps a copy of another one. -/
def symmetricCopy : FieldVariable ℚ :=
  ⟨1, "copy", .matrix 3 3, true, .precomputed (some (.field "B" (.matrix 3 3) true))⟩

/-- **The triangle of a `3 × 3` matrix** has six components, and those of the last row are shared with the last
column. -/
theorem symmetricIndex_bijective_three :
    (upperTriangle 3).map (fun p => symmetricIndex p.1 p.2 3) = [0, 1, 2, 3, 4, 5] ∧
      symmetricIndex 2 1 3 < 6 ∧ symmetricIndex 2 1 3 ≠ symmetricIndex 0 2 3 ∧
      symmetricCopy.backingIndex 2 0 < 6 ∧ symmetricCopy.backingIndex 2 0 = symmetricCopy.backingIndex 0 2 := by
  obtain ⟨-, ⟨-, -, hpositions⟩, hentries, -, hfields⟩ := symmetricIndex_bijective (α := ℚ) 3
  obtain ⟨hlt, hshared⟩ := hentries 2 (by decide) 1 (by decide)
  obtain ⟨hinside, hmirror⟩ := hfields symmetricCopy rfl rfl 2 (by decide) 0 (by decide)
  refine ⟨hpositions, hlt, fun hsame => ?_, hinside, (hmirror 0 (by decide) 2 (by decide)).mpr Sym2.eq_swap⟩
  exact absurd ((hshared 0 (by decide) 2 (by decide)).mp hsame) (by decide)

end Galerkin
