import Galerkin.Index.Interval
import Galerkin.Proofs.Index.Search

/-! # Intervals that meet

Two intervals meet if they have an index in common. Among supports that do not decrease in either end,
those that meet a given one are neighbours: a search for the first that ends behind its start, and for the
first that starts at its end or later, finds them.

* **`Interval.Meets`** — a common index; `Interval.meets_iff` compares the ends;
* **`SortedSupports`** — supports that do not decrease in either end;
* **`Neighbors`** — what a search leads to, and `Neighbors.contains_iff`: the supports it finds. -/

namespace Galerkin

/-! ## (1) Common indices -/

namespace Interval

variable {s t : Interval}

/-- Whether two intervals have an index in common. -/
def Meets (s t : Interval) : Prop := ∃ e, s.contains e = true ∧ t.contains e = true

/-- **Intervals meet if each of them starts before both end.** -/
theorem meets_iff :
    s.Meets t ↔ (s.first < s.last ∧ t.first < t.last) ∧ s.first < t.last ∧ t.first < s.last := by
  simp only [Meets, contains_iff]
  constructor
  · rintro ⟨e, hs, ht⟩
    omega
  · intro h
    exact ⟨max s.first t.first, by omega, by omega⟩

instance : Decidable (s.Meets t) := decidable_of_iff _ meets_iff.symm

/-- Meeting is mutual. -/
theorem meets_comm : s.Meets t ↔ t.Meets s := by
  simp only [Meets, and_comm]

/-- **Intervals that do not meet have an empty intersection.** -/
theorem isEmpty_intersect : (s.intersect t).isEmpty = true ↔ ¬ s.Meets t := by
  rw [isEmpty_iff, meets_iff]
  change min s.last t.last ≤ max s.first t.first ↔ _
  omega

end Interval

/-! ## (2) Sorted supports -/

/-- The support of a function in a table. -/
def supportAt (supports : Array Interval) (i : Nat) : Interval := supports.getD i ⟨0, 0⟩

/-- **Supports that do not decrease in either end.** -/
structure SortedSupports (supports : Array Interval) : Prop where
  first_mono : ∀ i j, i ≤ j → j < supports.size →
    (supportAt supports i).first ≤ (supportAt supports j).first
  last_mono : ∀ i j, i ≤ j → j < supports.size →
    (supportAt supports i).last ≤ (supportAt supports j).last

/-- Supports are sorted if each one has ends up to those of the later ones. -/
theorem SortedSupports.of_pairwise {supports : Array Interval}
    (h : supports.toList.Pairwise fun s t => s.first ≤ t.first ∧ s.last ≤ t.last) :
    SortedSupports supports := by
  have hboth : ∀ i j, i ≤ j → j < supports.size →
      (supportAt supports i).first ≤ (supportAt supports j).first ∧
        (supportAt supports i).last ≤ (supportAt supports j).last := by
    intro i j hij hj
    rcases Nat.eq_or_lt_of_le hij with rfl | hlt
    · exact ⟨Nat.le_refl _, Nat.le_refl _⟩
    · have hi := Nat.lt_trans hlt hj
      unfold supportAt
      rw [Array.getD_eq_getD_getElem?, Array.getD_eq_getD_getElem?, Array.getElem?_eq_getElem hi,
        Array.getElem?_eq_getElem hj]
      exact List.pairwise_iff_getElem.mp h i j hi hj hlt
  exact ⟨fun i j hij hj => (hboth i j hij hj).1, fun i j hij hj => (hboth i j hij hj).2⟩

/-- Each one of sorted supports has ends up to those of the later ones. -/
theorem SortedSupports.pairwise {supports : Array Interval} (h : SortedSupports supports) :
    supports.toList.Pairwise fun s t => s.first ≤ t.first ∧ s.last ≤ t.last := by
  have hget : ∀ i (hi : i < supports.size), supportAt supports i = supports[i] := fun i hi => by
    rw [supportAt, Array.getD_eq_getD_getElem?, Array.getElem?_eq_getElem hi, Option.getD_some]
  rw [List.pairwise_iff_getElem]
  intro i j hi hj hlt
  rw [Array.getElem_toList, Array.getElem_toList, ← hget i hi, ← hget j hj]
  exact ⟨h.first_mono i j (Nat.le_of_lt hlt) hj, h.last_mono i j (Nat.le_of_lt hlt) hj⟩

/-- **What a search for the neighbours of `s` leads to.** The supports before the range end before `s`
starts, and those in it are the next ones that start before `s` ends. The range can be empty. -/
structure Neighbors (s : Interval) (supports : Array Interval) (range : Interval) : Prop where
  first_le : range.first ≤ supports.size
  last_le : range.last ≤ supports.size
  lt_first : ∀ j < supports.size, j < range.first ↔ (supportAt supports j).last ≤ s.first
  lt_last : ∀ j < supports.size, range.first ≤ j →
    (j < range.last ↔ (supportAt supports j).first < s.last)

namespace Neighbors

variable {s range : Interval} {supports : Array Interval}

/-- The supports in the range start before `s` ends and end behind its start. -/
theorem contains_iff (h : Neighbors s supports range) {j : Nat} :
    range.first ≤ j ∧ j < range.last ↔ j < supports.size ∧
      s.first < (supportAt supports j).last ∧ (supportAt supports j).first < s.last := by
  have hlast := h.last_le
  by_cases hj : j < supports.size
  · have hfirst := h.lt_first j hj
    by_cases hbefore : j < range.first
    · have hend := hfirst.mp hbefore
      omega
    · have hstart := h.lt_last j hj (not_lt.mp hbefore)
      have hend := mt hfirst.mpr hbefore
      omega
  · omega

/-- **The supports in the range are those that meet `s`,** if none of them is empty. -/
theorem contains_iff_meets (h : Neighbors s supports range) (hs : s.first < s.last)
    (hfull : ∀ j < supports.size, s.first < (supportAt supports j).last →
      (supportAt supports j).first < s.last →
        (supportAt supports j).first < (supportAt supports j).last) {j : Nat} :
    range.first ≤ j ∧ j < range.last ↔ j < supports.size ∧ s.Meets (supportAt supports j) := by
  rw [h.contains_iff, Interval.meets_iff]
  constructor
  · rintro ⟨hj, hfirst, hlast⟩
    exact ⟨hj, ⟨hs, hfull j hj hfirst hlast⟩, hfirst, hlast⟩
  · rintro ⟨hj, -, hfirst, hlast⟩
    exact ⟨hj, hfirst, hlast⟩

end Neighbors

/-! ## (3) Searches -/

variable {s : Interval} {supports : Array Interval}

/-- The supports that end before `s` starts come first, and a search finds the end of them. -/
theorem lt_search_first (hsorted : SortedSupports supports) {before : Nat → Bool}
    (hbefore : ∀ j, before j = true ↔ (supportAt supports j).last ≤ s.first) {j : Nat}
    (hj : j < supports.size) :
    j < partitionPoint before 0 supports.size ↔ (supportAt supports j).last ≤ s.first := by
  rw [← hbefore]
  refine lt_partitionPoint_iff (fun i k _ hik hk hkbefore => ?_) (Nat.zero_le j) (by omega)
  rw [hbefore] at hkbefore ⊢
  exact Nat.le_trans (hsorted.last_mono i k hik (by omega)) hkbefore

/-- The supports that start before `s` ends come first, and a search from any position finds the end of
them. -/
theorem lt_search_last (hsorted : SortedSupports supports) {before : Nat → Bool}
    (hbefore : ∀ j, before j = true ↔ (supportAt supports j).first < s.last) {first : Nat}
    (hfirst : first ≤ supports.size) {j : Nat} (hle : first ≤ j) (hj : j < supports.size) :
    j < partitionPoint before first (supports.size - first) ↔
      (supportAt supports j).first < s.last := by
  rw [← hbefore]
  refine lt_partitionPoint_iff (fun i k _ hik hk hkbefore => ?_) hle (by omega)
  rw [hbefore] at hkbefore ⊢
  exact Nat.lt_of_le_of_lt (hsorted.first_mono i k hik (by omega)) hkbefore

/-- The first support that ends behind the start of `s`. -/
def firstNeighbor (s : Interval) (supports : Array Interval) : Nat :=
  partitionPoint (fun j => decide ((supportAt supports j).last ≤ s.first)) 0 supports.size

/-- **The supports before the first neighbour** end before `s` starts. -/
theorem lt_firstNeighbor (hsorted : SortedSupports supports) {j : Nat} (hj : j < supports.size) :
    j < firstNeighbor s supports ↔ (supportAt supports j).last ≤ s.first :=
  lt_search_first hsorted (fun _ => decide_eq_true_iff) hj

/-- There are no more supports before the first neighbour than supports. -/
theorem firstNeighbor_le : firstNeighbor s supports ≤ supports.size := partitionPoint_le _ _

/-- A search starts at the first neighbour. -/
theorem Neighbors.first_eq {range : Interval} (h : Neighbors s supports range)
    (hsorted : SortedSupports supports) : range.first = firstNeighbor s supports := by
  have hle := h.first_le
  have hle' : firstNeighbor s supports ≤ supports.size := firstNeighbor_le
  rcases Nat.lt_trichotomy range.first (firstNeighbor s supports) with hlt | heq | hgt
  · have hend := (lt_firstNeighbor hsorted (by omega)).mp hlt
    exact absurd ((h.lt_first _ (by omega)).mpr hend) (Nat.lt_irrefl _)
  · exact heq
  · have hend := (h.lt_first _ (by omega)).mp hgt
    exact absurd ((lt_firstNeighbor hsorted (by omega)).mpr hend) (Nat.lt_irrefl _)

end Galerkin
