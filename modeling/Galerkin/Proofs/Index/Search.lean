import Galerkin.Index.Search
import Mathlib.Data.Nat.Find

/-! # Binary search finds the partition point

Where the positions that are `before` come first, the search finds the first position that is not. -/

namespace Galerkin

variable {before : Nat → Bool}

/-- **The search finds the boundary** `k` between positions that are `before` and those that are not. -/
theorem partitionPoint_eq {first count k : Nat} (hfirst : first ≤ k) (hlast : k ≤ first + count)
    (hbefore : ∀ i, first ≤ i → i < k → before i = true)
    (hafter : ∀ i, k ≤ i → i < first + count → before i = false) :
    partitionPoint before first count = k := by
  fun_induction partitionPoint before first count with
  | case1 first => omega
  | case2 first count hcount half hprobe ih =>
    -- The probe is before the boundary.
    have hlt : first + half < k := by
      by_contra hge
      have := hafter (first + half) (by omega) (by omega)
      rw [hprobe] at this
      cases this
    exact ih (by omega) (by omega) (fun i hi => hbefore i (by omega))
      fun i hi hlt' => hafter i hi (by omega)
  | case3 first count hcount half hprobe ih =>
    have hge : k ≤ first + half := by
      by_contra hlt
      exact hprobe (hbefore (first + half) (by omega) (by omega))
    exact ih hfirst hge hbefore fun i hi hlt => hafter i hi (by omega)

/-- **Positions before the point found are those that are `before`,** if with a position all earlier
ones are. -/
theorem lt_partitionPoint_iff {first count i : Nat}
    (hmono : ∀ i j, first ≤ i → i ≤ j → j < first + count → before j = true → before i = true)
    (hfirst : first ≤ i) (hi : i < first + count) :
    i < partitionPoint before first count ↔ before i = true := by
  -- The first position that is not before, or the end of the range.
  have hex : ∃ k, first ≤ k ∧ (k = first + count ∨ before k = false) :=
    ⟨first + count, by omega, .inl rfl⟩
  have hmin : ∀ m, first ≤ m → m < Nat.find hex → m ≠ first + count ∧ before m = true := by
    intro m hfm hm
    have hnot := Nat.find_min hex hm
    rw [not_and, not_or, Bool.not_eq_false] at hnot
    exact hnot hfm
  obtain ⟨hlow, hspec⟩ := Nat.find_spec hex
  have hle : Nat.find hex ≤ first + count := Nat.find_min' hex ⟨by omega, .inl rfl⟩
  have hpoint : partitionPoint before first count = Nat.find hex := by
    refine partitionPoint_eq hlow hle (fun m hfm hm => (hmin m hfm hm).2) fun m hm hlt => ?_
    rcases hspec with hend | hspec
    · omega
    · by_contra hbefore
      rw [Bool.not_eq_false] at hbefore
      rw [hmono _ m hlow hm hlt hbefore] at hspec
      cases hspec
  rw [hpoint]
  constructor
  · exact fun hlt => (hmin i hfirst hlt).2
  · intro hbefore
    by_contra hge
    rcases hspec with hend | hspec
    · omega
    · rw [hmono _ i hlow (not_lt.mp hge) hi hbefore] at hspec
      cases hspec

/-- The point found is within the range. -/
theorem partitionPoint_le (before : Nat → Bool) (count : Nat) : partitionPoint before 0 count ≤ count := by
  have h := (partitionPoint_bounds before 0 count).2
  omega

end Galerkin
