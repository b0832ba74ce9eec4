/-! # Half-open index intervals

`Interval first last` holds the indices `i` with `first ≤ i < last`. Its main operations are
`intersect` and `indices`; `contains_intersect` says that an index lies in an intersection exactly
when it lies in both intervals. -/

namespace Galerkin

/-- The indices from `first` to below `last`; empty when `last ≤ first`. -/
structure Interval where
  first : Nat
  last : Nat
  deriving Repr, DecidableEq, Inhabited

namespace Interval

/-- Whether the interval holds no index. -/
def isEmpty (s : Interval) : Bool := decide (s.last ≤ s.first)

/-- The number of indices. -/
def size (s : Interval) : Nat := s.last - s.first

/-- Whether an index lies in the interval. -/
def contains (s : Interval) (i : Nat) : Bool := decide (s.first ≤ i) && decide (i < s.last)

/-- The common part of two intervals. -/
def intersect (s t : Interval) : Interval := ⟨max s.first t.first, min s.last t.last⟩

/-- The indices of the interval in increasing order. -/
def indices (s : Interval) : List Nat := List.range' s.first s.size

/-- The interval whose ends are both multiplied by `n`. -/
def scale (n : Nat) (s : Interval) : Interval := ⟨n * s.first, n * s.last⟩

@[simp] theorem contains_iff {s : Interval} {i : Nat} :
    s.contains i = true ↔ s.first ≤ i ∧ i < s.last := by
  simp [contains]

@[simp] theorem isEmpty_iff {s : Interval} : s.isEmpty = true ↔ s.last ≤ s.first := by
  simp [isEmpty]

@[simp] theorem mem_indices {s : Interval} {i : Nat} :
    i ∈ s.indices ↔ s.first ≤ i ∧ i < s.last := by
  simp only [indices, size, List.mem_range'_1]
  omega

/-- **An index lies in the intersection exactly when it lies in both intervals.** -/
theorem contains_intersect (s t : Interval) (i : Nat) :
    (s.intersect t).contains i = (s.contains i && t.contains i) := by
  rw [Bool.eq_iff_iff]
  simp only [contains_iff, intersect, Bool.and_eq_true]
  omega

end Interval

end Galerkin
