import Galerkin.Proofs.Tape.Building
import Mathlib.Algebra.Order.Field.Basic

/-! # Exact arithmetic

Scalars are ordered if comparisons say what is the case in a linear order, whatever the arithmetic. An
ordered field is a type of such scalars, with the operations of the field. Statements about exact
arithmetic are about ordered fields; the rational numbers are an example that can be computed with. -/

namespace Galerkin

/-- **Scalars whose comparisons are those of a linear order.** Nothing is assumed of the arithmetic. -/
class OrderedScalar (α : Type) [Scalar α] [LinearOrder α] : Prop where
  lt_eq : ∀ x y : α, Scalar.lt x y = decide (x < y)
  le_eq : ∀ x y : α, Scalar.le x y = decide (x ≤ y)
  eq_eq : ∀ x y : α, Scalar.eq x y = decide (x = y)

variable {K : Type} [Field K] [LinearOrder K]

/-- **The scalars of an ordered field.** -/
instance exactScalar : Scalar K where
  sums := inferInstance
  differences := inferInstance
  products := inferInstance
  quotients := inferInstance
  negatives := inferInstance
  ofNat n := n
  lt x y := decide (x < y)
  le x y := decide (x ≤ y)
  eq x y := decide (x = y)

/-- The comparisons of an ordered field are those of its order. -/
instance : OrderedScalar K where
  lt_eq _ _ := rfl
  le_eq _ _ := rfl
  eq_eq _ _ := rfl

/-- Rational numbers are written as fractions. -/
instance : ScalarText ℚ := ⟨toString, toString, toString⟩

/-- Fields have commuting operations. -/
instance : CommutativeScalar K where
  add_comm := add_comm
  mul_comm := mul_comm

namespace Scalar

@[simp] theorem zero_exact : (Scalar.zero : K) = 0 := Nat.cast_zero

@[simp] theorem one_exact : (Scalar.one : K) = 1 := Nat.cast_one

@[simp] theorem ofNat_exact (n : Nat) : (Scalar.ofNat n : K) = n := rfl

@[simp] theorem lt_exact (x y : K) : Scalar.lt x y = decide (x < y) := rfl

@[simp] theorem le_exact (x y : K) : Scalar.le x y = decide (x ≤ y) := rfl

@[simp] theorem eq_exact (x y : K) : Scalar.eq x y = decide (x = y) := rfl

theorem abs_exact [IsStrictOrderedRing K] (x : K) : Scalar.abs x = |x| := by
  rw [Scalar.abs, lt_exact, zero_exact]
  by_cases hneg : x < 0
  · rw [if_pos (decide_eq_true hneg), abs_of_neg hneg]
  · rw [if_neg (by simpa using hneg), abs_of_nonneg (not_lt.mp hneg)]

end Scalar

end Galerkin
