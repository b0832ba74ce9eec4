/-! # Arithmetic of a computation

All numerical algorithms of this library are written once, over a type of scalars that offers the
operations they use and nothing else:

* **`Scalar α`** — field operations, natural numbers and the comparisons a program makes;
* **`Circular α`** — cosine, sine and half a turn;
* **`ScalarText α`** — how a scalar reads in listings and in messages;
* **`ArithOp`** — the four binary operations as data.

The instances for `Float` run the algorithms in double precision, each operation exactly where it is
written. No law is part of a class: a statement about exact arithmetic assumes the laws it needs. -/

namespace Galerkin

/-! ## (1) Scalars -/

/-- Field operations, natural numbers and Boolean comparisons. -/
class Scalar (α : Type) where
  sums : Add α
  differences : Sub α
  products : Mul α
  quotients : Div α
  negatives : Neg α
  /-- A natural number as a scalar. -/
  ofNat : Nat → α
  /-- Strictly less. -/
  lt : α → α → Bool
  /-- Less or equal. -/
  le : α → α → Bool
  /-- Numerically equal. -/
  eq : α → α → Bool

namespace Scalar

variable {α : Type} [Scalar α]

-- Operations that a type has from elsewhere come before those of the class.

instance (priority := 100) addition : Add α := sums

instance (priority := 100) subtraction : Sub α := differences

instance (priority := 100) multiplication : Mul α := products

instance (priority := 100) division : Div α := quotients

instance (priority := 100) negation : Neg α := negatives

/-- The number zero. -/
@[inline] def zero : α := ofNat 0

/-- The number one. -/
@[inline] def one : α := ofNat 1

/-- One half. -/
@[inline] def half : α := ofNat 1 / ofNat 2

/-- The absolute value, by a comparison with zero. -/
@[inline] def abs (x : α) : α := if lt x zero then -x else x

/-- The larger of two numbers, the first one unless it is smaller. -/
@[inline] def max (x y : α) : α := if lt x y then y else x

/-- Whether a value is a number: every number equals itself. -/
@[inline] def isNumber (x : α) : Bool := eq x x

/-- Whether a value is a finite number: only those leave zero when subtracted from themselves. -/
@[inline] def isFinite (x : α) : Bool := eq (x - x) zero

end Scalar

instance : Scalar Float where
  sums := inferInstance
  differences := inferInstance
  products := inferInstance
  quotients := inferInstance
  negatives := inferInstance
  ofNat := Float.ofNat
  lt x y := decide (x < y)
  le x y := decide (x ≤ y)
  eq x y := x == y

/-! ## (2) Circular functions -/

/-- Cosine, sine and the constant `pi`. -/
class Circular (α : Type) where
  cos : α → α
  sin : α → α
  pi : α

instance : Circular Float where
  cos := Float.cos
  sin := Float.sin
  pi := 3.141592653589793

/-! ## (3) Text -/

/-- The ways in which a scalar is written. -/
class ScalarText (α : Type) where
  /-- The text in an expression or a listing. -/
  brief : α → String
  /-- The text of a given scalar inside a message, with a fixed number of decimal places. -/
  places : α → String
  /-- The text of a computed scalar inside a message: what an invalid operation leaves has a
  minus sign. -/
  computedPlaces : α → String

/-! ## (4) Operations as data -/

/-- The four binary arithmetic operations. -/
inductive ArithOp where
  | add
  | sub
  | mul
  | div
  deriving Repr, DecidableEq, Inhabited

namespace ArithOp

/-- The sign of an operation. -/
def symbol : ArithOp → String
  | add => "+"
  | sub => "-"
  | mul => "*"
  | div => "/"

/-- The word for an operation. -/
def word : ArithOp → String
  | add => "add"
  | sub => "sub"
  | mul => "mul"
  | div => "div"

/-- The operation that a word stands for. -/
def ofWord? (text : String) : Option ArithOp := [add, sub, mul, div].find? (·.word == text)

/-- Whether the order of the operands is immaterial. -/
def commutes : ArithOp → Bool
  | add => true
  | mul => true
  | sub => false
  | div => false

/-- The operation on scalars. -/
@[inline] def apply {α : Type} [Scalar α] : ArithOp → α → α → α
  | add, x, y => x + y
  | sub, x, y => x - y
  | mul, x, y => x * y
  | div, x, y => x / y

end ArithOp

end Galerkin
