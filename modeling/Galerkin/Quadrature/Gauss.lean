import Galerkin.Error
import Galerkin.Scalar

/-! # Gauss–Legendre rules on the reference interval

The nodes of the rule with `n` points on `[-1, 1]` are the roots of the Legendre polynomial of degree
`n`; they are found by Newton's method from a cosine estimate.

* **`legendrePair`** — the polynomials of degrees `m` and `m + 1`, by the three-term recurrence;
* **`legendre`** — polynomial and derivative;
* **`gaussRule`** — nodes in ascending order and their weights. -/

namespace Galerkin

variable {α : Type} [Scalar α]

/-! ## (1) Legendre polynomials -/

/-- **Three-term recurrence.** The values at `x` of the Legendre polynomials of degrees `m` and
`m + 1`. -/
def legendrePair (x : α) : (m : Nat) → α × α
  | 0 => (Scalar.one, x)
  | m + 1 =>
    let (p0, p1) := legendrePair x m
    (p1, (Scalar.ofNat (2 * m + 3) * x * p1 - Scalar.ofNat (m + 1) * p0) / Scalar.ofNat (m + 2))

/-- **Value and derivative** at `x` of the Legendre polynomial of degree `n ≥ 1`. The derivative comes
from the two last polynomials of the recurrence. -/
def legendre (n : Nat) (x : α) : α × α :=
  let (p0, p1) := legendrePair x (n - 1)
  (p1, Scalar.ofNat n / (Scalar.one - x * x) * (p0 - x * p1))

/-! ## (2) Nodes and weights -/

/-- Nodes and weights of a quadrature rule on the reference interval. -/
structure ReferenceRule (α : Type) where
  nodes : List α
  weights : List α
  deriving Repr

namespace ReferenceRule

/-- The number of nodes. -/
def size (r : ReferenceRule α) : Nat := r.nodes.length

/-- The highest degree of polynomials that the rule is meant for. -/
def order (r : ReferenceRule α) : Int := 2 * (r.size : Int) - 1

end ReferenceRule

/-- The distance at which two Newton iterates count as equal. -/
def newtonTolerance : α := Scalar.one / Scalar.ofNat (Nat.pow 10 15)

/-- Newton's method for a root of the Legendre polynomial of degree `n`, for at most `steps` steps:
it ends when a step moves the point by no more than the tolerance. -/
def newtonRoot (n : Nat) : (steps : Nat) → (z : α) → α
  | 0, z => z
  | steps + 1, z =>
    let (p, dp) := legendre n z
    let next := z - p / dp
    if Scalar.lt newtonTolerance (Scalar.abs (next - z)) then newtonRoot n steps next else next

/-- The largest root not yet found: root number `i` counted from the right. -/
def gaussRoot [Circular α] (n i : Nat) : α :=
  let estimate := Circular.cos (Circular.pi * (Scalar.ofNat i + Scalar.ofNat 3 / Scalar.ofNat 4) /
    (Scalar.ofNat n + Scalar.half))
  newtonRoot n 100 estimate

/-- The weight of a root. -/
def gaussWeight (n : Nat) (z : α) : α :=
  let dp := (legendre n z).2
  Scalar.ofNat 2 / ((Scalar.one - z * z) * dp * dp)

/-- **The rule with `n` points, `1 ≤ n ≤ 128`.** Only the roots in the right half are computed; the
left half mirrors them. -/
def gaussRule [Circular α] (n : Int) : Except Error (ReferenceRule α) := do
  require (decide (1 ≤ n)) (.quadrature .noPoints)
  require (decide (n ≤ 128)) (.quadrature .tooManyPoints)
  let n := n.toNat
  let roots : Array α := (Array.range ((n + 1) / 2)).map fun i => gaussRoot n i
  let right (i : Nat) : α := roots.getD i Scalar.zero
  let mirrored (j : Nat) : Bool := decide (j < n - 1 - j)
  pure {
    nodes := (List.range n).map fun j => if mirrored j then -right j else right (n - 1 - j)
    weights := (List.range n).map fun j =>
      gaussWeight n (if mirrored j then right j else right (n - 1 - j)) }

end Galerkin
