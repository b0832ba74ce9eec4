import Galerkin.Error
import Galerkin.Scalar
import Galerkin.Index.Interval
import Galerkin.Index.Search

/-! # Knot vectors

A knot vector of degree `p` is a non-decreasing sequence of knots. It spans `n` basis functions, one
for each run of `p + 2` consecutive knots, on the domain from knot `p` to knot `n`; the distinct knots
of the domain form the mesh, whose intervals are the elements.

* **`KnotVector`** — degree and knots that pass **`checkKnots`**;
* **`KnotVector.openUniform`** — equally spaced elements with repeated end knots;
* **`KnotVector.mesh`**, **`KnotVector.meshSupport`** — elements, and the elements under each function;
* **`jointRange`** — the functions whose support meets that of a given function;
* **`KnotVector.findSpan`** — the knot interval that holds a point. -/

namespace Galerkin

variable {α : Type} [Scalar α]

/-! ## (1) Accepted knots -/

/-- The knot with a given number, zero beyond the end. -/
@[inline] def knotAt (knots : Array α) (i : Nat) : α := knots.getD i Scalar.zero

/-- Whether no knot is smaller than the one before it. -/
def nonDecreasing (knots : Array α) : Bool :=
  (List.range (knots.size - 1)).all fun i => !Scalar.lt (knotAt knots (i + 1)) (knotAt knots i)

/-- The first function all of whose knots coincide, if there is one. -/
def repeatedFunction? (degree : Nat) (knots : Array α) : Option Nat :=
  (List.range (knots.size - degree - 1)).find? fun i =>
    !Scalar.lt (knotAt knots i) (knotAt knots (i + degree + 1))

/-- **The conditions on a knot vector:** at least `degree + 2` knots, no decrease, a domain that is
not empty, and no function whose knots all coincide. -/
def checkKnots (degree : Nat) (knots : Array α) : Except Error Unit := do
  require (decide (degree + 2 ≤ knots.size)) (.knot .tooShort)
  require (nonDecreasing knots) (.knot .decreasing)
  require (Scalar.lt (knotAt knots degree) (knotAt knots (knots.size - degree - 1)))
    (.knot .emptyDomain)
  match repeatedFunction? degree knots with
  | some i => throw (.knot (.multiplicity i))
  | none => pure ()

/-- **A knot vector:** degree and knots that satisfy the conditions. -/
structure KnotVector (α : Type) [Scalar α] where
  degree : Nat
  knots : Array α
  accepted : checkKnots degree knots = .ok ()

namespace KnotVector

/-- Makes a knot vector from a degree, which must not be negative, and knots. -/
def ofKnots (degree : Int) (knots : Array α) : Except Error (KnotVector α) :=
  if degree < 0 then .error (.knot .negativeDegree)
  else
    match h : checkKnots degree.toNat knots with
    | .ok () => .ok ⟨degree.toNat, knots, h⟩
    | .error e => .error e

/-- The break points of `elements` equal elements on `[a, b]`; the last one is `b` itself. -/
def uniformBreaks (elements : Nat) (a b : α) : List α :=
  ((List.range elements).map fun e =>
    a + (b - a) * Scalar.ofNat e / Scalar.ofNat elements) ++ [b]

/-- **Equal elements on `[a, b]` with end knots of full multiplicity.** -/
def openUniform (degree : Int) (elements : Nat) (a b : α) : Except Error (KnotVector α) := do
  require (decide (0 ≤ degree)) (.knot .uniformNegativeDegree)
  require (decide (0 < elements)) (.knot .uniformNoElement)
  require (Scalar.lt a b) (.knot .uniformEmptyInterval)
  let ends := List.replicate degree.toNat
  ofKnots degree (ends a ++ uniformBreaks elements a b ++ ends b).toArray

/-- The number of basis functions. -/
def dofs (kv : KnotVector α) : Nat := kv.knots.size - kv.degree - 1

/-- The knot with a given number. -/
@[inline] def knot (kv : KnotVector α) (i : Nat) : α := knotAt kv.knots i

/-! ## (2) Mesh and supports -/

/-- Drops every value that equals the last one kept, which is `kept` at the start. -/
def dropRepeatsOf (kept : α) : List α → List α
  | [] => []
  | x :: xs => if Scalar.eq kept x then dropRepeatsOf kept xs else x :: dropRepeatsOf x xs

/-- Drops every value that equals the last one kept. -/
def dropRepeats : List α → List α
  | [] => []
  | x :: xs => x :: dropRepeatsOf x xs

/-- **The mesh:** the distinct knots of the domain. -/
def mesh (kv : KnotVector α) : Array α :=
  (dropRepeats (kv.knots.extract kv.degree (kv.dofs + 1)).toList).toArray

/-- The number of elements of a mesh. -/
def meshElements (mesh : Array α) : Nat := mesh.size - 1

/-- The number of elements. -/
def elements (kv : KnotVector α) : Nat := meshElements kv.mesh

/-- The lower end of the domain. -/
def lower (kv : KnotVector α) : α := knotAt kv.mesh 0

/-- The upper end of the domain. -/
def upper (kv : KnotVector α) : α := knotAt kv.mesh kv.elements

/-- The first element that starts at `t` or later; beyond the mesh, the number of elements. -/
def elementOf (mesh : Array α) (t : α) : Nat :=
  min (partitionPoint (fun e => Scalar.lt (knotAt mesh e) t) 0 mesh.size) (meshElements mesh)

/-- **The elements under each basis function,** from its first to its last knot, clipped to the
domain. -/
def meshSupport (kv : KnotVector α) : Array Interval :=
  let mesh := kv.mesh
  (Array.range kv.dofs).map fun i =>
    ⟨elementOf mesh (kv.knot i), elementOf mesh (kv.knot (i + kv.degree + 1))⟩

end KnotVector

/-- **The functions whose support meets that of function `i`,** for supports that do not decrease in
either end: from the first one that ends behind the start of `i` to before the first one that starts
at the end of `i` or later. -/
def jointRange (support : Array Interval) (i : Nat) : Except Error Interval := do
  checkIndex .jointSupportFunction i support.size
  let s := support.getD i default
  let first := partitionPoint (fun j => !decide (s.first < (support.getD j default).last)) 0
    support.size
  let last := partitionPoint (fun j => decide ((support.getD j default).first < s.last)) 0
    support.size
  pure ⟨first, last⟩

namespace KnotVector

/-- The functions whose support meets that of function `i`. -/
def jointSupportRange (kv : KnotVector α) (i : Nat) : Except Error Interval :=
  jointRange kv.meshSupport i

/-! ## (3) Span search -/

/-- Whether the knot interval that starts at knot `s` has positive length. -/
def properSpan (kv : KnotVector α) (s : Nat) : Bool := Scalar.lt (kv.knot s) (kv.knot (s + 1))

/-- From span `floor + above` downwards, the first span of positive length, at least `floor`. -/
def lastSpan (kv : KnotVector α) (floor : Nat) : (above : Nat) → Nat
  | 0 => floor
  | above + 1 =>
    if kv.properSpan (floor + (above + 1)) then floor + (above + 1) else lastSpan kv floor above

/-- From span `s` upwards, the first span of positive length, at most `s + below`. -/
def firstSpan (kv : KnotVector α) (s : Nat) : (below : Nat) → Nat
  | 0 => s
  | below + 1 => if kv.properSpan s then s else firstSpan kv (s + 1) below

/-- Bisection between `low` and `high` for a span that holds `u`. -/
def bisectSpan (kv : KnotVector α) (u : α) : (fuel low high : Nat) → Nat
  | 0, low, high => (low + high) / 2
  | fuel + 1, low, high =>
    let mid := (low + high) / 2
    if Scalar.lt u (kv.knot mid) then bisectSpan kv u fuel low mid
    else if Scalar.le (kv.knot (mid + 1)) u then bisectSpan kv u fuel mid high
    else mid

/-- **The span of a point:** the knot interval `[t_s, t_{s+1})` that holds it. A point at the upper
end of the domain or beyond belongs to the last span of positive length, one at the lower end or
before it to the first. Each bisection step shortens the range, so as many steps as there are
functions are enough. -/
def findSpan (kv : KnotVector α) (u : α) : Nat :=
  let p := kv.degree
  let n := kv.dofs
  if Scalar.le (kv.knot n) u then kv.lastSpan p (n - 1 - p)
  else if Scalar.le u (kv.knot p) then kv.firstSpan p (n - 1 - p)
  else kv.bisectSpan u (n + 1) p n

end KnotVector

end Galerkin
