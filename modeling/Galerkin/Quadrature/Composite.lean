import Galerkin.Quadrature.Gauss
import Galerkin.Index.Grid

/-! # Composite and tensor-product quadrature

* **`CompositeRule`** — a reference rule mapped onto every element of a mesh, element by element, so
  that element `e` owns the nodes from `perElement * e` to below `perElement * (e + 1)`;
* **`compositeRule`** — the composite rule of any reference rule;
* **`compositeGauss`** — the one of the Gauss–Legendre rule;
* **`TensorQuadrature`** — one composite rule per axis, a grid of nodes. -/

namespace Galerkin

variable {α : Type} [Scalar α]

/-! ## (1) One axis -/

/-- Nodes and weights over all elements of a mesh, with the number of nodes on each. -/
structure CompositeRule (α : Type) where
  perElement : Nat
  nodes : Array α
  weights : Array α
  deriving Repr, Inhabited

/-- The elements of a mesh, as pairs of neighbouring break points. -/
def meshPairs (mesh : List α) : List (α × α) := mesh.zip mesh.tail

/-- The nodes of the rule on the element from `a` to `b`. -/
def elementNodes (rule : ReferenceRule α) (a b : α) : List α :=
  let halfLength := Scalar.half * (b - a)
  let middle := Scalar.half * (a + b)
  rule.nodes.map fun x => middle + halfLength * x

/-- The weights of the rule on the element from `a` to `b`. -/
def elementWeights (rule : ReferenceRule α) (a b : α) : List α :=
  let halfLength := Scalar.half * (b - a)
  rule.weights.map fun w => halfLength * w

/-- **A reference rule on every element of a mesh,** which must increase strictly. -/
def compositeRule (rule : ReferenceRule α) (mesh : List α) : Except Error (CompositeRule α) := do
  require ((meshPairs mesh).all fun (a, b) => Scalar.lt a b) (.quadrature .meshNotIncreasing)
  pure {
    perElement := rule.size
    nodes := ((meshPairs mesh).flatMap fun (a, b) => elementNodes rule a b).toArray
    weights := ((meshPairs mesh).flatMap fun (a, b) => elementWeights rule a b).toArray }

/-- **The Gauss–Legendre rule with `points` nodes on every element of a mesh.** -/
def compositeGauss [Circular α] (mesh : List α) (points : Int) :
    Except Error (CompositeRule α) := do
  require (decide (2 ≤ mesh.length)) (.quadrature .emptyMesh)
  compositeRule (← gaussRule points) mesh

/-! ## (2) Several axes -/

/-- One composite rule per axis. -/
structure TensorQuadrature (α : Type) where
  axes : List (CompositeRule α)
  deriving Repr, Inhabited

namespace TensorQuadrature

/-- The number of axes. -/
def dim (q : TensorQuadrature α) : Nat := q.axes.length

/-- The number of nodes on each axis. -/
def shape (q : TensorQuadrature α) : List Nat := q.axes.map (·.nodes.size)

/-- The number of nodes of the grid. -/
def nodes (q : TensorQuadrature α) : Nat := nodeCount q.shape

/-- The point with a given multi-index: its `k`-th coordinate is that node of axis `k`. -/
def point (q : TensorQuadrature α) (index : List Nat) : List α :=
  List.zipWith (fun (axis : CompositeRule α) i => axis.nodes.getD i Scalar.zero) q.axes index

/-- **The same number of Gauss nodes on every element of every axis.** -/
def gauss [Circular α] (meshes : List (List α)) (points : Int) :
    Except Error (TensorQuadrature α) := do
  require (!meshes.isEmpty) (.quadrature .noAxes)
  pure ⟨← meshes.mapM fun mesh => compositeGauss mesh points⟩

end TensorQuadrature

end Galerkin
