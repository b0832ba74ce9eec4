import Galerkin.Error
import Galerkin.Scalar
import Galerkin.Quadrature.Composite

/-! # Geometry maps

A geometry map takes parametric points to physical points of the same dimension and has a Jacobian.

* **`GeometryMap`** — the identity, an axis-parallel box, a quarter of an annulus, or two given
  functions;
* **`GeometryMap.evaluate`**, **`GeometryMap.jacobian`** — image and Jacobian at a point;
* **`GeometryMap.onGrid`**, **`GeometryMap.jacobianOnGrid`** — the same at every node of a quadrature
  grid. -/

namespace Galerkin

variable {α : Type} [Scalar α]

/-- **A map between parametric and physical points.** The values of the functions of `given` are cut
or filled with zeros to the length that is asked for. -/
inductive GeometryMap (α : Type) where
  | identity (dim : Nat)
  | box (lower upper : List α)
  | annulus (inner outer : α)
  | given (dim : Nat) (evaluation jacobian : List α → List α)

namespace GeometryMap

/-! ## (1) Making maps -/

/-- The identity of a positive dimension. -/
def ofDim (dim : Int) : Except Error (GeometryMap α) := do
  require (decide (1 ≤ dim)) (.geometry .identityDimension)
  pure (.identity dim.toNat)

/-- The first axis along which a box has no positive extent. -/
def degenerateAxis? (lower upper : List α) : Option Nat :=
  (List.zip lower upper).findIdx? fun (l, u) => !Scalar.lt l u

/-- The box between two corners. -/
def ofCorners (lower upper : List α) : Except Error (GeometryMap α) := do
  require (!lower.isEmpty) (.geometry .emptyBox)
  require (lower.length == upper.length) (.geometry .cornerSizes)
  match degenerateAxis? lower upper with
  | some axis => throw (.geometry (.degenerateExtent axis))
  | none => pure (.box lower upper)

/-- The quarter of an annulus in the first quadrant, for `0 < inner < outer`. -/
def ofRadii (inner outer : α) : Except Error (GeometryMap α) := do
  require (Scalar.lt Scalar.zero inner && Scalar.lt inner outer) (.geometry .annulusRadii)
  pure (.annulus inner outer)

/-- A map made of two functions, both of which must be present. -/
def ofFunctions (dim : Int) (evaluation jacobian : Option (List α → List α)) :
    Except Error (GeometryMap α) := do
  require (decide (1 ≤ dim)) (.geometry .functionDimension)
  match evaluation, jacobian with
  | none, _ => throw (.geometry .missingEvaluation)
  | _, none => throw (.geometry .missingJacobian)
  | some e, some j => pure (.given dim.toNat e j)

/-! ## (2) Values -/

/-- The dimension of both spaces. -/
def dim : GeometryMap α → Nat
  | identity d => d
  | box lower _ => lower.length
  | annulus _ _ => 2
  | given d _ _ => d

/-- A list cut or filled with zeros to a given length. -/
def fitted (n : Nat) (xs : List α) : List α :=
  xs.take n ++ List.replicate (n - xs.length) Scalar.zero

/-- A square matrix, row by row, with the given diagonal. -/
def diagonal (entries : List α) : List α :=
  entries.zipIdx.flatMap fun (x, k) =>
    (List.range entries.length).map fun j => if j = k then x else Scalar.zero

/-- A quarter turn. -/
def quarterTurn [Circular α] : α := Scalar.half * Circular.pi

/-- The image of a point of the right dimension. -/
def image [Circular α] : GeometryMap α → List α → List α
  | identity _, xi => xi
  | box lower upper, xi =>
    List.zipWith (fun (l, u) x => l + (u - l) * x) (List.zip lower upper) xi
  | annulus inner outer, xi =>
    let radius := inner + (outer - inner) * xi.getD 0 Scalar.zero
    let angle := quarterTurn * xi.getD 1 Scalar.zero
    [radius * Circular.cos angle, radius * Circular.sin angle]
  | given d evaluation _, xi => fitted d (evaluation xi)

/-- The Jacobian at a point of the right dimension, row by row. -/
def jacobianAt [Circular α] : GeometryMap α → List α → List α
  | identity d, _ => diagonal (List.replicate d Scalar.one)
  | box lower upper, _ => diagonal (List.zipWith (fun l u => u - l) lower upper)
  | annulus inner outer, xi =>
    let width := outer - inner
    let radius := inner + width * xi.getD 0 Scalar.zero
    let angle := quarterTurn * xi.getD 1 Scalar.zero
    let c := Circular.cos angle
    let s := Circular.sin angle
    [width * c, -radius * s * quarterTurn, width * s, radius * c * quarterTurn]
  | given d _ jacobian, xi => fitted (d * d) (jacobian xi)

/-- The point must have one coordinate per axis, the place for the result the right size. -/
def checkSizes (map : GeometryMap α) (xi : List α) (room needed : Nat) : Except Error Unit := do
  require (xi.length == map.dim) (.geometry (.pointSize xi.length map.dim))
  require (room == needed) (.geometry .outputSize)

/-- **The image of a point,** for a result with room for `room` coordinates. -/
def evaluate [Circular α] (map : GeometryMap α) (xi : List α) (room : Nat) :
    Except Error (List α) := do
  map.checkSizes xi room map.dim
  pure (map.image xi)

/-- **The Jacobian at a point,** for a result with room for `room` entries. -/
def jacobian [Circular α] (map : GeometryMap α) (xi : List α) (room : Nat) :
    Except Error (List α) := do
  map.checkSizes xi room (map.dim * map.dim)
  pure (map.jacobianAt xi)

/-! ## (3) Values on a grid -/

/-- The values of a function of the point at every node of a grid of the map's dimension. -/
def sampleGrid (map : GeometryMap α) (grid : TensorQuadrature α) (components : Nat)
    (f : List α → Except Error (List α)) : Except Error (GridArray α) := do
  require (grid.dim == map.dim) (.geometry (.gridDimension map.dim grid.dim))
  let values ← (gridNodes grid.shape).mapM fun index => f (grid.point index)
  pure (GridArray.ofNodes grid.shape components (values.map List.toArray))

/-- **The physical coordinates of every grid node.** -/
def onGrid [Circular α] (map : GeometryMap α) (grid : TensorQuadrature α) :
    Except Error (GridArray α) :=
  map.sampleGrid grid map.dim fun xi => map.evaluate xi map.dim

/-- **The Jacobian at every grid node,** row by row. -/
def jacobianOnGrid [Circular α] (map : GeometryMap α) (grid : TensorQuadrature α) :
    Except Error (GridArray α) :=
  map.sampleGrid grid (map.dim * map.dim) fun xi => map.jacobian xi (map.dim * map.dim)

end GeometryMap

end Galerkin
