import Galerkin.Geometry.Jacobian
import Galerkin.Geometry.Map
import Galerkin.Kernel.Compiled

/-! # Preparing kernel data

Quadrature grid, tables of the basis functions, and the arrays of all fields of a form.

* **`CompiledKernel.prepare`** — the data for given bases and geometry;
* **`CompiledKernel.evaluatePrecomputed`** — the precomputed fields, in the order of their numbers;
* **`CompiledKernel.updateInput`** — new values of an input field. -/

namespace Galerkin

variable {α : Type} [Scalar α]

/-! ## (1) Bases and quadrature -/

/-- **Whether two meshes agree** up to rounding errors relative to the length of the first. -/
def sameMesh (a b : Array α) : Bool :=
  a.size == b.size &&
    (let length := knotAt a (a.size - 1) - knotAt a 0
     let tolerance := Scalar.one / Scalar.ofNat (Nat.pow 10 12) *
       Scalar.max Scalar.one (Scalar.abs length)
     (List.range a.size).all fun i =>
      !Scalar.lt tolerance (Scalar.abs (knotAt a i - knotAt b i)))

/-- The bases that a kernel is set up for, one knot vector per axis. -/
inductive KernelBases (α : Type) [Scalar α] where
  /-- The same basis for test and trial functions. -/
  | shared (bases : List (KnotVector α))
  /-- Different bases on the same mesh. -/
  | separate (trial test : List (KnotVector α))

namespace KernelBases

/-- The bases of the trial functions. -/
def trial : KernelBases α → List (KnotVector α)
  | shared bases => bases
  | separate trial _ => trial

/-- The bases of the test functions. -/
def test : KernelBases α → List (KnotVector α)
  | shared bases => bases
  | separate _ test => test

/-- Different bases must have the same mesh on every axis. -/
def checkMeshes (kernel : String) : KernelBases α → Except Error Unit
  | shared _ => pure ()
  | separate trial test =>
    (trial.zip test).zipIdx.forM fun ((u, v), axis) =>
      require (sameMesh u.mesh v.mesh) (.kernel (.meshesDiffer kernel axis))

/-- The number of quadrature points per element and axis: one more than the highest degree. -/
def pointsPerElement (b : KernelBases α) : Nat :=
  ((b.trial ++ b.test).map (·.degree)).foldl max 0 + 1

end KernelBases

/-- The tables of some bases at the nodes of a grid. -/
def spaceTables [ScalarText α] (bases : List (KnotVector α)) (grid : TensorQuadrature α)
    (maxDeriv : Nat) : Except Error (List (AxisTables α)) :=
  (bases.zip grid.axes).mapM fun (kv, axis) => do
    let table ← kv.evaluateDerivatives axis.nodes.toList maxDeriv ScalarText.computedPlaces
    pure ⟨kv.meshSupport, table⟩

/-! ## (2) Field arrays -/

/-- The product of the quadrature weights of a node. -/
def scaledWeight (grid : TensorQuadrature α) (start : α) (index : List Nat) : α :=
  (grid.axes.zip index).foldl
    (fun w (axis, i) => w * axis.weights.getD i Scalar.zero) start

/-- At every node, the quadrature weight times the absolute value of the determinant: the first component
of the given array. -/
def weightField (grid : TensorQuadrature α) (determinants target : GridArray α) :
    Option (GridArray α) :=
  target.storeNodes? (target.walk.zipIdx.map fun (index, n) =>
    #[scaledWeight grid (Scalar.abs ((determinants.get? n 0).getD Scalar.zero)) index])

/-- The transpose of a square matrix that is kept row by row. -/
def transposed (dim : Nat) (entries : Array α) : Array α :=
  ((List.range dim).flatMap fun r => (List.range dim).map fun c =>
    entries.getD (c * dim + r) Scalar.zero).toArray

/-- At every node, the transposed inverse: the first components of the given array, if it has room. -/
def inverseTransposedField (dim : Nat) (inverses target : GridArray α) : Option (GridArray α) :=
  target.storeNodes? ((List.range target.nodes).map fun n => transposed dim (inverses.nodeData n))

/-- At every node, the value of a function of the physical point. -/
def sampleInput (shape : List Nat) (points : GridArray α) (f : InputFunction α) :
    Except Error (GridArray α) := do
  let values ← (List.range points.nodes).mapM fun n => f (points.nodeData n).toList
  pure (GridArray.ofNodes shape 1 (values.map fun x => #[x]))

/-- Determinants and inverses of the Jacobian over the grid, if they have been computed. -/
abbrev JacobianData (α : Type) := Option (GridArray α × GridArray α)

/-- **The array of a geometry field** with a number of components for each node. Those that are not
stored are zero. -/
def geometryField? (which : BuiltinField) (grid : TensorQuadrature α)
    (determinants inverses : GridArray α) (components : Nat) : Option (GridArray α) :=
  let zeros := GridArray.filled grid.shape components Scalar.zero
  match which with
  | .weight => weightField grid determinants zeros
  | .inverseTransposed => inverseTransposedField grid.dim inverses zeros

namespace CompiledKernel

/-- The array of a field before precomputed fields are evaluated: local and precomputed fields have
none. -/
def initialField (k : CompiledKernel α) (grid : TensorQuadrature α) (jacobian : JacobianData α)
    (points : GridArray α) (f : FieldVariable α) : Except Error (GridArray α) :=
  match f.definition with
  | .builtin which =>
    match jacobian with
    | none => throw (.kernel (.noJacobianData k.name f.name))
    | some (determinants, inverses) =>
      match geometryField? which grid determinants inverses f.storageSize with
      | some values => pure values
      | none => throw (.kernel (.noRoom k.name f.name))
  | .input (some function) => sampleInput grid.shape points function
  | .input none => throw (.form (.inputFunction f.name))
  | .precomputed _ => pure GridArray.empty
  | .perEntry _ => pure GridArray.empty

/-! ## (3) Precomputed fields -/

/-- The arrays a program reads, by slot; none of them may be empty. -/
def programFields (data : KernelData α) (p : Program α) : Except Error (Array (GridArray α)) := do
  let arrays := p.fields.map data.fieldArray
  require (arrays.all fun a => !a.isEmpty) (.kernel .unevaluatedDependency)
  pure arrays.toArray

/-- The component of the field in a slot at a node. -/
@[inline] def fieldValue (arrays : Array (GridArray α)) (node slot component : Nat) : α :=
  match arrays[slot]? with
  | some a => a.data.getD (node * a.components + component) Scalar.zero
  | none => Scalar.zero

/-- **Evaluates a program at every node of a grid.** Its output slots are the components of the
result. -/
def evaluateOnGrid (data : KernelData α) (p : Program α) (shape : List Nat) (components : Nat) :
    Except Error (GridArray α) := do
  let arrays ← programFields data p
  let start : Array α := Array.replicate components Scalar.zero
  pure (GridArray.ofNodes shape components
    ((List.range (nodeCount shape)).map fun n =>
      p.evaluate (fun _ => Scalar.zero) (fieldValue arrays n) start))

/-- The data with the array of one precomputed field. -/
def evaluateField (k : CompiledKernel α) (data : KernelData α) (item : Nat × Program α) :
    Except Error (KernelData α) := do
  let components := ((k.form.fields[item.1]?).map (·.storageSize)).getD 0
  pure (data.setField item.1
    (← evaluateOnGrid data item.2 data.quadrature.shape components))

/-- Evaluates all precomputed fields in place, each of which may read those before it. -/
def refreshPrecomputed (k : CompiledKernel α) : InPlace (KernelData α) Unit :=
  k.fieldPrograms.forM fun item => .change fun data => k.evaluateField data item

/-- **The data with the arrays of all precomputed fields.** -/
def evaluatePrecomputed (k : CompiledKernel α) (data : KernelData α) :
    Except Error (KernelData α) :=
  k.refreshPrecomputed.finished data

/-! ## (4) Preparation and update -/

/-- Whether some field samples a function of the physical point. -/
def hasInput (k : CompiledKernel α) : Bool :=
  k.form.fields.any fun f =>
    match f.definition with
    | .input _ => true
    | _ => false

/-- The tables of the test functions: those of the trial functions if both have the same basis. -/
def testTables [ScalarText α] (bases : KernelBases α) (grid : TensorQuadrature α) (maxDeriv : Nat)
    (trial : List (AxisTables α)) : Except Error (List (AxisTables α)) :=
  match bases with
  | .shared _ => pure trial
  | .separate _ test => spaceTables test grid maxDeriv

/-- The Jacobian over the grid, if the form asks for it. -/
def jacobianData [Circular α] (k : CompiledKernel α) (geometry : GeometryMap α)
    (grid : TensorQuadrature α) : Except Error (JacobianData α) :=
  if k.form.requirements.jacobian then do
    let jacobians ← geometry.jacobianOnGrid grid
    some <$> invertJacobians jacobians k.form.dim
  else pure none

/-- The physical points of the grid, if some field samples a function there. -/
def physicalPoints [Circular α] (k : CompiledKernel α) (geometry : GeometryMap α)
    (grid : TensorQuadrature α) : Except Error (GridArray α) :=
  if k.hasInput then geometry.onGrid grid else pure GridArray.empty

/-- **The data of a kernel for given bases and geometry.** -/
def prepare [Circular α] [ScalarText α] (k : CompiledKernel α) (bases : KernelBases α)
    (geometry : GeometryMap α) : Except Error (KernelData α) := do
  let dim := k.form.dim
  require (geometry.dim == dim) (.kernel (.geometryDimension k.name dim geometry.dim))
  bases.checkMeshes k.name
  let points := bases.pointsPerElement
  let grid ← TensorQuadrature.gauss (bases.trial.map fun kv => kv.mesh.toList) points
  let maxDeriv := k.form.requirements.maxDeriv
  let trial ← spaceTables bases.trial grid maxDeriv
  let test ← testTables bases grid maxDeriv trial
  let jacobian ← k.jacobianData geometry grid
  let physical ← k.physicalPoints geometry grid
  let fields ← k.form.fields.mapM (k.initialField grid jacobian physical)
  k.evaluatePrecomputed ⟨trial, test, points, grid, fields.toArray, physical⟩

/-- **Gives an input field new values** and evaluates the precomputed fields again, in place. -/
def updateInput (k : CompiledKernel α) (name : String) (function : Option (InputFunction α)) :
    InPlace (KernelData α) Unit := do
  match k.form.fields.find? (·.name == name) with
  | none => throw (.kernel (.noField k.name name))
  | some f =>
    match f.definition with
    | .input _ =>
      match function with
      | none => throw (.kernel (.emptyFunction name))
      | some g =>
        let data ← get
        require (!data.points.isEmpty) (.kernel (.uninitialized k.name))
        set (data.setField f.id (← sampleInput data.quadrature.shape data.points g))
        k.refreshPrecomputed
    | _ => throw (.kernel (.notInput k.name name))

end CompiledKernel

end Galerkin
