import Galerkin.Assembly.Matrix
import Galerkin.Kernel.Entry

/-! # Assemblers of forms

A form assembler evaluates a compiled kernel over tensor-product bases. Test and trial functions come
from the same bases, or from different bases on the same mesh; only in the first case can it make use
of the symmetry of a form.

* **`FormAssembler`** — kernel, bases and data;
* **`FormAssembler.make`** — prepares the data for a kernel;
* **`FormAssembler.assembler`** — the queries;
* **`FormAssembler.updateInput`** — new values of an input field. -/

namespace Galerkin

variable {α : Type} [Scalar α]

/-- **A kernel with its bases and data.** -/
structure FormAssembler (α : Type) [Scalar α] where
  kernel : CompiledKernel α
  bases : KernelBases α
  data : KernelData α

namespace FormAssembler

/-! ## (1) Queries -/

/-- Whether test and trial functions come from different bases. -/
def isSeparate : KernelBases α → Bool
  | .shared _ => false
  | .separate _ _ => true

/-- The layout of the functions of some bases. -/
def layoutOf (kernel : CompiledKernel α) (bases : List (KnotVector α)) : Layout :=
  ⟨bases.map (·.dofs), kernel.form.components⟩

/-- Whether the symmetry of the form carries over to the matrix. -/
def isSymmetric (kernel : CompiledKernel α) (bases : KernelBases α) : Bool :=
  kernel.form.symmetric && !isSeparate bases

/-- The supports of the functions of a space on an axis. -/
def meshSupport (dim : Nat) (data : KernelData α) (axis : Int) (space : Space) :
    Except Error (Array Interval) := do
  checkIndex .formSupportAxis axis dim
  let axes := match space with
    | .trial => data.trial
    | .test => data.test
  pure ((axes[axis.toNat]?.map (·.support)).getD #[])

/-- The trial functions on an axis whose support meets that of test function `i`. -/
def neighborRange (dim : Nat) (bases : KernelBases α) (data : KernelData α) (axis : Int)
    (i : Nat) : Except Error Interval := do
  checkIndex .formNeighborAxis axis dim
  match bases with
  | .shared _ => jointRange (← meshSupport dim data axis .test) i
  | .separate _ _ => Assembler.searchNeighbors dim (meshSupport dim data) axis i

/-- **The queries of a form assembler.** -/
def assembler (f : FormAssembler α) : Assembler α :=
  let dim := f.kernel.form.dim
  {
    name := f.kernel.name
    arity := f.kernel.form.arity
    test := layoutOf f.kernel f.bases.test
    trial := layoutOf f.kernel f.bases.trial
    symmetric := isSymmetric f.kernel f.bases
    meshSupport := meshSupport dim f.data
    neighborRange := neighborRange dim f.bases f.data
    evaluator := ⟨f.kernel.entry f.data, f.kernel.entry1 f.data⟩ }

/-! ## (2) Making and updating -/

/-- The counts that the report of a new assembler shows. -/
def spaceCounts (kernel : CompiledKernel α) (bases : KernelBases α) : SpaceCounts :=
  let count (l : List (KnotVector α)) : Nat := (layoutOf kernel l).functions.toNat
  match bases with
  | .shared l => .shared (count l)
  | .separate trial test => .separate (count test) (count trial)

/-- **Sets up an assembler** for a kernel, which must be present. -/
def make [Circular α] [ScalarText α] (kernel : Option (CompiledKernel α))
    (bases : KernelBases α) (geometry : GeometryMap α) : Outcome (FormAssembler α) := do
  match kernel with
  | none => throw (.assembly .nullKernel)
  | some k =>
    Assembler.checkSpaces (layoutOf k bases.test) (layoutOf k bases.trial) (isSymmetric k bases)
    let data ← k.prepare bases geometry
    Outcome.report (.assemblerReady k.form.dim k.name (spaceCounts k bases) k.form.components
      data.quadrature.nodes)
    pure ⟨k, bases, data⟩

/-- Sets up an assembler for the form that a specification describes. -/
def ofSpec [Circular α] [ScalarText α] [DecidableEq α] (dim : Nat) (spec : FormSpec α)
    (bases : KernelBases α) (geometry : GeometryMap α) : Outcome (FormAssembler α) := do
  let kernel ← CompiledKernel.emitSpec dim spec
  make (some kernel) bases geometry

/-- **Gives an input field new values.** A copy of the data is changed in place, and takes their place if
nothing has failed. -/
def updateInput (name : String) (function : Option (InputFunction α)) :
    InPlace (FormAssembler α) Unit := do
  let f ← get
  let (result, copy) := (f.kernel.updateInput name function).run.run f.data
  result
  set { f with data := copy }

end FormAssembler

end Galerkin
