import Galerkin.Basis.Derivatives
import Galerkin.Form.Lowering
import Galerkin.Form.Standard
import Galerkin.Quadrature.Composite

/-! # Compiled kernels

A kernel is a form with its program and the programs of its precomputed fields. The data a kernel
reads are kept apart from it: the same kernel serves any bases and geometry of its dimension.

* **`CompiledKernel`** — form and programs;
* **`CompiledKernel.emit`** — compiles a form;
* **`AxisTables`**, **`KernelData`** — what a kernel reads. -/

namespace Galerkin

variable {α : Type}

/-! ## (1) Kernels -/

/-- **A form with its programs.** Each precomputed field is given by its number. -/
structure CompiledKernel (α : Type) where
  form : Form α
  program : Program α
  fieldPrograms : List (Nat × Program α)

namespace CompiledKernel

/-- The highest derivative order that is supported on an axis. -/
def maxDerivOrder : Nat := 4

/-- The programs of the precomputed fields of a form. -/
def precomputedPrograms [Scalar α] [DecidableEq α] (form : Form α) :
    Except Error (List (Nat × Program α)) :=
  form.fields.filterMapM fun f =>
    match f.definition with
    | .precomputed _ => do return some (f.id, ← lowerField form f)
    | _ => pure none

/-- **Compiles a form** for its dimension. -/
def emit [Scalar α] [DecidableEq α] (dim : Nat) (form : Form α) :
    Except Error (CompiledKernel α) := do
  require (form.dim == dim) (.kernel (.formDimension dim form.name form.dim))
  let order := form.requirements.maxDeriv
  require (decide (order ≤ maxDerivOrder))
    (.kernel (.derivativeOrder form.name order maxDerivOrder))
  let program ← lowerForm form
  pure ⟨form, program, ← precomputedPrograms form⟩

/-- Compiles the form that a specification describes in dimension `dim`. -/
def emitSpec [Scalar α] [DecidableEq α] (dim : Nat) (spec : FormSpec α) :
    Except Error (CompiledKernel α) := do
  emit dim (← spec.build dim)

/-- The name of the form. -/
def name (k : CompiledKernel α) : String := k.form.name

end CompiledKernel

/-! ## (2) Data of a kernel -/

/-- The basis functions on one axis: their supports, and their derivatives at the grid nodes. -/
structure AxisTables (α : Type) where
  support : Array Interval
  table : DerivativeTable α

namespace AxisTables

/-- The number of basis functions. -/
def dofs (t : AxisTables α) : Nat := t.support.size

/-- The support of a basis function. -/
def supportOf (t : AxisTables α) (i : Nat) : Interval := t.support.getD i ⟨0, 0⟩

end AxisTables

/-- **What a kernel reads.** `fields` holds the array of every field by its number; local fields have
none. `points` holds the physical points of the grid if some field samples a function. -/
structure KernelData (α : Type) where
  trial : List (AxisTables α)
  test : List (AxisTables α)
  pointsPerElement : Nat
  quadrature : TensorQuadrature α
  fields : Array (GridArray α)
  points : GridArray α

namespace KernelData

/-- Data before preparation. -/
def uninitialized : KernelData α := ⟨[], [], 0, ⟨[]⟩, #[], GridArray.empty⟩

/-- The array of a field. -/
def fieldArray (d : KernelData α) (id : Nat) : GridArray α := d.fields.getD id GridArray.empty

/-- The data with another array for a field. -/
def setField (d : KernelData α) (id : Nat) (values : GridArray α) : KernelData α :=
  { d with fields := d.fields.setIfInBounds id values }

end KernelData

end Galerkin
