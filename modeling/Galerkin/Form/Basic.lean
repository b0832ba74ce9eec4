import Galerkin.Expr.Build
import Galerkin.Tape.Program

/-! # Variational forms

A form says what is added up at every quadrature point: for a pair of basis functions if it is
bilinear, for one if it is linear. It reads *fields*, whose values come from the geometry, from other
fields, or from a given function.

* **`FieldDefinition`**, **`FieldVariable`** — fields;
* **`Accumulation`** — an output slot and the expression that is added to it;
* **`Form`** — fields, accumulations and requirements. -/

namespace Galerkin

variable {α : Type}

/-! ## (1) Fields -/

/-- The number of basis functions a form has as arguments: a test function, or also a trial
function. -/
inductive Arity where
  | linear
  | bilinear
  deriving Repr, DecidableEq, Inhabited

/-- The number of arguments. -/
def Arity.number : Arity → Nat
  | linear => 1
  | bilinear => 2

/-- The fields that follow from the Jacobian of the geometry map. -/
inductive BuiltinField where
  /-- The quadrature weight times the absolute value of the determinant. -/
  | weight
  /-- The transposed inverse. -/
  | inverseTransposed
  deriving Repr, DecidableEq, Inhabited

/-- A function of the physical point, which may fail at some points. -/
abbrev InputFunction (α : Type) := List α → Except Error α

/-- **Where the values of a field come from.** Definitions that a form builder accepts have their
expression or function. -/
inductive FieldDefinition (α : Type) where
  /-- From the geometry. -/
  | builtin (which : BuiltinField)
  /-- From fields that are registered earlier, once for every node of the grid. -/
  | precomputed (expression : Operand α)
  /-- From a function of the physical point. -/
  | input (function : Option (InputFunction α))
  /-- From an expression, anew for every entry; these fields are called local. -/
  | perEntry (expression : Operand α)

/-- The name of the kind of a definition. -/
def FieldDefinition.sourceName : FieldDefinition α → String
  | builtin _ => "builtin"
  | precomputed _ => "precomputed"
  | input _ => "input"
  | perEntry _ => "local"

/-- The expression of a definition, if it has one. -/
def FieldDefinition.expression : FieldDefinition α → Operand α
  | precomputed e => e
  | perEntry e => e
  | _ => none

/-- **A field of a form.** Its number is its position among the fields. -/
structure FieldVariable (α : Type) where
  id : Nat
  name : String
  shape : Shape
  symmetric : Bool
  definition : FieldDefinition α

namespace FieldVariable

/-- Whether the field is kept as an array over the grid, as all but local fields are. -/
def isArray (f : FieldVariable α) : Bool :=
  match f.definition with
  | .perEntry _ => false
  | _ => true

/-- The number of components kept for each node: a symmetric matrix keeps its upper triangle. -/
def storageSize (f : FieldVariable α) : Nat :=
  if f.symmetric then symmetricStorageSize f.shape.rows else f.shape.size

/-- Where entry `(i, j)` is kept. -/
def backingIndex (f : FieldVariable α) (i j : Nat) : Nat :=
  if f.symmetric then symmetricIndex i j f.shape.rows else i * f.shape.cols + j

end FieldVariable

/-! ## (2) Forms -/

/-- What has to be computed before a form can be evaluated. -/
structure FormRequirements where
  basisValue : Bool := false
  parametricGradient : Bool := false
  physicalGradient : Bool := false
  weight : Bool := false
  /-- The Jacobian, its determinant or its inverse. -/
  jacobian : Bool := false
  /-- The highest derivative order on any axis, without a bound. Orders are 32-bit integers, and those of a
  gradient are sums of two, so they agree with these as long as the sums are below `2 ^ 31`. -/
  maxDeriv : Nat := 0
  deriving Repr, DecidableEq, Inhabited

/-- Raises the highest derivative order to the largest of some orders. -/
def FormRequirements.note (r : FormRequirements) (orders : List Nat) : FormRequirements :=
  { r with maxDeriv := orders.foldl max r.maxDeriv }

/-- An output slot and the expression that is added to it. A form builder accepts slots of the form
and expressions that are present only. -/
structure Accumulation (α : Type) where
  slot : Int
  expression : Operand α

/-- **A form.** -/
structure Form (α : Type) where
  name : String
  dim : Nat
  arity : Arity
  components : Nat
  symmetric : Bool
  fields : List (FieldVariable α)
  accumulations : List (Accumulation α)
  requirements : FormRequirements

/-- The number of results for each entry: one for each pair of components, or for each component. The product
has no bound here; it is a 32-bit integer as long as it is below `2 ^ 31`. -/
def outputSlotCount (arity : Arity) (components : Nat) : Nat :=
  match arity with
  | .bilinear => components * components
  | .linear => components

namespace Form

/-- The number of results for each entry. -/
def outputSlots (form : Form α) : Nat := outputSlotCount form.arity form.components

/-- The number of a field, if there is a field of that name. -/
def findField? (form : Form α) (name : String) : Option Nat :=
  (form.fields.find? (·.name == name)).map (·.id)

/-- The field of a name. -/
def field (form : Form α) (name : String) : Except Error (FieldVariable α) :=
  match form.fields.find? (·.name == name) with
  | some f => .ok f
  | none => .error (.form (.noField form.name name))

/-! ## (3) Changing a form -/

/-- The form with another definition of a field. Nothing else about the field changes. -/
def redefine (form : Form α) (name : String) (definition : FieldDefinition α) :
    Except Error (Form α) := do
  let f ← form.field name
  pure { form with fields := form.fields.map fun g =>
    if g.id == f.id then { g with definition } else g }

/-- The form with one more scalar field that samples a function. -/
def appendInput (form : Form α) (name : String) (function : Option (InputFunction α)) : Form α :=
  { form with
    fields := form.fields ++ [⟨form.fields.length, name, .scalar, false, .input function⟩] }

/-- The form with one more accumulation, which is not checked. -/
def appendAccumulation (form : Form α) (slot : Int) (expression : Operand α) : Form α :=
  { form with accumulations := form.accumulations ++ [⟨slot, expression⟩] }

/-- The form without its requirement of the Jacobian. -/
def withoutJacobian (form : Form α) : Form α :=
  { form with requirements := { form.requirements with jacobian := false } }

end Form

end Galerkin
