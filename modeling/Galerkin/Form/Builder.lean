import Galerkin.Form.Basic

/-! # Building forms

A form builder registers fields, hands out expressions for fields and basis functions, and collects
accumulations. What is asked for leaves its mark on the requirements of the form.

* **`FormBuilder`** — what is registered so far;
* **`Building`** — steps on a builder; a step that fails keeps the changes made before it failed;
* **`FormBuilder.register`** — the checks on a new field;
* **`FormBuilder.finalize`** — the form. -/

namespace Galerkin

variable {α : Type}

/-- The fields, accumulations and requirements registered so far. -/
structure FormBuilder (α : Type) where
  name : String
  dim : Nat
  arity : Arity
  components : Nat
  symmetric : Bool
  fields : List (FieldVariable α) := []
  accumulations : List (Accumulation α) := []
  requirements : FormRequirements := {}

/-- **Steps on a form builder.** A failure does not undo the changes made before it. -/
abbrev Building (α β : Type) := InPlace (FormBuilder α) β

namespace FormBuilder

/-- A builder for a form of positive dimension with at least one component. -/
def make (name : String) (dim : Int) (arity : Arity) (components : Int) (symmetric : Bool) :
    Except Error (FormBuilder α) := do
  require (decide (1 ≤ dim)) (.form .dimension)
  require (decide (1 ≤ components)) (.form .components)
  pure { name, dim := dim.toNat, arity, components := components.toNat, symmetric }

/-- The number of results for each entry. -/
def outputSlots (b : FormBuilder α) : Nat := outputSlotCount b.arity b.components

/-- The field of a name, if there is one. -/
def find? (b : FormBuilder α) (name : String) : Option (FieldVariable α) :=
  b.fields.find? (·.name == name)

/-- Whether a field of that name is registered. -/
def hasField (b : FormBuilder α) (name : String) : Bool := (b.find? name).isSome

/-! ## (1) Checks -/

/-- The basis function must be known, and a linear form has no trial function. -/
def checkBasis (b : FormBuilder α) (basis : String) : Except Error Unit := do
  if basis = BasisRole.test.name then pure ()
  else if basis = BasisRole.trial.name then
    require (b.arity == .bilinear) (.form (.trialInLinear b.name))
  else throw (.form (.unknownBasis basis))

/-- A node of a definition or an accumulation refers to registered fields and to basis functions of
the form only; with `arraysOnly` neither local fields nor basis functions are allowed. -/
def checkNode (b : FormBuilder α) (arraysOnly : Bool) : Expr α → Except Error Unit
  | .field name _ _ =>
    match b.find? name with
    | none => throw (.form (.unregistered name))
    | some f => require (!arraysOnly || f.isArray) (.form (.precomputedLocal name))
  | .deriv basis orders => do
    require (!arraysOnly) (.form (.precomputedBasis basis))
    b.checkBasis basis
    require (orders.length == b.dim) (.form (.tupleLength orders.length b.dim))
  | _ => pure ()

/-- All nodes of an expression are checked, parents first. -/
def checkReferences (b : FormBuilder α) (arraysOnly : Bool) (e : Expr α) : Except Error Unit :=
  e.nodes.forM (b.checkNode arraysOnly)

/-- The expression that defines a field must be present, of the declared shape, and refer to what is
registered. -/
def checkExpression (b : FormBuilder α) (name : String) (shape : Shape) (arraysOnly : Bool)
    (definition : Operand α) : Except Error Unit := do
  match definition with
  | none => throw (.form (.emptyDefinition name))
  | some e =>
    require (e.shape == shape) (.form (.definitionShape name e.shape shape))
    b.checkReferences arraysOnly e

/-- The conditions on the definition of a new field. -/
def checkDefinition (b : FormBuilder α) (name : String) (shape : Shape) :
    FieldDefinition α → Except Error Unit
  | .builtin _ => pure ()
  | .precomputed e => b.checkExpression name shape true e
  | .perEntry e => b.checkExpression name shape false e
  | .input function => do
    require function.isSome (.form (.inputFunction name))
    require shape.isScalar (.form (.inputShape name))

/-- Whether a request repeats the one that registered a field: both for the same geometry field. -/
def repeats (f : FieldVariable α) (shape : Shape) (symmetric : Bool) :
    FieldDefinition α → Bool
  | .builtin which =>
    match f.definition with
    | .builtin other => other == which && f.shape == shape && f.symmetric == symmetric
    | _ => false
  | _ => false

/-- What a definition requires: every geometry field needs the Jacobian. -/
def noteDefinition (r : FormRequirements) : FieldDefinition α → FormRequirements
  | .builtin which => { r with jacobian := true, weight := r.weight || which == .weight }
  | _ => r

/-! ## (2) Fields -/

/-- The expression that stands for a field. -/
def reference (f : FieldVariable α) : Except Error (Expr α) :=
  Expr.ofField f.name f.shape f.symmetric

/-- **Registers a field.** Its name must be new and no name of a basis function; only the request for
a geometry field can be repeated. -/
def register (name : String) (shape : Shape) (symmetric : Bool) (definition : FieldDefinition α) :
    Building α (Expr α) := do
  require (!name.isEmpty) (.form .emptyName)
  require (name != BasisRole.trial.name && name != BasisRole.test.name) (.form (.reservedName name))
  let b ← get
  match b.find? name with
  | some f =>
    require (repeats f shape symmetric definition) (.form (.duplicateName name b.name))
    reference f
  | none =>
    b.checkDefinition name shape definition
    let f : FieldVariable α := ⟨b.fields.length, name, shape, symmetric, definition⟩
    set { b with
      fields := b.fields ++ [f], requirements := noteDefinition b.requirements definition }
    reference f

/-- Registers a scalar field. -/
def registerScalar (name : String) (definition : FieldDefinition α) : Building α (Expr α) :=
  register name .scalar false definition

/-- Registers a vector field with at least one component. -/
def registerVector (name : String) (size : Nat) (definition : FieldDefinition α) :
    Building α (Expr α) := do
  require (decide (1 ≤ size)) (.form .emptyVector)
  register name (.vector size) false definition

/-- Registers a matrix field that is not empty, and square if it is symmetric. -/
def registerMatrix (name : String) (rows cols : Nat) (symmetric : Bool)
    (definition : FieldDefinition α) : Building α (Expr α) := do
  require (decide (1 ≤ rows) && decide (1 ≤ cols)) (.form .emptyMatrix)
  require (!symmetric || rows == cols) (.form (.matrixNotSquare name))
  register name (.matrix rows cols) symmetric definition

/-- **Registers a field that is computed once over the whole grid** from fields registered before. -/
def precompute (name : String) (definition : Operand α) (symmetric : Bool) :
    Building α (Expr α) := do
  let shape := (← definition.look).shape
  if shape.isMatrix then
    registerMatrix name shape.rows shape.cols symmetric (.precomputed definition)
  else
    require (!symmetric) (.form (.precomputeSymmetric name))
    if shape.isVector then registerVector name shape.rows (.precomputed definition)
    else registerScalar name (.precomputed definition)

/-- Registers a scalar field that samples a function at the physical points. -/
def inputFunction (name : String) (function : Option (InputFunction α)) : Building α (Expr α) :=
  registerScalar name (.input function)

/-- Registers a local field. -/
def defineLocal (name : String) (definition : Operand α) : Building α (Expr α) := do
  let shape := (← definition.look).shape
  register name shape false (.perEntry definition)

/-- The field of a name. -/
def field (b : FormBuilder α) (name : String) : Except Error (Expr α) :=
  match b.find? name with
  | some f => reference f
  | none => .error (.form (.unknownName name b.name))

/-- The quadrature weight times the absolute value of the Jacobian determinant. -/
def quadratureWeight : Building α (Expr α) := registerScalar "weight" (.builtin .weight)

/-- The transposed inverse of the Jacobian. -/
def inverseTransposed : Building α (Expr α) := do
  let d := (← get).dim
  registerMatrix "JacInvT" d d false (.builtin .inverseTransposed)

/-! ## (3) Basis functions -/

/-- Changes the requirements. -/
def note (change : FormRequirements → FormRequirements) : Building α Unit :=
  modify fun b => { b with requirements := change b.requirements }

/-- The orders of the first derivative along an axis; a negative one counts from the end. -/
def unitOrder (dim : Nat) (axis : Int) : Except Error (List Nat) := do
  let a := if axis < 0 then axis + dim else axis
  require (decide (0 ≤ a) && decide (a < dim)) (.form (.axisRange axis dim))
  pure ((List.range dim).map fun (k : Nat) => if (k : Int) = a then 1 else 0)

/-- A basis function itself. -/
def basisValue (basis : String) : Building α (Expr α) := do
  let b ← get
  b.checkBasis basis
  note fun r => { r with basisValue := true }
  Expr.ofDeriv basis (List.replicate b.dim 0)

/-- A partial derivative of a basis function. -/
def partialDeriv (basis : String) (orders : List Int) : Building α (Expr α) := do
  let b ← get
  b.checkBasis basis
  require (orders.length == b.dim) (.form (.derivativeLength orders.length b.dim))
  note fun r => r.note (orders.map Int.toNat)
  Expr.ofDeriv basis orders

/-- The derivative along one axis, with additional orders. -/
def gradientComponent (basis : String) (dim : Nat) (extra : List Int) (axis : Int) :
    Building α (Operand α) := do
  let unit ← unitOrder dim axis
  require (extra.all fun d => decide (0 ≤ d)) (.form .negativeExtra)
  let orders :=
    if extra.isEmpty then unit else List.zipWith (fun (n : Nat) (d : Int) => n + d.toNat) unit extra
  note fun r => r.note orders
  pure (some (← Expr.ofDeriv basis (orders.map Int.ofNat)))

/-- **The parametric gradient** along the given axes, or all if none is given, with additional
derivative orders for each component. -/
def gradient (basis : String) (axes : List Int) (extra : List Int) : Building α (Expr α) := do
  let b ← get
  b.checkBasis basis
  require (extra.isEmpty || extra.length == b.dim) (.form .extraLength)
  note fun r => { r with parametricGradient := true, maxDeriv := max r.maxDeriv 1 }
  let which := if axes.isEmpty then (List.range b.dim).map Int.ofNat else axes
  Expr.ofVector (← which.mapM (gradientComponent basis b.dim extra))

/-- **The physical gradient:** the transposed inverse Jacobian times the parametric gradient. -/
def physicalGradient (basis : String) (extra : List Int) : Building α (Expr α) := do
  let jacobian ← inverseTransposed
  let g ← gradient basis [] extra
  note fun r => { r with physicalGradient := true }
  Operand.matmul (some jacobian) (some g)

/-! ## (4) Accumulations and the finished form -/

/-- **Adds an expression to an output slot** at every quadrature point. -/
def addToSlot (slot : Int) (expression : Operand α) : Building α Unit := do
  let b ← get
  match expression with
  | none => throw (.form .emptyAccumulation)
  | some e =>
    require e.shape.isScalar (.form (.accumulationShape e.shape))
    checkIndex .formSlot slot b.outputSlots
    b.checkReferences false e
    let accumulation : Accumulation α := ⟨slot, expression⟩
    set { b with accumulations := b.accumulations ++ [accumulation] }

/-- Adds an expression to the first output slot. -/
def add (expression : Operand α) : Building α Unit := addToSlot 0 expression

/-- The highest derivative order in an operand, at least `start`. -/
def highestOrder (start : Nat) : Operand α → Nat
  | some e => e.maxOrder start
  | none => start

/-- The expressions of a form that derivatives can occur in. -/
def scanned (b : FormBuilder α) : List (Operand α) :=
  b.accumulations.map (·.expression) ++ b.fields.filterMap fun f =>
    match f.definition with
    | .perEntry e => some e
    | _ => none

/-- **The form.** Its highest derivative order is that of all requests and of all expressions. -/
def finalize (b : FormBuilder α) : Except Error (Form α) := do
  require (!b.accumulations.isEmpty) (.form (.nothingAccumulated b.name))
  pure {
    name := b.name, dim := b.dim, arity := b.arity, components := b.components
    symmetric := b.symmetric, fields := b.fields, accumulations := b.accumulations
    requirements := { b.requirements with
      maxDeriv := b.scanned.foldl highestOrder b.requirements.maxDeriv } }

end FormBuilder

end Galerkin
