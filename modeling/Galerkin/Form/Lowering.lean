import Galerkin.Form.Basic
import Galerkin.Tape.Builder

/-! # Lowering expressions to programs

An expression becomes one register for each component of its value, row by row. A local field is
lowered where it is first referred to, and its registers are used again after that.

* **`LoweringTarget`** — a kernel, which sees basis functions, or a grid, which sees arrays only;
* **`lower`** — the registers of an expression;
* **`fieldRegisters`** — the registers of a field;
* **`lowerForm`**, **`lowerField`** — the programs of a form and of a precomputed field. -/

namespace Galerkin

variable {α : Type}

/-! ## (1) Expressions -/

/-- What a program is for. -/
inductive LoweringTarget where
  /-- A pair of basis functions at a quadrature point. -/
  | kernel
  /-- A node of the grid, before any basis function is looked at. -/
  | grid
  deriving Repr, DecidableEq, Inhabited

/-- The builder, and the registers of the local fields lowered so far by field number. -/
structure LoweringState (α : Type) where
  builder : ProgramBuilder α
  locals : List (Nat × List Nat) := []

/-- Steps of a lowering. -/
abbrev LoweringM (α β : Type) := StateT (LoweringState α) (Except Error) β

/-- The registers of a field, by name. -/
abbrev FieldLookup (α : Type) := String → LoweringM α (List Nat)

variable [Scalar α] [DecidableEq α]

/-- Adds one instruction with a step that cannot fail. -/
def emitWith (step : ProgramBuilder α → Nat × ProgramBuilder α) : LoweringM α Nat := do
  let s ← get
  let (register, builder) := step s.builder
  set { s with builder }
  pure register

/-- Adds one instruction with a step that can fail. -/
def tryEmit (step : ProgramBuilder α → Except Error (Nat × ProgramBuilder α)) :
    LoweringM α Nat := do
  let s ← get
  let (register, builder) ← step s.builder
  set { s with builder }
  pure register

/-- An operation on two registers. -/
def emitArith (op : ArithOp) (lhs rhs : Nat) : LoweringM α Nat :=
  tryEmit fun b => b.arith op lhs rhs

/-- The register of a component. Every component of a well-shaped expression has one. -/
def registerAt (registers : List Nat) (k : Nat) : Except Error Nat :=
  match registers[k]? with
  | some register => .ok register
  | none => .error (.tape .missingRegister)

/-- The role of a basis function in a form. -/
def basisRole (form : Form α) (basis : String) : Except Error BasisRole := do
  if basis = BasisRole.trial.name then
    require (form.arity == .bilinear) (.tape (.trialInLinear form.name))
    pure .trial
  else if basis = BasisRole.test.name then pure .test
  else throw (.tape (.unknownBasis basis))

/-- The register of a derivative of a basis function. -/
def lowerDeriv (form : Form α) (target : LoweringTarget) (basis : String) (orders : List Nat) :
    LoweringM α Nat := do
  require (target == .kernel) (.tape (.basisOnGrid basis))
  let role ← basisRole form basis
  emitWith fun b => b.loadBasis ⟨role, orders.map Int.ofNat⟩

/-- The product of entry `(r, c)` of a matrix with `cols` columns and component `c` of a vector. -/
def lowerTerm (matrix vector : List Nat) (cols r c : Nat) : LoweringM α Nat := do
  emitArith .mul (← registerAt matrix (r * cols + c)) (← registerAt vector c)

/-- Row `r` of a matrix times a vector: the sum of the terms from left to right. -/
def lowerRow (matrix vector : List Nat) (cols r : Nat) : LoweringM α Nat := do
  let first ← lowerTerm matrix vector cols r 0
  (List.range' 1 (cols - 1)).foldlM
    (fun sum c => do emitArith .add sum (← lowerTerm matrix vector cols r c)) first

mutual

/-- **The registers of the components of an expression.** -/
def lower (form : Form α) (target : LoweringTarget) (fields : FieldLookup α) :
    Expr α → LoweringM α (List Nat)
  | .const value => do return [← emitWith fun b => b.constant ⟨value, false⟩]
  | .field name _ _ => fields name
  | .binary op lhs rhs => do
    let xs ← lower form target fields lhs
    let ys ← lower form target fields rhs
    xs.zipIdx.mapM fun (x, k) => do emitArith op x (← registerAt ys k)
  | .index vector position => do
    let v ← lower form target fields vector
    return [← registerAt v position]
  | .entry matrix row col => do
    let m ← lower form target fields matrix
    return [← registerAt m (row * matrix.shape.cols + col)]
  | .slice vector positions => do
    let v ← lower form target fields vector
    positions.mapM fun k => registerAt v k
  | .matmul matrix vector => do
    let m ← lower form target fields matrix
    let x ← lower form target fields vector
    (List.range matrix.shape.rows).mapM fun r => lowerRow m x matrix.shape.cols r
  | .deriv basis orders => do return [← lowerDeriv form target basis orders]
  | .compose _ components => lowerFirsts form target fields components

/-- The first registers of some expressions. -/
def lowerFirsts (form : Form α) (target : LoweringTarget) (fields : FieldLookup α) :
    List (Expr α) → LoweringM α (List Nat)
  | [] => pure []
  | e :: es => do
    let registers ← lower form target fields e
    let first ← registerAt registers 0
    return first :: (← lowerFirsts form target fields es)

end

/-- The registers of an operand, which must be present. -/
def lowerOperand (form : Form α) (target : LoweringTarget) (fields : FieldLookup α) :
    Operand α → LoweringM α (List Nat)
  | some e => lower form target fields e
  | none => throw (.tape .emptyExpression)

/-! ## (2) Fields -/

/-- **The registers of a field.** The definition of a local field may refer to other local fields,
which were registered before it; `depth` bounds how long such a chain can be, and a form has no
longer chain than it has fields. -/
def fieldRegisters (form : Form α) (target : LoweringTarget) : (depth : Nat) → FieldLookup α
  | 0, name => throw (.tape (.circularLocal name))
  | depth + 1, name => do
    let f ← form.field name
    if f.isArray then
      f.shape.positions.mapM fun (i, j) =>
        tryEmit fun b => b.loadField f.id (f.backingIndex i j)
    else
      require (target == .kernel) (.tape (.localOnGrid name))
      match (← get).locals.find? (·.1 == f.id) with
      | some (_, registers) => pure registers
      | none =>
        let registers ←
          lowerOperand form target (fieldRegisters form target depth) f.definition.expression
        modify fun s => { s with locals := (f.id, registers) :: s.locals }
        pure registers

/-- The registers of an operand of a form. -/
def lowerIn (form : Form α) (target : LoweringTarget) (operand : Operand α) :
    LoweringM α (List Nat) :=
  lowerOperand form target (fieldRegisters form target (form.fields.length + 1)) operand

/-- Adds a register to an output slot. -/
def emitOutput (slot : Int) (register : Nat) : LoweringM α Unit := do
  let s ← get
  set { s with builder := ← s.builder.accumulate slot register }

/-- The program that some steps build. -/
def programOf (slots : Int) (steps : LoweringM α Unit) : Except Error (Program α) := do
  let builder ← ProgramBuilder.make slots
  let ((), s) ← steps.run { builder }
  pure s.builder.finish

/-! ## (3) Programs -/

/-- Lowers the expression of an accumulation and adds its value to the slot. -/
def lowerAccumulation (form : Form α) (a : Accumulation α) : LoweringM α Unit := do
  let registers ← lowerIn form .kernel a.expression
  emitOutput a.slot (← registerAt registers 0)

/-- **The program of a form:** every accumulation adds to its slot, in order. -/
def lowerForm (form : Form α) : Except Error (Program α) :=
  programOf form.outputSlots (form.accumulations.forM (lowerAccumulation form))

/-- The entries of a field that are kept: of a symmetric matrix, those on and above the diagonal. -/
def keptPositions (f : FieldVariable α) : List (Nat × Nat) :=
  f.shape.positions.filter fun (i, j) => !f.symmetric || decide (i ≤ j)

/-- Adds entry `(i, j)` of the definition of a field to the slot it is kept in. -/
def emitKept (f : FieldVariable α) (registers : List Nat) (i j : Nat) : LoweringM α Unit := do
  emitOutput (f.backingIndex i j) (← registerAt registers (i * f.shape.cols + j))

/-- **The program of a precomputed field:** slot `k` receives stored component `k`. -/
def lowerField (form : Form α) (f : FieldVariable α) : Except Error (Program α) := do
  match f.definition with
  | .precomputed e =>
    programOf f.storageSize do
      let registers ← lowerIn form .grid e
      (keptPositions f).forM fun (i, j) => emitKept f registers i j
  | _ => throw (.tape (.notPrecomputed f.name))

end Galerkin
