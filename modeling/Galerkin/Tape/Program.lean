import Galerkin.Scalar

/-! # Instruction tapes

A program is a list of scalar instructions. Instruction `i` writes register `i` and reads registers
below `i` only, so one sweep over the list evaluates it. Afterwards some registers are added to the
accumulators of the output slots.

* **`Instr`** — an instruction;
* **`Program`** — instructions with the basis derivatives and fields they read, and the outputs;
* **`Program.registers`**, **`Program.evaluate`** — the sweep;
* **`Program.listing`** — one line per instruction and output. -/

namespace Galerkin

variable {α : Type}

/-! ## (1) Programs -/

/-- The two sets of basis functions that a kernel reads. -/
inductive BasisRole where
  | trial
  | test
  deriving Repr, DecidableEq, Inhabited

/-- The name that basis functions of a role have in forms and listings. -/
def BasisRole.name : BasisRole → String
  | trial => "u"
  | test => "v"

/-- One partial derivative of one basis function, with one order per axis. The orders of a load that
comes from an expression are not negative. -/
structure BasisLoad where
  role : BasisRole
  orders : List Int
  deriving Repr, DecidableEq, Inhabited

/-- A constant of a program. A value that is not a number is `indefinite` if an operation without a
result made it; literals and their descendants are not. The mark keeps the two kinds of such values
apart, for they are written alike. -/
structure Constant (α : Type) where
  value : α
  indefinite : Bool := false
  deriving Repr, DecidableEq, Inhabited

/-- **An instruction.** -/
inductive Instr (α : Type) where
  /-- A constant. -/
  | const (constant : Constant α)
  /-- The basis derivative in a slot. -/
  | loadBasis (slot : Nat)
  /-- A stored component of the field in a slot. -/
  | loadField (slot component : Nat)
  /-- An operation on two registers. -/
  | arith (op : ArithOp) (lhs rhs : Nat)
  deriving Repr, DecidableEq, Inhabited

/-- **A program.** `loads` and `fields` say what the slots of the load instructions stand for; fields
are given by their numbers. An output is a slot with the register that is added to it. -/
structure Program (α : Type) where
  slots : Nat
  code : Array (Instr α)
  loads : List BasisLoad
  fields : List Nat
  outputs : List (Nat × Nat)
  deriving Repr, DecidableEq, Inhabited

namespace Program

/-! ## (2) Evaluation -/

/-- The value of an instruction, from the basis values by slot, the field components by slot, and the
registers written before. -/
@[inline] def step [Scalar α] (basis : Nat → α) (fields : Nat → Nat → α) (registers : Array α) :
    Instr α → α
  | .const c => c.value
  | .loadBasis slot => basis slot
  | .loadField slot component => fields slot component
  | .arith op lhs rhs =>
    op.apply (registers.getD lhs Scalar.zero) (registers.getD rhs Scalar.zero)

/-- **The registers after a sweep.** -/
@[specialize] def registers [Scalar α] (p : Program α) (basis : Nat → α)
    (fields : Nat → Nat → α) : Array α :=
  p.code.foldl (fun registers instr => registers.push (step basis fields registers instr)) #[]

/-- Adds a value to one accumulator. -/
@[inline] def addAt [Add α] (accumulators : Array α) (slot : Nat) (value : α) : Array α :=
  accumulators.modify slot fun x => x + value

/-- **Evaluates the program once:** adds the output registers to the accumulators, in order. -/
@[specialize] def evaluate [Scalar α] (p : Program α) (basis : Nat → α) (fields : Nat → Nat → α)
    (accumulators : Array α) : Array α :=
  let registers := p.registers basis fields
  p.outputs.foldl
    (fun sums (slot, register) => addAt sums slot (registers.getD register Scalar.zero))
    accumulators

/-! ## (3) Listing -/

/-- The written form of an instruction. -/
def instrText [ScalarText α] (p : Program α) : Instr α → String
  | .const c => ScalarText.brief c.value
  | .loadBasis slot =>
    match p.loads[slot]? with
    | some load => load.role.name ++ "[" ++ ",".intercalate (load.orders.map toString) ++ "]"
    | none => ""
  | .loadField slot component => s!"field{p.fields.getD slot 0}[{component}]"
  | .arith op lhs rhs => s!"r{lhs} " ++ op.symbol ++ s!" r{rhs}"

/-- **The listing:** the instructions by register, then the outputs. -/
def listing [ScalarText α] (p : Program α) : String :=
  let lines := p.code.toList.zipIdx.map fun (instr, i) => s!"r{i} = " ++ p.instrText instr ++ "\n"
  let ends := p.outputs.map fun (slot, register) => s!"out[{slot}] += r{register}\n"
  String.join lines ++ String.join ends

/-- A sweep writes one register for each instruction. -/
theorem size_registers [Scalar α] (p : Program α) (basis : Nat → α) (fields : Nat → Nat → α) :
    (p.registers basis fields).size = p.code.size := by
  unfold registers
  refine Array.foldl_induction (fun i (r : Array α) => r.size = i) rfl ?_
  intro i r h
  simp [h]

end Program

end Galerkin
