import Galerkin.Error
import Galerkin.Tape.Program

/-! # Building programs

A builder collects instructions. It never holds the same instruction twice, carries out arithmetic on
constants at once, and drops what no output needs when the program is finished.

* **`ProgramBuilder`** — the instructions so far;
* **`ProgramBuilder.emit`** — the register of an instruction, an old one if there is one;
* **`ProgramBuilder.arith`** — an operation, folded if both operands are constants;
* **`ProgramBuilder.finish`** — the program without dead instructions, registers and slots renumbered
  without gaps. -/

namespace Galerkin

variable {α : Type}

/-- The instructions, slots and outputs collected so far. -/
structure ProgramBuilder (α : Type) where
  slots : Nat
  code : Array (Instr α) := #[]
  loads : List BasisLoad := []
  fields : List Nat := []
  outputs : List (Nat × Nat) := []
  deriving Repr, DecidableEq, Inhabited

namespace ProgramBuilder

/-! ## (1) Adding instructions -/

/-- A builder for a program with at least one output slot. -/
def make (slots : Int) : Except Error (ProgramBuilder α) := do
  require (decide (1 ≤ slots)) (.tape .noSlots)
  pure { slots := slots.toNat }

/-- The instruction with its operands in increasing order, where the order is immaterial. -/
def normalize : Instr α → Instr α
  | .arith op lhs rhs =>
    if op.commutes && decide (rhs < lhs) then .arith op rhs lhs else .arith op lhs rhs
  | instr => instr

/-- **The register of an instruction.** An instruction that is already there is not added again. -/
def emit [DecidableEq α] (b : ProgramBuilder α) (instr : Instr α) : Nat × ProgramBuilder α :=
  let instr := normalize instr
  match b.code.findIdx? (· == instr) with
  | some register => (register, b)
  | none => (b.code.size, { b with code := b.code.push instr })

/-- The position of a value in a list, and the list with the value added if it was not there. -/
def slotOf {β : Type} [DecidableEq β] (values : List β) (value : β) : Nat × List β :=
  match values.findIdx? (· == value) with
  | some slot => (slot, values)
  | none => (values.length, values ++ [value])

/-- The register of a constant. -/
def constant [DecidableEq α] (b : ProgramBuilder α) (c : Constant α) : Nat × ProgramBuilder α :=
  b.emit (.const c)

/-- The register of a basis derivative. -/
def loadBasis [DecidableEq α] (b : ProgramBuilder α) (load : BasisLoad) :
    Nat × ProgramBuilder α :=
  let (slot, loads) := slotOf b.loads load
  { b with loads }.emit (.loadBasis slot)

/-- The register of a stored component of a field. Neither number may be negative. -/
def loadField [DecidableEq α] (b : ProgramBuilder α) (field component : Int) :
    Except Error (Nat × ProgramBuilder α) := do
  require (decide (0 ≤ field) && decide (0 ≤ component)) (.tape .negativeField)
  let (slot, fields) := slotOf b.fields field.toNat
  pure ({ b with fields }.emit (.loadField slot component.toNat))

/-- **An operation on constants.** The result is indefinite if an indefinite operand causes it to be
no number, or if it has no other cause than the operation. -/
def fold [Scalar α] (op : ArithOp) (a b : Constant α) : Constant α :=
  let value := op.apply a.value b.value
  let cause :=
    if !Scalar.isNumber a.value then a.indefinite
    else if !Scalar.isNumber b.value then b.indefinite
    else true
  ⟨value, !Scalar.isNumber value && cause⟩

/-- **The register of an operation on two registers.** -/
def arith [Scalar α] [DecidableEq α] (b : ProgramBuilder α) (op : ArithOp) (lhs rhs : Nat) :
    Except Error (Nat × ProgramBuilder α) := do
  checkIndex .leftRegister lhs b.code.size
  checkIndex .rightRegister rhs b.code.size
  match b.code[lhs]?, b.code[rhs]? with
  | some (.const x), some (.const y) => pure (b.constant (fold op x y))
  | _, _ => pure (b.emit (.arith op lhs rhs))

/-- Adds a register to an output slot. -/
def accumulate (b : ProgramBuilder α) (slot : Int) (register : Nat) :
    Except Error (ProgramBuilder α) := do
  checkIndex .tapeSlot slot b.slots
  checkIndex .tapeRegister register b.code.size
  pure { b with outputs := b.outputs ++ [(slot.toNat, register)] }

/-! ## (2) Finishing -/

/-- Marks the operands of an instruction that is itself marked. -/
def markOperands (live : Array Bool) : Instr α × Nat → Array Bool
  | (.arith _ lhs rhs, i) =>
    if live.getD i false then (live.setIfInBounds lhs true).setIfInBounds rhs true else live
  | _ => live

/-- **The registers some output depends on.** One sweep from the last instruction to the first is
enough, since operands come before the instructions that read them. -/
def liveRegisters (b : ProgramBuilder α) : Array Bool :=
  let wanted := b.outputs.foldl (fun live (_, register) => live.setIfInBounds register true)
    (Array.replicate b.code.size false)
  b.code.toList.zipIdx.foldr (fun instr live => markOperands live instr) wanted

/-- The elements of a list that are marked. -/
def kept {β : Type} (marks : Array Bool) (values : List β) : List β :=
  (values.zipIdx.filter fun (_, i) => marks.getD i false).map Prod.fst

/-- For each position, the number of marked positions before it. -/
def ranks (marks : Array Bool) : Array Nat :=
  (marks.foldl (fun (ranks, count) mark => (ranks.push count, if mark then count + 1 else count))
    (#[], 0)).1

/-- Which of `count` slots the instructions read; `slot?` is the slot of an instruction. -/
def usedSlots (count : Nat) (slot? : Instr α → Option Nat) (code : List (Instr α)) : Array Bool :=
  code.foldl (fun used instr =>
    match slot? instr with
    | some slot => used.setIfInBounds slot true
    | none => used) (Array.replicate count false)

/-- The slot of an instruction that loads a basis derivative. -/
def basisSlot? : Instr α → Option Nat
  | .loadBasis slot => some slot
  | _ => none

/-- The slot of an instruction that loads a field component. -/
def fieldSlot? : Instr α → Option Nat
  | .loadField slot _ => some slot
  | _ => none

/-- An instruction with new numbers for basis slots, field slots and registers. -/
def renumber (basis fields registers : Array Nat) : Instr α → Instr α
  | .const c => .const c
  | .loadBasis slot => .loadBasis (basis.getD slot 0)
  | .loadField slot component => .loadField (fields.getD slot 0) component
  | .arith op lhs rhs => .arith op (registers.getD lhs 0) (registers.getD rhs 0)

/-- **The finished program:** the live instructions with the slots they read, numbered anew in their
old order. The builder is not used up. -/
def finish (b : ProgramBuilder α) : Program α :=
  let live := b.liveRegisters
  let code := kept live b.code.toList
  let usedLoads := usedSlots b.loads.length basisSlot? code
  let usedFields := usedSlots b.fields.length fieldSlot? code
  let registers := ranks live
  {
    slots := b.slots
    code := (code.map (renumber (ranks usedLoads) (ranks usedFields) registers)).toArray
    loads := kept usedLoads b.loads
    fields := kept usedFields b.fields
    outputs := b.outputs.map fun (slot, register) => (slot, registers.getD register 0) }

end ProgramBuilder

end Galerkin
