import Galerkin.Tape.Program
import Mathlib.Data.List.Basic

/-! # Register values of a sweep

A sweep writes each register once, and an instruction reads registers below its own. So the finished
register file satisfies one equation per instruction, whatever instructions come later.

* **`PointData`** — what a program reads at one point;
* **`Instr.ReadsBelow`** — the operands of an instruction are registers below a bound;
* **`Program.registers_getD`** — the equation of a register;
* **`Program.evaluateAt`** — evaluation at a point, and `getElem?_evaluateAt`, slot by slot. -/

namespace Galerkin

variable {α : Type}

/-- **What a program reads at one point:** the value of every basis derivative, and the stored
components of every field, by the number of the field. -/
structure PointData (α : Type) where
  basis : BasisLoad → α
  field : (id component : Nat) → α

namespace Instr

/-- The operands of an instruction are registers below `bound`. -/
def ReadsBelow (bound : Nat) : Instr α → Prop
  | .arith _ lhs rhs => lhs < bound ∧ rhs < bound
  | _ => True

end Instr

namespace Program

variable [Scalar α]

/-! ## (1) The equation of a register -/

/-- An instruction has the same value over register files that agree on its operands. -/
theorem step_congr (basis : Nat → α) (fields : Nat → Nat → α) {r r' : Array α} {n : Nat}
    {instr : Instr α} (hread : instr.ReadsBelow n)
    (h : ∀ j < n, r.getD j Scalar.zero = r'.getD j Scalar.zero) :
    step basis fields r instr = step basis fields r' instr := by
  cases instr with
  | arith op lhs rhs => simp only [step, h lhs hread.1, h rhs hread.2]
  | _ => rfl

/-- The register file after some more instructions. -/
def sweepFrom (basis : Nat → α) (fields : Nat → Nat → α) (r : Array α) (code : List (Instr α)) :
    Array α :=
  code.foldl (fun registers instr => registers.push (step basis fields registers instr)) r

/-- A sweep over an array of instructions is one over their list. -/
theorem registers_eq_sweepFrom (p : Program α) (basis : Nat → α) (fields : Nat → Nat → α) :
    p.registers basis fields = sweepFrom basis fields #[] p.code.toList := by
  rw [registers, sweepFrom, Array.foldl_toList]

/-- A register that is written is not changed by later instructions. -/
theorem getD_sweepFrom_lt (basis : Nat → α) (fields : Nat → Nat → α) (code : List (Instr α)) :
    ∀ (r : Array α) {j : Nat}, j < r.size →
      (sweepFrom basis fields r code).getD j Scalar.zero = r.getD j Scalar.zero := by
  induction code with
  | nil => intro r j _; rfl
  | cons instr code ih =>
    intro r j hj
    have hpush : j < (r.push (step basis fields r instr)).size := by
      rw [Array.size_push]; exact Nat.lt_succ_of_lt hj
    have h := ih (r.push (step basis fields r instr)) hpush
    simp only [sweepFrom, List.foldl_cons] at h ⊢
    rw [h]
    simp [Array.getElem?_push_lt hj, Array.getElem?_eq_getElem hj]

/-- A sweep writes one register per instruction. -/
theorem size_sweepFrom (basis : Nat → α) (fields : Nat → Nat → α) (code : List (Instr α)) :
    ∀ r : Array α, (sweepFrom basis fields r code).size = r.size + code.length := by
  induction code with
  | nil => intro r; rfl
  | cons instr code ih =>
    intro r
    have h := ih (r.push (step basis fields r instr))
    simp only [sweepFrom, List.foldl_cons, List.length_cons] at h ⊢
    rw [h, Array.size_push]
    omega

/-- **The equation of a register.** An instruction that reads registers below its own has, in the
finished register file, its value over that file. -/
theorem registers_getD (p : Program α) (basis : Nat → α) (fields : Nat → Nat → α) {i : Nat}
    {instr : Instr α} (hi : p.code[i]? = some instr) (hread : instr.ReadsBelow i) :
    (p.registers basis fields).getD i Scalar.zero =
      step basis fields (p.registers basis fields) instr := by
  rw [registers_eq_sweepFrom]
  have hlist : p.code.toList[i]? = some instr := by rw [Array.getElem?_toList, hi]
  have hlt : i < p.code.toList.length := (List.getElem?_eq_some_iff.mp hlist).1
  have hget : p.code.toList[i] = instr := (List.getElem?_eq_some_iff.mp hlist).2
  -- The file before instruction `i`, which the rest of the sweep only extends.
  set before := sweepFrom basis fields #[] (p.code.toList.take i) with hbefore
  have hsize : before.size = i := by
    rw [hbefore, size_sweepFrom, List.length_take]
    simp only [Array.size_empty]
    omega
  have hsplit : sweepFrom basis fields #[] p.code.toList =
      sweepFrom basis fields (before.push (step basis fields before instr))
        (p.code.toList.drop (i + 1)) := by
    conv_lhs => rw [← List.take_append_drop i p.code.toList, List.drop_eq_getElem_cons hlt, hget]
    simp only [sweepFrom, List.foldl_append, List.foldl_cons, hbefore]
  rw [hsplit]
  have hi' : i < (before.push (step basis fields before instr)).size := by
    rw [Array.size_push, hsize]; exact Nat.lt_succ_self i
  rw [getD_sweepFrom_lt _ _ _ _ hi']
  have hval : (before.push (step basis fields before instr)).getD i Scalar.zero =
      step basis fields before instr := by
    simp [← hsize]
  rw [hval]
  refine step_congr basis fields hread fun j hj => ?_
  have hj' : j < (before.push (step basis fields before instr)).size := by
    rw [Array.size_push, hsize]; exact Nat.lt_succ_of_lt hj
  rw [getD_sweepFrom_lt _ _ _ _ hj']
  have hjb : j < before.size := by rwa [hsize]
  simp [Array.getElem?_push_lt hjb, Array.getElem?_eq_getElem hjb]

/-! ## (2) Evaluation at a point -/

/-- The basis derivative that a slot of the program stands for. -/
def basisOf (p : Program α) (point : PointData α) (slot : Nat) : α :=
  point.basis (p.loads.getD slot default)

/-- The components of the field that a slot of the program stands for. -/
def fieldOf (p : Program α) (point : PointData α) (slot component : Nat) : α :=
  point.field (p.fields.getD slot 0) component

/-- The value of a register at a point. -/
def value (p : Program α) (point : PointData α) (i : Nat) : α :=
  (p.registers (p.basisOf point) (p.fieldOf point)).getD i Scalar.zero

/-- **Evaluation at a point:** the outputs of the program are added to the accumulators. -/
def evaluateAt (p : Program α) (point : PointData α) (sums : Array α) : Array α :=
  p.evaluate (p.basisOf point) (p.fieldOf point) sums

/-- Adds values to the accumulators of their slots, in order. -/
def addTerms (sums : Array α) (terms : List (Nat × α)) : Array α :=
  terms.foldl (fun sums t => addAt sums t.1 t.2) sums

/-- Evaluation adds register values to accumulators, in the order of the outputs. -/
theorem evaluateAt_eq_addTerms (p : Program α) (point : PointData α) (sums : Array α) :
    p.evaluateAt point sums = addTerms sums (p.outputs.map fun o => (o.1, p.value point o.2)) := by
  rw [addTerms, List.foldl_map]
  rfl

/-- Values added to accumulators leave their number as it is. -/
theorem size_addTerms (terms : List (Nat × α)) (sums : Array α) :
    (addTerms sums terms).size = sums.size := by
  induction terms generalizing sums with
  | nil => rfl
  | cons t terms ih =>
    have hrest := ih (addAt sums t.1 t.2)
    rw [addTerms, List.foldl_cons]
    rw [addTerms] at hrest
    rw [hrest]
    exact Array.size_modify

/-- Evaluation leaves the number of slots as it is. -/
theorem size_evaluateAt (p : Program α) (point : PointData α) (sums : Array α) :
    (p.evaluateAt point sums).size = sums.size := by
  rw [evaluateAt_eq_addTerms, size_addTerms]

/-- **What a slot receives:** the values added to it, in order. -/
theorem getElem?_addTerms (terms : List (Nat × α)) (sums : Array α) (slot : Nat) :
    (addTerms sums terms)[slot]? = sums[slot]?.map fun start =>
      ((terms.filter fun t => t.1 = slot).map Prod.snd).foldl (· + ·) start := by
  induction terms generalizing sums with
  | nil => simp [addTerms]
  | cons t terms ih =>
    have hrest := ih (addAt sums t.1 t.2)
    rw [addTerms] at hrest
    rw [addTerms, List.foldl_cons, hrest, addAt, Array.getElem?_modify]
    by_cases h : t.1 = slot
    · rw [if_pos h, List.filter_cons_of_pos (by simpa using h), Option.map_map]
      rfl
    · rw [if_neg h, List.filter_cons_of_neg (by simpa using h)]

end Program

end Galerkin
