import Galerkin.Proofs.Steps
import Galerkin.Proofs.Tape.Sweep
import Galerkin.Tape.Builder
import Mathlib.Data.List.Infix

/-! # Instructions keep their values while a program is built

A builder only ever appends: instructions, slots and outputs that are there stay where they are. An
instruction reads earlier registers only, so its value does not change when others are appended, and
each step that adds an instruction can be described by the value of the register it returns.

* **`ProgramBuilder.WellFormed`** — instructions read earlier registers and listed slots;
* **`ProgramBuilder.Extends`** — a builder with the same instructions at the start;
* **`ProgramBuilder.Holds`** — a register has a value, and `Holds.extend`: it keeps that value;
* **`constant_spec`**, **`loadBasis_spec`**, **`loadField_spec`**, **`arith_spec`** — what the register
  of a new or shared instruction holds. -/

namespace Galerkin

variable {α : Type}

/-- **Arithmetic with commuting operations.** Addition and multiplication commute; no other law is
assumed, so rounded arithmetic is a case of it. -/
class CommutativeScalar (α : Type) [Scalar α] : Prop where
  /-- The order of summands is immaterial. -/
  add_comm : ∀ x y : α, x + y = y + x
  /-- The order of factors is immaterial. -/
  mul_comm : ∀ x y : α, x * y = y * x

/-- An operation whose operands may be swapped has the same result on swapped operands. -/
theorem ArithOp.apply_comm [Scalar α] [CommutativeScalar α] {op : ArithOp} (h : op.commutes = true) (x y : α) :
    op.apply x y = op.apply y x := by
  cases op with
  | add => exact CommutativeScalar.add_comm x y
  | mul => exact CommutativeScalar.mul_comm x y
  | sub => cases h
  | div => cases h

/-- The slots of an instruction are below the given bounds. -/
def Instr.SlotsBelow (loads fields : Nat) : Instr α → Prop
  | .loadBasis slot => slot < loads
  | .loadField slot _ => slot < fields
  | _ => True

/-- A program whose instructions read listed slots only. -/
def Program.SlotsListed (p : Program α) : Prop :=
  ∀ instr ∈ p.code, instr.SlotsBelow p.loads.length p.fields.length

/-- **The values at slots that are not listed are immaterial.** -/
theorem Program.SlotsListed.evaluate_congr [Scalar α] {p : Program α} (hp : p.SlotsListed)
    {basis basis' : Nat → α} {fields fields' : Nat → Nat → α}
    (hbasis : ∀ slot < p.loads.length, basis slot = basis' slot)
    (hfields : ∀ slot < p.fields.length, fields slot = fields' slot) (sums : Array α) :
    p.evaluate basis fields sums = p.evaluate basis' fields' sums := by
  have hstep : ∀ (r : Array α), ∀ instr ∈ p.code.toList,
      step basis fields r instr = step basis' fields' r instr := by
    intro r instr hinstr
    have hslots := hp instr (Array.mem_toList_iff.mp hinstr)
    cases instr with
    | loadBasis slot => exact hbasis slot hslots
    | loadField slot component => exact congrFun (hfields slot hslots) component
    | _ => rfl
  have hregisters : p.registers basis fields = p.registers basis' fields' := by
    rw [registers_eq_sweepFrom, registers_eq_sweepFrom]
    exact List.foldl_ext _ _ _ fun r instr hinstr => by rw [hstep r instr hinstr]
  rw [evaluate, evaluate, hregisters]

namespace ProgramBuilder

/-! ## (1) Well-formed builders -/

/-- **A builder whose instructions can be evaluated:** operands are earlier registers, slots are listed,
and outputs are registers. -/
structure WellFormed (b : ProgramBuilder α) : Prop where
  /-- Operands come before the instruction that reads them. -/
  reads : ∀ {i : Nat} {instr : Instr α}, b.code[i]? = some instr → instr.ReadsBelow i
  /-- Load instructions name listed slots. -/
  slots : ∀ {i : Nat} {instr : Instr α}, b.code[i]? = some instr →
    instr.SlotsBelow b.loads.length b.fields.length
  /-- Outputs are registers. -/
  outputs : ∀ o ∈ b.outputs, o.2 < b.code.size

/-- A builder without instructions is well formed. -/
theorem wellFormed_empty (slots : Nat) : ({ slots } : ProgramBuilder α).WellFormed where
  reads h := by simp at h
  slots h := by simp at h
  outputs o h := by simp at h

/-- Slots that are listed are listed in longer lists. -/
theorem WellFormed.withSlots {b : ProgramBuilder α} (hb : b.WellFormed) {loads : List BasisLoad}
    {fields : List Nat} (hloads : b.loads <+: loads) (hfields : b.fields <+: fields) :
    ({ b with loads, fields } : ProgramBuilder α).WellFormed := by
  refine ⟨hb.reads, ?_, hb.outputs⟩
  intro i instr hi
  have h := hb.slots hi
  cases instr with
  | loadBasis slot => exact lt_of_lt_of_le h hloads.length_le
  | loadField slot component => exact lt_of_lt_of_le h hfields.length_le
  | _ => exact h

/-- The program as it stands, dead instructions included. -/
def draft (b : ProgramBuilder α) : Program α := ⟨b.slots, b.code, b.loads, b.fields, b.outputs⟩

/-- Sorted operands are the operands in some order. -/
theorem readsBelow_normalize {n : Nat} {instr : Instr α} (h : instr.ReadsBelow n) :
    (normalize instr).ReadsBelow n := by
  cases instr with
  | arith op lhs rhs =>
    rw [normalize]
    split
    · exact ⟨h.2, h.1⟩
    · exact h
  | _ => exact h

/-- Sorting operands does not touch slots. -/
theorem slotsBelow_normalize {loads fields : Nat} {instr : Instr α}
    (h : instr.SlotsBelow loads fields) : (normalize instr).SlotsBelow loads fields := by
  cases instr with
  | arith op lhs rhs =>
    rw [normalize]
    split <;> trivial
  | _ => exact h

/-! ## (2) Extensions -/

/-- **`b'` has grown out of `b`:** what `b` holds is at the same places of `b'`, and nothing was added
to an output. -/
structure Extends (b b' : ProgramBuilder α) : Prop where
  slots : b'.slots = b.slots
  code : ∀ {i : Nat} {instr : Instr α}, b.code[i]? = some instr → b'.code[i]? = some instr
  loads : b.loads <+: b'.loads
  fields : b.fields <+: b'.fields
  outputs : b'.outputs = b.outputs

namespace Extends

theorem refl (b : ProgramBuilder α) : Extends b b :=
  ⟨rfl, fun h => h, List.prefix_refl _, List.prefix_refl _, rfl⟩

theorem trans {a b c : ProgramBuilder α} (hab : Extends a b) (hbc : Extends b c) : Extends a c :=
  ⟨hbc.slots.trans hab.slots, fun h => hbc.code (hab.code h), hab.loads.trans hbc.loads,
    hab.fields.trans hbc.fields, hbc.outputs.trans hab.outputs⟩

/-- There are no fewer registers. -/
theorem size_le {b b' : ProgramBuilder α} (h : Extends b b') : b.code.size ≤ b'.code.size := by
  by_contra hlt
  have hi : b'.code.size < b.code.size := not_le.mp hlt
  have hget := h.code (Array.getElem?_eq_getElem hi)
  rw [Array.getElem?_eq_none (le_refl _)] at hget
  cases hget

end Extends

/-- The entry of a listed slot is the same in a longer list. -/
theorem getD_longer {β : Type} {l l' : List β} (h : l <+: l') {i : Nat} (hi : i < l.length)
    (d : β) : l'.getD i d = l.getD i d := by
  rw [List.getD_eq_getElem?_getD, List.getD_eq_getElem?_getD, List.prefix_iff_getElem?.mp h i hi,
    List.getElem?_eq_getElem hi]

/-- Appending an instruction extends a builder, and keeps it well formed if the instruction can be
evaluated. -/
theorem push_wellFormed {b : ProgramBuilder α} (hb : b.WellFormed) {instr : Instr α}
    (hread : instr.ReadsBelow b.code.size) (hslots : instr.SlotsBelow b.loads.length b.fields.length) :
    ({ b with code := b.code.push instr } : ProgramBuilder α).WellFormed ∧
      b.Extends { b with code := b.code.push instr } := by
  -- Every instruction of the longer builder is an old one at its place, or the new one at the end.
  have hold : ∀ {i old}, (b.code.push instr)[i]? = some old →
      b.code[i]? = some old ∨ i = b.code.size ∧ old = instr := by
    intro i old h
    rw [Array.getElem?_push] at h
    split at h
    · rename_i hi
      exact .inr ⟨hi, (Option.some.inj h).symm⟩
    · exact .inl h
  refine ⟨⟨?_, ?_, ?_⟩, ⟨rfl, ?_, List.prefix_refl _, List.prefix_refl _, rfl⟩⟩
  · intro i old h
    rcases hold h with h | ⟨rfl, rfl⟩
    · exact hb.reads h
    · exact hread
  · intro i old h
    rcases hold h with h | ⟨rfl, rfl⟩
    · exact hb.slots h
    · exact hslots
  · intro o ho
    have h := hb.outputs o ho
    rw [Array.size_push]
    exact Nat.lt_succ_of_lt h
  · intro i old h
    have hi : i < b.code.size := (Array.getElem?_eq_some_iff.mp h).1
    rw [Array.getElem?_push, if_neg (Nat.ne_of_lt hi), h]

/-- **An instruction is there after it has been added,** with its operands sorted. -/
theorem emit_spec [DecidableEq α] {b : ProgramBuilder α} (hb : b.WellFormed) (instr : Instr α)
    (hread : instr.ReadsBelow b.code.size) (hslots : instr.SlotsBelow b.loads.length b.fields.length) :
    (b.emit instr).2.WellFormed ∧ b.Extends (b.emit instr).2 ∧
      (b.emit instr).2.code[(b.emit instr).1]? = some (normalize instr) := by
  unfold emit
  simp only
  split
  · rename_i register hfind
    obtain ⟨hlt, heq, -⟩ := Array.findIdx?_eq_some_iff_getElem.mp hfind
    refine ⟨hb, Extends.refl b, ?_⟩
    rw [Array.getElem?_eq_getElem hlt, beq_iff_eq.mp heq]
  · obtain ⟨hwf, hext⟩ := push_wellFormed hb (readsBelow_normalize hread)
      (slotsBelow_normalize hslots)
    exact ⟨hwf, hext, by rw [Array.getElem?_push, if_pos rfl]⟩

/-! ## (3) Values of registers -/

variable [Scalar α]

/-- The value of a register at a point. -/
def value (b : ProgramBuilder α) (point : PointData α) (i : Nat) : α := b.draft.value point i

/-- The value of an instruction of the builder at a point, over the final registers. -/
def stepValue (b : ProgramBuilder α) (point : PointData α) (instr : Instr α) : α :=
  Program.step (b.draft.basisOf point) (b.draft.fieldOf point)
    (b.draft.registers (b.draft.basisOf point) (b.draft.fieldOf point)) instr

/-- A register has the value of its instruction. -/
theorem value_eq_stepValue {b : ProgramBuilder α} (hb : b.WellFormed) (point : PointData α) {i : Nat}
    {instr : Instr α} (hi : b.code[i]? = some instr) :
    b.value point i = b.stepValue point instr :=
  b.draft.registers_getD _ _ hi (hb.reads hi)

/-- The value of an operation is that of its operands combined. -/
theorem stepValue_arith (b : ProgramBuilder α) (point : PointData α) (op : ArithOp) (lhs rhs : Nat) :
    b.stepValue point (.arith op lhs rhs) = op.apply (b.value point lhs) (b.value point rhs) := rfl

/-- **Operands are swapped only where their order is immaterial.** -/
theorem stepValue_normalize [CommutativeScalar α] (b : ProgramBuilder α) (point : PointData α)
    (instr : Instr α) : b.stepValue point (normalize instr) = b.stepValue point instr := by
  cases instr with
  | arith op lhs rhs =>
    rw [normalize]
    split
    · rename_i h
      rw [Bool.and_eq_true] at h
      rw [stepValue_arith, stepValue_arith, ArithOp.apply_comm h.1]
    · rfl
  | _ => rfl

/-- **A register keeps its value while a builder grows.** -/
theorem value_extends {b b' : ProgramBuilder α} (hb : b.WellFormed) (hb' : b'.WellFormed)
    (h : b.Extends b') (point : PointData α) {i : Nat} (hi : i < b.code.size) :
    b'.value point i = b.value point i := by
  induction i using Nat.strong_induction_on with
  | _ i ih =>
    have hget : b.code[i]? = some b.code[i] := Array.getElem?_eq_getElem hi
    rw [value_eq_stepValue hb point hget, value_eq_stepValue hb' point (h.code hget)]
    have hreads := hb.reads hget
    have hslots := hb.slots hget
    cases hinstr : b.code[i] with
    | const c => rfl
    | loadBasis slot =>
      rw [hinstr] at hslots
      exact congrArg point.basis (getD_longer h.loads hslots _)
    | loadField slot component =>
      rw [hinstr] at hslots
      exact congrArg (point.field · component) (getD_longer h.fields hslots _)
    | arith op lhs rhs =>
      rw [hinstr] at hreads
      rw [stepValue_arith, stepValue_arith, ih lhs hreads.1 (hreads.1.trans hi),
        ih rhs hreads.2 (hreads.2.trans hi)]

/-- **A register holds a value** at a point. -/
def Holds (b : ProgramBuilder α) (point : PointData α) (register : Nat) (x : α) : Prop :=
  register < b.code.size ∧ b.value point register = x

/-- What a register holds it also holds in an extension. -/
theorem Holds.extend {b b' : ProgramBuilder α} (hb : b.WellFormed) (hb' : b'.WellFormed)
    (h : b.Extends b') {point : PointData α} {register : Nat} {x : α}
    (hx : b.Holds point register x) : b'.Holds point register x :=
  ⟨lt_of_lt_of_le hx.1 h.size_le, (value_extends hb hb' h point hx.1).trans hx.2⟩

/-! ## (4) New and shared instructions -/

/-- **What adding an instruction does:** the builder grows and stays well formed, and the register that
is returned holds a value. -/
structure Adds (b : ProgramBuilder α) (point : PointData α) (r : Nat × ProgramBuilder α) (x : α) :
    Prop where
  wellFormed : r.2.WellFormed
  extends_ : b.Extends r.2
  holds : r.2.Holds point r.1 x

/-- What a longer list of slots adds is added to the builder with the shorter list too. -/
theorem Adds.of_extends {b b' : ProgramBuilder α} {point : PointData α} {r : Nat × ProgramBuilder α}
    {x : α} (h : b.Extends b') (hr : b'.Adds point r x) : b.Adds point r x :=
  ⟨hr.wellFormed, h.trans hr.extends_, hr.holds⟩

variable [DecidableEq α]

/-- **The register of an instruction holds the value of the instruction,** shared or new. -/
theorem emit_adds [CommutativeScalar α] {b : ProgramBuilder α} (hb : b.WellFormed) (instr : Instr α)
    (hread : instr.ReadsBelow b.code.size) (hslots : instr.SlotsBelow b.loads.length b.fields.length)
    (point : PointData α) {x : α} (hx : (b.emit instr).2.stepValue point instr = x) :
    b.Adds point (b.emit instr) x := by
  obtain ⟨hwf, hext, hget⟩ := emit_spec hb instr hread hslots
  refine ⟨hwf, hext, (Array.getElem?_eq_some_iff.mp hget).1, ?_⟩
  rw [value_eq_stepValue hwf point hget, stepValue_normalize, hx]

/-- The slot of a value is one where the value is listed. -/
theorem slotOf_spec {β : Type} [DecidableEq β] (values : List β) (x : β) :
    values <+: (slotOf values x).2 ∧ (slotOf values x).2[(slotOf values x).1]? = some x := by
  unfold slotOf
  split
  · rename_i slot hfind
    obtain ⟨hlt, heq, -⟩ := List.findIdx?_eq_some_iff_getElem.mp hfind
    refine ⟨List.prefix_refl _, ?_⟩
    rw [List.getElem?_eq_getElem hlt, beq_iff_eq.mp heq]
  · exact ⟨List.prefix_append _ _, by simp⟩

/-- **The register of a constant** holds it. -/
theorem constant_spec [CommutativeScalar α] {b : ProgramBuilder α} (hb : b.WellFormed)
    (point : PointData α) (c : Constant α) : b.Adds point (b.constant c) c.value :=
  emit_adds hb (.const c) trivial trivial point rfl

/-- **The register of a basis derivative** holds its value. -/
theorem loadBasis_spec [CommutativeScalar α] {b : ProgramBuilder α} (hb : b.WellFormed)
    (point : PointData α) (load : BasisLoad) :
    b.Adds point (b.loadBasis load) (point.basis load) := by
  obtain ⟨hpre, hget⟩ := slotOf_spec b.loads load
  set slots := slotOf b.loads load with hs
  have hwf : ({ b with loads := slots.2 } : ProgramBuilder α).WellFormed :=
    hb.withSlots hpre (List.prefix_refl _)
  have hext : b.Extends { b with loads := slots.2 } :=
    ⟨rfl, fun h => h, hpre, List.prefix_refl _, rfl⟩
  have hslot : slots.1 < slots.2.length := (List.getElem?_eq_some_iff.mp hget).1
  refine Adds.of_extends hext (emit_adds hwf (.loadBasis slots.1) trivial hslot point ?_)
  have hemit := (emit_spec hwf (.loadBasis slots.1) trivial hslot).2.1.loads
  refine congrArg point.basis ((getD_longer hemit hslot _).trans ?_)
  rw [List.getD_eq_getElem?_getD, hget, Option.getD_some]

omit [Scalar α] in
/-- A component is loaded by one instruction after its field is listed. -/
theorem loadField_eq_ok (b : ProgramBuilder α) (field component : Nat) :
    b.loadField field component = .ok (({ b with fields := (slotOf b.fields field).2 } : ProgramBuilder α).emit
      (.loadField (slotOf b.fields field).1 component)) := by
  simp [loadField, require, bind, Except.bind, pure, Except.pure]

/-- **The register of a field component** holds it. -/
theorem loadField_spec [CommutativeScalar α] {b : ProgramBuilder α} (hb : b.WellFormed)
    (point : PointData α) (field component : Nat) :
    ∃ r, b.loadField field component = .ok r ∧ b.Adds point r (point.field field component) := by
  obtain ⟨hpre, hget⟩ := slotOf_spec b.fields field
  set slots := slotOf b.fields field
  have hwf : ({ b with fields := slots.2 } : ProgramBuilder α).WellFormed :=
    hb.withSlots (List.prefix_refl _) hpre
  have hext : b.Extends { b with fields := slots.2 } :=
    ⟨rfl, fun h => h, List.prefix_refl _, hpre, rfl⟩
  have hslot : slots.1 < slots.2.length := (List.getElem?_eq_some_iff.mp hget).1
  refine ⟨_, loadField_eq_ok b field component, Adds.of_extends hext
    (emit_adds hwf (.loadField slots.1 component) trivial hslot point ?_)⟩
  have hemit := (emit_spec hwf (.loadField slots.1 component) trivial hslot).2.1.fields
  refine congrArg (point.field · component) ((getD_longer hemit hslot _).trans ?_)
  rw [List.getD_eq_getElem?_getD, hget, Option.getD_some]

/-- **The register of an operation** holds the result on what its operands hold, carried out at once
or by an instruction. -/
theorem arith_spec [CommutativeScalar α] {b : ProgramBuilder α} (hb : b.WellFormed)
    {point : PointData α} (op : ArithOp) {lhs rhs : Nat} {x y : α} (hx : b.Holds point lhs x)
    (hy : b.Holds point rhs y) :
    ∃ r, b.arith op lhs rhs = .ok r ∧ b.Adds point r (op.apply x y) := by
  have hl : checkIndex .leftRegister lhs b.code.size = .ok () :=
    checkIndex_eq_ok_iff.mpr ⟨Int.natCast_nonneg _, Int.ofNat_lt.mpr hx.1⟩
  have hr : checkIndex .rightRegister rhs b.code.size = .ok () :=
    checkIndex_eq_ok_iff.mpr ⟨Int.natCast_nonneg _, Int.ofNat_lt.mpr hy.1⟩
  unfold arith
  rw [hl, hr]
  simp only [bind, Except.bind]
  split
  · -- Both operands are constants, so the operation is carried out at once.
    rename_i c d hc hd
    refine ⟨b.constant (fold op c d), rfl, ?_⟩
    have hcx : c.value = x := (value_eq_stepValue hb point hc).symm.trans hx.2
    have hdy : d.value = y := (value_eq_stepValue hb point hd).symm.trans hy.2
    rw [← hcx, ← hdy]
    exact constant_spec hb point (fold op c d)
  · refine ⟨b.emit (.arith op lhs rhs), rfl, ?_⟩
    have hread : (Instr.arith op lhs rhs : Instr α).ReadsBelow b.code.size := ⟨hx.1, hy.1⟩
    refine emit_adds hb _ hread trivial point ?_
    obtain ⟨hwf, hext, -⟩ := emit_spec hb _ hread trivial
    rw [stepValue_arith, (hx.extend hb hwf hext).2, (hy.extend hb hwf hext).2]

end ProgramBuilder

end Galerkin
