import Galerkin.Proofs.Tape.Reading
import Mathlib.Data.List.Nodup

/-! # Sequences of calls of a builder

Callers may add instructions and outputs in any order, and a call that is refused changes nothing. Whatever
the calls, a builder never holds an instruction twice, keeps operands whose order is immaterial in increasing
order, and holds no operation on two constants.

* **`TapeCall`**, **`ProgramBuilder.afterCalls`** — calls, and a builder after a sequence of them;
* **`ProgramBuilder.accumulated`** — the outputs that a sequence of calls asks for;
* **`ProgramBuilder.Canonical`** — what every such builder satisfies;
* **`ProgramBuilder.perform_cases`** — what a call can do;
* **`ProgramBuilder.Canonical.after`**, **`ProgramBuilder.Canonical.afterCalls`** — one call, and a
  sequence of them;
* **`ProgramBuilder.afterCalls_outputs`** — the outputs of the builder are those of the calls. -/

namespace Galerkin

variable {α : Type}

/-! ## (1) Constant operands -/

/-- Whether both operands are constants. -/
def BothConstant (code : Array (Instr α)) (lhs rhs : Nat) : Prop :=
  (∃ c, code[lhs]? = some (.const c)) ∧ ∃ d, code[rhs]? = some (.const d)

/-- Operands are the same in longer code. -/
theorem bothConstant_push {code : Array (Instr α)} {instr : Instr α} {lhs rhs : Nat} (hl : lhs < code.size)
    (hr : rhs < code.size) : BothConstant (code.push instr) lhs rhs ↔ BothConstant code lhs rhs := by
  unfold BothConstant
  rw [Array.getElem?_push, Array.getElem?_push, if_neg (by omega), if_neg (by omega)]

/-! ## (2) Calls -/

/-- **A call of a builder.** -/
inductive TapeCall (α : Type) where
  | constant (c : Constant α)
  | loadBasis (load : BasisLoad)
  | loadField (field component : Int)
  | arith (op : ArithOp) (lhs rhs : Nat)
  | accumulate (slot : Int) (register : Nat)
  deriving Repr, DecidableEq, Inhabited

namespace ProgramBuilder

/-- The builder that a call leads to; the register that a call returns is dropped. -/
def perform [Scalar α] [DecidableEq α] (b : ProgramBuilder α) :
    TapeCall α → Except Error (ProgramBuilder α)
  | .constant c => .ok (b.constant c).2
  | .loadBasis load => .ok (b.loadBasis load).2
  | .loadField field component => (b.loadField field component).map Prod.snd
  | .arith op lhs rhs => (b.arith op lhs rhs).map Prod.snd
  | .accumulate slot register => b.accumulate slot register

/-- **A builder after a call.** A call that is refused leaves it as it was. -/
def after [Scalar α] [DecidableEq α] (b : ProgramBuilder α) (call : TapeCall α) : ProgramBuilder α :=
  match b.perform call with
  | .ok b' => b'
  | .error _ => b

/-- **A builder after a sequence of calls.** -/
def afterCalls [Scalar α] [DecidableEq α] (b : ProgramBuilder α) (calls : List (TapeCall α)) :
    ProgramBuilder α :=
  calls.foldl after b

/-- The output that a call asks for, if it names a slot of the program and a register that is there. -/
def added (b : ProgramBuilder α) : TapeCall α → List (Nat × Nat)
  | .accumulate slot register =>
    if 0 ≤ slot ∧ slot < b.slots ∧ register < b.code.size then [(slot.toNat, register)] else []
  | .constant _ | .loadBasis _ | .loadField _ _ | .arith _ _ _ => []

/-- **The outputs that a sequence of calls asks for,** in the order of the calls. -/
def accumulated [Scalar α] [DecidableEq α] (b : ProgramBuilder α) :
    List (TapeCall α) → List (Nat × Nat)
  | [] => []
  | call :: calls => b.added call ++ (b.after call).accumulated calls

/-! ## (3) Canonical builders -/

/-- **A canonical builder.** Nothing in it is there twice: neither an instruction, nor an order of operands
that may be exchanged, nor a slot; and no operation is left that could have been carried out. -/
structure Canonical (b : ProgramBuilder α) : Prop where
  wellFormed : b.WellFormed
  /-- Outputs are added to slots of the program. -/
  slots : ∀ o ∈ b.outputs, o.1 < b.slots
  loads : b.loads.Nodup
  fields : b.fields.Nodup
  code : b.code.toList.Nodup
  /-- Operands that may be exchanged are in increasing order. -/
  sorted : ∀ op lhs rhs, Instr.arith op lhs rhs ∈ b.code → op.commutes = true → lhs ≤ rhs
  /-- Operations on two constants are carried out at once. -/
  folded : ∀ op lhs rhs, Instr.arith op lhs rhs ∈ b.code → ¬ BothConstant b.code lhs rhs

/-- A builder without instructions is canonical. -/
theorem canonical_empty (slots : Nat) : ({ slots } : ProgramBuilder α).Canonical where
  wellFormed := wellFormed_empty slots
  slots o ho := nomatch ho
  loads := List.nodup_nil
  fields := List.nodup_nil
  code := List.nodup_nil
  sorted op lhs rhs h := by simp at h
  folded op lhs rhs h := by simp at h

variable {b : ProgramBuilder α}

/-- Sorted operands are in increasing order, and they are the operands in some order. -/
theorem arith_of_normalize {instr : Instr α} {op : ArithOp} {lhs rhs : Nat}
    (h : normalize instr = .arith op lhs rhs) : (op.commutes = true → lhs ≤ rhs) ∧
      (instr = .arith op lhs rhs ∨ instr = .arith op rhs lhs) := by
  cases instr with
  | arith op' l r =>
    rw [normalize] at h
    split at h
    · rename_i hswap
      obtain ⟨rfl, rfl, rfl⟩ := Instr.arith.inj h
      rw [Bool.and_eq_true, decide_eq_true_iff] at hswap
      exact ⟨fun _ => hswap.2.le, .inr rfl⟩
    · rename_i hkeep
      obtain ⟨rfl, rfl, rfl⟩ := Instr.arith.inj h
      refine ⟨fun hcommutes => ?_, .inl rfl⟩
      simpa [hcommutes] using hkeep
  | _ => cases h

/-- **Adding an instruction** whose operands are not both constants. -/
theorem Canonical.emit [DecidableEq α] (hb : b.Canonical) (instr : Instr α)
    (hread : instr.ReadsBelow b.code.size) (hslots : instr.SlotsBelow b.loads.length b.fields.length)
    (hfolded : ∀ op lhs rhs, instr = .arith op lhs rhs → ¬ BothConstant b.code lhs rhs) :
    (b.emit instr).2.Canonical := by
  unfold ProgramBuilder.emit
  simp only
  split
  · exact hb
  · rename_i hnew
    have hnot : normalize instr ∉ b.code := by
      intro hmem
      have h := Array.findIdx?_eq_none_iff.mp hnew _ hmem
      rw [beq_self_eq_true] at h
      cases h
    obtain ⟨hwf, -⟩ := push_wellFormed hb.wellFormed (readsBelow_normalize hread)
      (slotsBelow_normalize hslots)
    refine ⟨hwf, hb.slots, hb.loads, hb.fields, ?_, fun op lhs rhs hmem => ?_, fun op lhs rhs hmem => ?_⟩
    · rw [Array.toList_push, ← List.concat_eq_append]
      exact hb.code.concat fun hmem => hnot (Array.mem_toList_iff.mp hmem)
    · rcases Array.mem_push.mp hmem with hold | heq
      · exact hb.sorted op lhs rhs hold
      · exact (arith_of_normalize heq.symm).1
    · rcases Array.mem_push.mp hmem with hold | heq
      · obtain ⟨i, hi⟩ := Array.getElem?_of_mem hold
        have hlt := (Array.getElem?_eq_some_iff.mp hi).1
        obtain ⟨hl, hr⟩ := hb.wellFormed.reads hi
        rw [bothConstant_push (by omega) (by omega)]
        exact hb.folded op lhs rhs hold
      · -- The operands of the new instruction may have been exchanged.
        rcases (arith_of_normalize heq.symm).2 with rfl | rfl
        · rw [bothConstant_push hread.1 hread.2]
          exact hfolded op lhs rhs rfl
        · rw [bothConstant_push hread.2 hread.1]
          exact fun h => hfolded op rhs lhs rfl h.symm

/-- The list of slots names nothing twice. -/
theorem nodup_slotOf {β : Type} [DecidableEq β] {values : List β} (h : values.Nodup) (x : β) :
    (slotOf values x).2.Nodup := by
  unfold slotOf
  split
  · exact h
  · rename_i hnone
    rw [← List.concat_eq_append]
    refine h.concat fun hmem => ?_
    have hnot := List.findIdx?_eq_none_iff.mp hnone x hmem
    rw [beq_self_eq_true] at hnot
    cases hnot

/-- **A new instruction over longer lists of slots,** as a call adds it. -/
structure Addable (b : ProgramBuilder α) (loads : List BasisLoad) (fields : List Nat) (instr : Instr α) :
    Prop where
  loads_longer : b.loads <+: loads
  fields_longer : b.fields <+: fields
  loads_nodup : b.loads.Nodup → loads.Nodup
  fields_nodup : b.fields.Nodup → fields.Nodup
  reads : instr.ReadsBelow b.code.size
  slots : instr.SlotsBelow loads.length fields.length
  folded : ∀ op lhs rhs, instr = .arith op lhs rhs → ¬ BothConstant b.code lhs rhs

/-- An instruction over the lists as they are. -/
theorem addable_same {instr : Instr α} (hread : instr.ReadsBelow b.code.size)
    (hslots : instr.SlotsBelow b.loads.length b.fields.length)
    (hfolded : ∀ op lhs rhs, instr = .arith op lhs rhs → ¬ BothConstant b.code lhs rhs) :
    b.Addable b.loads b.fields instr :=
  ⟨List.prefix_refl _, List.prefix_refl _, id, id, hread, hslots, hfolded⟩

variable [Scalar α] [DecidableEq α]

/-- **What a call can do:** it adds an instruction, or an output. -/
theorem perform_cases {call : TapeCall α} {b' : ProgramBuilder α} (h : b.perform call = .ok b') :
    (b.added call = [] ∧ ∃ loads fields instr, b.Addable loads fields instr ∧
      b' = (({ b with loads, fields } : ProgramBuilder α).emit instr).2) ∨
    ∃ slot register, slot < b.slots ∧ register < b.code.size ∧ b.added call = [(slot, register)] ∧
      b' = { b with outputs := b.outputs ++ [(slot, register)] } := by
  cases call with
  | constant c =>
    have hadd : b.Addable b.loads b.fields (.const c) := addable_same trivial trivial fun _ _ _ h => nomatch h
    exact .inl ⟨rfl, _, _, _, hadd, (Except.ok.inj h).symm⟩
  | loadBasis load =>
    obtain ⟨hlonger, hget⟩ := slotOf_spec b.loads load
    have hadd : b.Addable (slotOf b.loads load).2 b.fields (.loadBasis (slotOf b.loads load).1) :=
      ⟨hlonger, List.prefix_refl _, fun hnodup => nodup_slotOf hnodup load, id, trivial,
        (List.getElem?_eq_some_iff.mp hget).1, fun _ _ _ h => nomatch h⟩
    exact .inl ⟨rfl, _, _, _, hadd, (Except.ok.inj h).symm⟩
  | loadField field component =>
    obtain ⟨⟨r, b''⟩, hload, rfl⟩ := map_eq_ok_iff.mp h
    obtain ⟨-, hload⟩ := require_bind_eq_ok_iff.mp hload
    obtain ⟨hlonger, hget⟩ := slotOf_spec b.fields field.toNat
    have hadd : b.Addable b.loads (slotOf b.fields field.toNat).2
        (.loadField (slotOf b.fields field.toNat).1 component.toNat) :=
      ⟨List.prefix_refl _, hlonger, id, fun hnodup => nodup_slotOf hnodup field.toNat, trivial,
        (List.getElem?_eq_some_iff.mp hget).1, fun _ _ _ h => nomatch h⟩
    exact .inl ⟨rfl, _, _, _, hadd, congrArg Prod.snd (Except.ok.inj hload).symm⟩
  | arith op lhs rhs =>
    obtain ⟨⟨r, b''⟩, harith, rfl⟩ := map_eq_ok_iff.mp h
    obtain ⟨⟨⟩, hl, harith⟩ := bind_eq_ok_iff.mp harith
    obtain ⟨⟨⟩, hr, harith⟩ := bind_eq_ok_iff.mp harith
    have hl := Int.ofNat_lt.mp (checkIndex_eq_ok_iff.mp hl).2
    have hr := Int.ofNat_lt.mp (checkIndex_eq_ok_iff.mp hr).2
    split at harith
    · -- Two constants: the result is a constant, too.
      rename_i x y _ _
      have hadd : b.Addable b.loads b.fields (.const (fold op x y)) :=
        addable_same trivial trivial fun _ _ _ h => nomatch h
      exact .inl ⟨rfl, _, _, _, hadd, congrArg Prod.snd (Except.ok.inj harith).symm⟩
    · rename_i hnot
      have hadd : b.Addable b.loads b.fields (.arith op lhs rhs) := by
        refine addable_same ⟨hl, hr⟩ trivial ?_
        rintro _ _ _ ⟨⟩ ⟨⟨c, hc⟩, d, hd⟩
        exact hnot c d hc hd
      exact .inl ⟨rfl, _, _, _, hadd, congrArg Prod.snd (Except.ok.inj harith).symm⟩
  | accumulate slot register =>
    obtain ⟨⟨⟩, hslot, h⟩ := bind_eq_ok_iff.mp h
    obtain ⟨⟨⟩, hregister, h⟩ := bind_eq_ok_iff.mp h
    obtain ⟨hnonneg, hlt⟩ := checkIndex_eq_ok_iff.mp hslot
    have hregister := Int.ofNat_lt.mp (checkIndex_eq_ok_iff.mp hregister).2
    have hslot := (Int.toNat_lt hnonneg).mpr hlt
    exact .inr ⟨slot.toNat, register, hslot, hregister, if_pos ⟨hnonneg, hlt, hregister⟩,
      (Except.ok.inj h).symm⟩

/-- **One call keeps a builder canonical.** -/
theorem Canonical.perform (hb : b.Canonical) {call : TapeCall α} {b' : ProgramBuilder α}
    (h : b.perform call = .ok b') : b'.Canonical := by
  rcases perform_cases h with
    ⟨-, loads, fields, instr, hadd, rfl⟩ | ⟨slot, register, hslot, hregister, -, rfl⟩
  · have hlonger : ({ b with loads, fields } : ProgramBuilder α).Canonical :=
      ⟨hb.wellFormed.withSlots hadd.loads_longer hadd.fields_longer, hb.slots, hadd.loads_nodup hb.loads,
        hadd.fields_nodup hb.fields, hb.code, hb.sorted, hb.folded⟩
    exact hlonger.emit instr hadd.reads hadd.slots hadd.folded
  · have houtputs : ∀ o ∈ b.outputs ++ [(slot, register)], o.2 < b.code.size :=
      List.forall_mem_append.mpr ⟨hb.wellFormed.outputs, List.forall_mem_singleton.mpr hregister⟩
    have hslots : ∀ o ∈ b.outputs ++ [(slot, register)], o.1 < b.slots :=
      List.forall_mem_append.mpr ⟨hb.slots, List.forall_mem_singleton.mpr hslot⟩
    exact ⟨⟨hb.wellFormed.reads, hb.wellFormed.slots, houtputs⟩, hslots, hb.loads, hb.fields, hb.code,
      hb.sorted, hb.folded⟩

/-- **A call, refused or not, keeps a builder canonical.** -/
theorem Canonical.after (hb : b.Canonical) (call : TapeCall α) : (b.after call).Canonical := by
  unfold ProgramBuilder.after
  cases h : b.perform call with
  | ok b' => exact hb.perform h
  | error e => exact hb

/-- **Any sequence of calls keeps a builder canonical.** -/
theorem Canonical.afterCalls (hb : b.Canonical) (calls : List (TapeCall α)) :
    (b.afterCalls calls).Canonical := by
  induction calls generalizing b with
  | nil => exact hb
  | cons call calls ih => exact ih (hb.after call)

/-! ## (4) Outputs -/

omit [Scalar α] in
/-- An instruction adds to no output. -/
theorem emit_outputs (b : ProgramBuilder α) (instr : Instr α) :
    (b.emit instr).2.slots = b.slots ∧ (b.emit instr).2.outputs = b.outputs := by
  unfold emit
  simp only
  split
  · exact ⟨rfl, rfl⟩
  · exact ⟨rfl, rfl⟩

/-- **A call adds the output that it asks for,** and no other call adds one. -/
theorem perform_outputs {call : TapeCall α} {b' : ProgramBuilder α} (h : b.perform call = .ok b') :
    b'.slots = b.slots ∧ b'.outputs = b.outputs ++ b.added call := by
  rcases perform_cases h with ⟨hadded, loads, fields, instr, -, rfl⟩ | ⟨slot, register, -, -, hadded, rfl⟩
  · rw [hadded, List.append_nil]
    exact emit_outputs { b with loads, fields } instr
  · rw [hadded]
    exact ⟨rfl, rfl⟩

/-- A call that is refused asks for no output. -/
theorem added_of_error {call : TapeCall α} {e : Error} (h : b.perform call = .error e) :
    b.added call = [] := by
  cases call with
  | accumulate slot register =>
    rw [added]
    apply if_neg
    rintro ⟨hnonneg, hslot, hregister⟩
    obtain ⟨b', hb'⟩ := accumulate_isOk hnonneg hslot hregister
    rw [perform, hb'] at h
    cases h
  | _ => rfl

/-- A call, refused or not, adds the output that it asks for. -/
theorem after_outputs (b : ProgramBuilder α) (call : TapeCall α) :
    (b.after call).slots = b.slots ∧ (b.after call).outputs = b.outputs ++ b.added call := by
  unfold after
  cases h : b.perform call with
  | ok b' => exact perform_outputs h
  | error e =>
    rw [added_of_error h, List.append_nil]
    exact ⟨rfl, rfl⟩

/-- **The outputs of a builder are those that the calls ask for,** in the order of the calls. -/
theorem afterCalls_outputs (b : ProgramBuilder α) (calls : List (TapeCall α)) :
    (b.afterCalls calls).slots = b.slots ∧
      (b.afterCalls calls).outputs = b.outputs ++ b.accumulated calls := by
  induction calls generalizing b with
  | nil => exact ⟨rfl, (List.append_nil _).symm⟩
  | cons call calls ih =>
    obtain ⟨hslots, houtputs⟩ := b.after_outputs call
    obtain ⟨hslots', houtputs'⟩ := ih (b.after call)
    refine ⟨hslots'.trans hslots, houtputs'.trans ?_⟩
    rw [houtputs, accumulated, List.append_assoc]

end ProgramBuilder

end Galerkin
