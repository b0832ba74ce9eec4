import Galerkin.Proofs.Tape.Finishing

/-! # What a program reads

A program names what it reads once, in its lists of loads and fields; its instructions name slots of these
lists, registers written before, and components of fields. What a builder puts into a program can be
bounded beforehand, and finishing adds nothing to it.

* **`Program.ReadsOnly`** — registers before they are read, and only the given loads and components;
* **`ProgramBuilder.loadBasis_emits`**, **`loadField_emits`**, **`arith_emits`** — the steps of a builder;
* **`ProgramBuilder.finish_readsOnly`** — finishing drops reads and adds none. -/

namespace Galerkin

variable {α : Type}

/-- **A program that reads registers after they are written,** the listed slots, the loads that satisfy
`load`, and component `c` of field `id` only where `component id c` holds. -/
structure Program.ReadsOnly (p : Program α) (load : BasisLoad → Prop) (component : Nat → Nat → Prop) :
    Prop where
  /-- Operands come before the instruction that reads them. -/
  reads : ∀ (i : Nat) (instr : Instr α), p.code[i]? = some instr → instr.ReadsBelow i
  /-- Load instructions name listed slots. -/
  slots : p.SlotsListed
  /-- Outputs are registers that are added to slots of the program. -/
  outputs : ∀ o ∈ p.outputs, o.1 < p.slots ∧ o.2 < p.code.size
  /-- Listed loads are among the given ones. -/
  loads : ∀ l ∈ p.loads, load l
  /-- Components are among the given ones of their field. -/
  components : ∀ slot c, Instr.loadField slot c ∈ p.code → ∀ id, p.fields[slot]? = some id →
    component id c
  /-- Listed fields have a given component. -/
  fields : ∀ id ∈ p.fields, ∃ c, component id c

namespace ProgramBuilder

variable {b : ProgramBuilder α} {load : BasisLoad → Prop} {component : Nat → Nat → Prop}

/-! ## (1) Builders -/

/-- A builder whose program reads registers after they are written is well formed. -/
theorem wellFormed_of_readsOnly (h : b.draft.ReadsOnly load component) : b.WellFormed where
  reads hi := h.reads _ _ hi
  slots hi := h.slots _ (Array.mem_of_getElem? hi)
  outputs o ho := (h.outputs o ho).2

/-- A builder without instructions reads nothing. -/
theorem readsOnly_empty (slots : Nat) (load : BasisLoad → Prop) (component : Nat → Nat → Prop) :
    ({ slots } : ProgramBuilder α).draft.ReadsOnly load component := by
  refine ⟨?_, ?_, ?_, ?_, ?_, ?_⟩ <;> simp [draft, Program.SlotsListed]

/-- **What a step of a builder does:** the builder grows, reads what is given only, and the register that
is returned is one of it. -/
structure Emits (b : ProgramBuilder α) (load : BasisLoad → Prop) (component : Nat → Nat → Prop)
    (r : Nat × ProgramBuilder α) : Prop where
  readsOnly : r.2.draft.ReadsOnly load component
  extends_ : b.Extends r.2
  register : r.1 < r.2.code.size

/-- A step of a builder with longer lists of slots. -/
theorem Emits.of_extends {c : ProgramBuilder α} {r : Nat × ProgramBuilder α} (h : b.Extends c)
    (hr : c.Emits load component r) : b.Emits load component r :=
  ⟨hr.readsOnly, h.trans hr.extends_, hr.register⟩

/-- An instruction that reads what is given may be appended. -/
theorem push_readsOnly (hb : b.draft.ReadsOnly load component) {instr : Instr α}
    (hread : instr.ReadsBelow b.code.size) (hslots : instr.SlotsBelow b.loads.length b.fields.length)
    (hcomponent : ∀ slot c, instr = .loadField slot c → ∀ id, b.fields[slot]? = some id →
      component id c) :
    ({ b with code := b.code.push instr } : ProgramBuilder α).draft.ReadsOnly load component := by
  obtain ⟨hwf, -⟩ := push_wellFormed (wellFormed_of_readsOnly hb) hread hslots
  refine ⟨fun i old hi => hwf.reads hi, ?_, ?_, hb.loads, ?_, hb.fields⟩
  · intro old hold
    rcases Array.mem_push.mp hold with hold | rfl
    · exact hb.slots old hold
    · exact hslots
  · intro o ho
    refine ⟨(hb.outputs o ho).1, ?_⟩
    exact hwf.outputs o ho
  · intro slot c hmem id hid
    rcases Array.mem_push.mp hmem with hmem | rfl
    · exact hb.components slot c hmem id hid
    · exact hcomponent slot c rfl id hid

variable [DecidableEq α]

/-- **Adding an instruction** that reads what is given. -/
theorem emit_emits (hb : b.draft.ReadsOnly load component) (instr : Instr α)
    (hread : instr.ReadsBelow b.code.size) (hslots : instr.SlotsBelow b.loads.length b.fields.length)
    (hcomponent : ∀ slot c, instr = .loadField slot c → ∀ id, b.fields[slot]? = some id →
      component id c) : b.Emits load component (b.emit instr) := by
  obtain ⟨-, hext, hget⟩ := emit_spec (wellFormed_of_readsOnly hb) instr hread hslots
  refine ⟨?_, hext, (Array.getElem?_eq_some_iff.mp hget).1⟩
  unfold emit
  simp only
  split
  · exact hb
  · refine push_readsOnly hb (readsBelow_normalize hread) (slotsBelow_normalize hslots) ?_
    intro slot c heq id hid
    -- Sorting operands does not touch load instructions.
    refine hcomponent slot c ?_ id hid
    cases instr with
    | arith op lhs rhs =>
      rw [normalize] at heq
      split at heq <;> cases heq
    | _ => exact heq

/-- A constant reads nothing. -/
theorem constant_emits (hb : b.draft.ReadsOnly load component) (c : Constant α) :
    b.Emits load component (b.constant c) :=
  emit_emits hb (.const c) trivial trivial fun _ _ h => nomatch h

/-- An operation on registers of the builder. -/
theorem arith_emits [Scalar α] (hb : b.draft.ReadsOnly load component) (op : ArithOp) {lhs rhs : Nat}
    (hl : lhs < b.code.size) (hr : rhs < b.code.size) :
    ∃ r, b.arith op lhs rhs = .ok r ∧ b.Emits load component r := by
  have hlcheck : checkIndex .leftRegister lhs b.code.size = .ok () :=
    checkIndex_eq_ok_iff.mpr ⟨Int.natCast_nonneg _, Int.ofNat_lt.mpr hl⟩
  have hrcheck : checkIndex .rightRegister rhs b.code.size = .ok () :=
    checkIndex_eq_ok_iff.mpr ⟨Int.natCast_nonneg _, Int.ofNat_lt.mpr hr⟩
  unfold arith
  rw [hlcheck, hrcheck]
  simp only [bind, Except.bind]
  split
  · exact ⟨_, rfl, constant_emits hb _⟩
  · exact ⟨_, rfl, emit_emits hb _ ⟨hl, hr⟩ trivial fun _ _ h => nomatch h⟩

omit [DecidableEq α] in
/-- The list of slots holds nothing but the old entries and the new one. -/
theorem mem_slotOf {β : Type} [DecidableEq β] {values : List β} {x y : β}
    (h : y ∈ (slotOf values x).2) : y ∈ values ∨ y = x := by
  unfold slotOf at h
  split at h
  · exact .inl h
  · rcases List.mem_append.mp h with h | h
    · exact .inl h
    · exact .inr (List.mem_singleton.mp h)

/-- **A given load** may be read. -/
theorem loadBasis_emits (hb : b.draft.ReadsOnly load component) {l : BasisLoad} (hl : load l) :
    b.Emits load component (b.loadBasis l) := by
  obtain ⟨hpre, hget⟩ := slotOf_spec b.loads l
  have hlonger : ({ b with loads := (slotOf b.loads l).2 } : ProgramBuilder α).draft.ReadsOnly load
      component := by
    refine ⟨hb.reads, ?_, hb.outputs, ?_, hb.components, hb.fields⟩
    · -- The list only grows at its end, so slots that are named stay listed.
      intro instr hinstr
      have hslots := hb.slots instr hinstr
      cases instr with
      | loadBasis slot => exact Nat.lt_of_lt_of_le hslots hpre.length_le
      | _ => exact hslots
    · intro old hold
      rcases mem_slotOf hold with hold | rfl
      · exact hb.loads old hold
      · exact hl
  have hslot := (List.getElem?_eq_some_iff.mp hget).1
  refine Emits.of_extends (c := { b with loads := (slotOf b.loads l).2 }) ?_
    (emit_emits hlonger (.loadBasis _) trivial hslot fun _ _ h => nomatch h)
  exact ⟨rfl, fun h => h, hpre, List.prefix_refl _, rfl⟩

/-- **A given component of a field** may be read. -/
theorem loadField_emits (hb : b.draft.ReadsOnly load component) {id c : Nat} (hc : component id c) :
    ∃ r, b.loadField id c = .ok r ∧ b.Emits load component r := by
  obtain ⟨hpre, hget⟩ := slotOf_spec b.fields id
  set slots := slotOf b.fields id with hs
  have hlonger : ({ b with fields := slots.2 } : ProgramBuilder α).draft.ReadsOnly load component := by
    refine ⟨hb.reads, ?_, hb.outputs, hb.loads, ?_, ?_⟩
    · intro instr hinstr
      have hslots := hb.slots instr hinstr
      cases instr with
      | loadField slot c => exact Nat.lt_of_lt_of_le hslots hpre.length_le
      | _ => exact hslots
    · intro slot d hmem id' hid
      -- An instruction that is there names a slot of the shorter list.
      have hslot : slot < b.fields.length := hb.slots _ hmem
      refine hb.components slot d hmem id' ?_
      rw [← hid]
      show b.fields[slot]? = slots.2[slot]?
      rw [List.prefix_iff_getElem?.mp hpre slot hslot, List.getElem?_eq_getElem hslot]
    · intro old hold
      rcases mem_slotOf (hs ▸ hold) with hold | rfl
      · exact hb.fields old hold
      · exact ⟨c, hc⟩
  have hslot := (List.getElem?_eq_some_iff.mp hget).1
  refine ⟨_, loadField_eq_ok b id c, Emits.of_extends (c := { b with fields := slots.2 })
    ⟨rfl, fun h => h, List.prefix_refl _, hpre, rfl⟩ (emit_emits hlonger (.loadField _ _) trivial hslot ?_)⟩
  rintro _ _ ⟨⟩ id' hid
  obtain rfl := Option.some.inj (hget.symm.trans hid)
  exact hc

omit [DecidableEq α] in
/-- **Adding a register to a slot** of the program. -/
theorem accumulate_readsOnly (hb : b.draft.ReadsOnly load component) {slot : Int} {register : Nat}
    {b' : ProgramBuilder α} (h : b.accumulate slot register = .ok b') :
    b'.draft.ReadsOnly load component ∧ b'.code = b.code ∧ b'.slots = b.slots := by
  obtain ⟨⟨⟩, hslot, h⟩ := bind_eq_ok_iff.mp h
  obtain ⟨⟨⟩, hregister, h⟩ := bind_eq_ok_iff.mp h
  obtain rfl := Except.ok.inj h
  obtain ⟨hnonneg, hlt⟩ := checkIndex_eq_ok_iff.mp hslot
  refine ⟨⟨hb.reads, hb.slots, ?_, hb.loads, hb.components, hb.fields⟩, rfl, rfl⟩
  refine List.forall_mem_append.mpr ⟨hb.outputs, List.forall_mem_singleton.mpr ⟨?_, ?_⟩⟩
  · exact (Int.toNat_lt hnonneg).mpr hlt
  · exact Int.ofNat_lt.mp (checkIndex_eq_ok_iff.mp hregister).2

omit [DecidableEq α] in
/-- A slot of the program and a register of the builder are accepted. -/
theorem accumulate_isOk {slot : Int} {register : Nat} (hnonneg : 0 ≤ slot) (hslot : slot < b.slots)
    (hregister : register < b.code.size) : ∃ b', b.accumulate slot register = .ok b' := by
  have hslotcheck : checkIndex .tapeSlot slot b.slots = .ok () :=
    checkIndex_eq_ok_iff.mpr ⟨hnonneg, hslot⟩
  have hregistercheck : checkIndex .tapeRegister register b.code.size = .ok () :=
    checkIndex_eq_ok_iff.mpr ⟨Int.natCast_nonneg _, Int.ofNat_lt.mpr hregister⟩
  exact ⟨_, by rw [accumulate, hslotcheck, hregistercheck]; rfl⟩

/-! ## (2) Finished programs -/

omit [DecidableEq α] in
/-- A kept element, from position `k` on, is one at a marked position, of which so many came before. -/
theorem exists_of_kept_from (marks : Array Bool) {β : Type} (values : List β) {v : β} :
    ∀ {k i : Nat}, (((values.zipIdx k).filter fun (_, i) => marks.getD i false).map Prod.fst)[i]? = some v →
      ∃ j, marked marks (k + j) = true ∧ values[j]? = some v ∧
        (List.range' k j).countP (marked marks) = i := by
  induction values with
  | nil => intro k i h; cases h
  | cons w values ih =>
    intro k i h
    rw [List.zipIdx_cons] at h
    -- The count goes up by one exactly if the first value is kept.
    by_cases hk : marked marks k = true
    · rw [List.filter_cons_of_pos (by simpa [marked] using hk), List.map_cons] at h
      cases i with
      | zero => exact ⟨0, hk, h, rfl⟩
      | succ i =>
        obtain ⟨j, hj, hv, hcount⟩ := ih h
        refine ⟨j + 1, by rwa [Nat.add_right_comm k 1 j] at hj, hv, ?_⟩
        rw [List.range'_succ, List.countP_cons, hcount, if_pos hk]
    · rw [List.filter_cons_of_neg (by simpa [marked] using hk)] at h
      obtain ⟨j, hj, hv, hcount⟩ := ih h
      refine ⟨j + 1, by rwa [Nat.add_right_comm k 1 j] at hj, hv, ?_⟩
      rw [List.range'_succ, List.countP_cons, hcount, if_neg hk, Nat.add_zero]

omit [DecidableEq α] in
/-- **A kept element is one at a marked position,** which has the place of the element as its rank. -/
theorem exists_of_kept_getElem? {marks : Array Bool} {β : Type} {values : List β} {v : β} {i : Nat}
    (h : (kept marks values)[i]? = some v) :
    ∃ j, marked marks j = true ∧ values[j]? = some v ∧ rank marks j = i := by
  obtain ⟨j, hj, hv, hcount⟩ := exists_of_kept_from marks values h
  rw [Nat.zero_add] at hj
  rw [← List.range_eq_range'] at hcount
  exact ⟨j, hj, hv, hcount⟩

omit [DecidableEq α] in
/-- **Every instruction of a finished program is a live one,** at its rank and renumbered. -/
theorem exists_of_finish_getElem? {i : Nat} {instr : Instr α} (h : b.finish.code[i]? = some instr) :
    ∃ j old, b.code[j]? = some old ∧ marked b.liveRegisters j = true ∧ rank b.liveRegisters j = i ∧
      b.renumbered old = instr := by
  rw [finish_code, List.getElem?_toArray, List.getElem?_map, Option.map_eq_some_iff] at h
  obtain ⟨old, hold, rfl⟩ := h
  obtain ⟨j, hlive, hj, hrank⟩ := exists_of_kept_getElem? hold
  exact ⟨j, old, by rwa [← Array.getElem?_toList], hlive, hrank, rfl⟩

omit [DecidableEq α] in
/-- A slot of a finished program stands for the field its instruction was made for. -/
theorem finish_fields (hb : b.WellFormed) {j slot c : Nat} (hj : b.code[j]? = some (.loadField slot c))
    (hlive : marked b.liveRegisters j = true) {slot' id : Nat}
    (hslot : b.renumbered (.loadField slot c) = .loadField slot' c) (hid : b.finish.fields[slot']? = some id) :
    b.fields[slot]? = some id := by
  have hmem : Instr.loadField slot c ∈ b.keptCode := mem_kept.mpr ⟨j, hlive, by rwa [Array.getElem?_toList]⟩
  have hlt : slot < b.fields.length := hb.slots hj
  obtain ⟨hsize, hall⟩ := usedSlots_spec b.fields.length fieldSlot? b.keptCode
  obtain ⟨-, hget⟩ := kept_getD_ranks hsize hlt (hall _ hmem slot rfl hlt) 0
  injection hslot with hslot
  rw [List.getElem?_eq_getElem hlt]
  rw [List.getD_eq_getElem?_getD, List.getD_eq_getElem?_getD, List.getElem?_eq_getElem hlt, hslot] at hget
  exact congrArg some (hget.symm.trans (by rw [show (kept (usedSlots b.fields.length fieldSlot? b.keptCode)
    b.fields)[slot']? = some id from hid]; rfl))

omit [DecidableEq α] in
/-- **Finishing adds nothing to what a program reads.** -/
theorem finish_readsOnly (hb : b.draft.ReadsOnly load component) : b.finish.ReadsOnly load component := by
  have hwf := wellFormed_of_readsOnly hb
  have hsub : ∀ {β : Type} {marks : Array Bool} {values : List β} {v : β}, v ∈ kept marks values →
      v ∈ values := by
    intro β marks values v hv
    obtain ⟨i, -, hi⟩ := mem_kept.mp hv
    exact List.mem_of_getElem? hi
  refine ⟨fun i instr hi => ?reads, finish_slotsListed hwf, fun o ho => ?outputs,
    fun l hl => hb.loads l (hsub hl), fun slot c hmem id hid => ?components,
    fun id hid => hb.fields id (hsub hid)⟩
  case reads =>
    -- What is left comes from a live instruction, and its operands were renumbered with it.
    obtain ⟨j, old, hj, hlive, rfl, rfl⟩ := exists_of_finish_getElem? hi
    exact (renumbered_spec hwf hj hlive).1
  case outputs =>
    obtain ⟨⟨slot, register⟩, hmem, rfl⟩ := List.mem_map.mp ho
    obtain ⟨hslot, hregister⟩ := hb.outputs _ hmem
    obtain ⟨hsize, hlive, -⟩ := liveRegisters_spec hwf
    refine ⟨hslot, ?_⟩
    have hget := finish_getElem? (Array.getElem?_eq_getElem hregister) (hlive _ hmem)
    show (ranks b.liveRegisters).getD register 0 < b.finish.code.size
    rw [ranks_getD _ (hsize.symm ▸ hregister)]
    exact (Array.getElem?_eq_some_iff.mp hget).1
  case components =>
    obtain ⟨i, hi⟩ := Array.getElem?_of_mem hmem
    obtain ⟨j, old, hj, hlive, -, hold⟩ := exists_of_finish_getElem? hi
    cases old with
    | loadField slot' c' =>
      obtain rfl : c' = c := by injection hold
      exact hb.components slot' c' (Array.mem_of_getElem? hj) id (finish_fields hwf hj hlive hold hid)
    | _ => cases hold

end ProgramBuilder

end Galerkin
