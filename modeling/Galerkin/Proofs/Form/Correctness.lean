import Galerkin.Proofs.Exact
import Galerkin.Proofs.Form.Lowering
import Mathlib.Algebra.Order.Field.Rat

/-! # Programs of forms are correct

The registers of a field hold the values of the field, whether they are loaded, lowered from the
definition of a local field, or kept from an earlier reference. So the program of a form adds to each
slot the values that the form accumulates there, one after the other.

* **`Form.Valid.length_fieldValues`** — fields have as many values as their shapes say;
* **`fieldRegisters_achieves`** — the registers of a field;
* **`lowerForm_evaluateAt`** — what the program of a form adds to a slot;
* **`lowerForm_isOk`** — a form whose references match has a program;
* **`lowerForm_correct`** — both, for the forms of a builder. -/

namespace Galerkin

variable {α : Type} [Scalar α] {form : Form α} {point : PointData α} {target : LoweringTarget}

/-! ## (1) What references refer to -/

/-- **Fields have as many values as their shapes say** where references match. -/
theorem Form.Valid.length_fieldValues (hform : form.Valid) (hrefs : form.ReferencesMatch)
    {f : FieldVariable α} (hf : f ∈ form.fields) :
    (form.fieldValues point f.name).length = f.shape.size := by
  -- A definition refers to fields of smaller numbers.
  induction hid : f.id using Nat.strong_induction_on generalizing f with
  | _ n ih =>
    rw [hform.fieldValues_eq point hf]
    cases harray : f.isArray with
    | true =>
      rw [f.values_of_isArray harray, FieldVariable.stored, List.length_map, Shape.length_positions]
    | false =>
      obtain ⟨o, ho⟩ := FieldVariable.perEntry_of_not_isArray harray
      obtain ⟨e, rfl, hbuilt, hshape, hnodes⟩ := hform.locals f hf o ho
      rw [f.values_of_perEntry ho, ← hshape]
      refine Expr.length_values hbuilt.wellShaped fun name shape symmetric hnode => ?_
      obtain ⟨g, hg, rfl, hlt, -⟩ := hnodes _ hnode
      have hmatch := hrefs.1 f hf e (by rw [ho]; rfl) g.name shape symmetric hnode g hg rfl
      rw [ih g.id (hid ▸ hlt) hg rfl, hmatch.1]

/-- A field is sure to be found by its name: its number is below `bound`, and it is an array field where
only those can be looked up. -/
def Form.Reaches (form : Form α) (target : LoweringTarget) (bound : Nat) (name : String) : Prop :=
  form.ReferencesMatch ∧ ∃ f ∈ form.fields, f.name = name ∧ f.id < bound ∧
    (target = .grid → f.isArray = true)

/-- **Expressions over the first fields are sure to be lowered** where references match. -/
theorem Form.Valid.lowerable (hform : form.Valid) (hrefs : form.ReferencesMatch) {e : Expr α}
    (hbuilt : e.Built) (hmatch : form.Matches e) {bound : Nat} {arraysOnly : Bool}
    (harrays : arraysOnly = false ↔ target = .kernel)
    (hnodes : ∀ node ∈ e.nodes, form.Resolves bound arraysOnly node) :
    Lowerable form target point (form.Reaches target bound) e where
  wellShaped := hbuilt.wellShaped
  fields name shape symmetric hnode := by
    obtain ⟨f, hf, rfl, hlt, harray⟩ := hnodes _ hnode
    refine ⟨⟨hrefs, f, hf, rfl, hlt, fun hgrid => harray ?_⟩, ?_⟩
    · by_contra hkernel
      have htarget := harrays.mp (Bool.eq_false_iff.mpr hkernel)
      rw [hgrid] at htarget
      cases htarget
    · rw [hform.length_fieldValues hrefs hf, (hmatch f.name shape symmetric hnode f hf rfl).1]
  derivs basis orders hnode := by
    obtain ⟨rfl, -, hbasis⟩ := hnodes _ hnode
    refine ⟨harrays.mp rfl, ?_⟩
    rcases hbasis with rfl | ⟨rfl, harity⟩
    · exact ⟨.test, rfl⟩
    · refine ⟨.trial, ?_⟩
      rw [basisRole, harity]
      rfl

/-! ## (2) Outputs -/

variable {s : LoweringState α}

/-- **What a lowering has done after some accumulations:** there is one output for each, in order, and
its register holds the value that is accumulated. -/
structure LoweringState.Summed (s : LoweringState α) (form : Form α) (point : PointData α)
    (sums : List (Accumulation α)) : Prop where
  sound : s.Sound form point
  slots : s.builder.slots = form.outputSlots
  outputs : List.Forall₂ (fun a o => (o.1 : Int) = a.slot ∧
    s.builder.Holds point o.2 (form.scalarOf point a.expression)) sums s.builder.outputs

/-- Outputs keep their values while a builder grows. -/
theorem LoweringState.Summed.grow {s' : LoweringState α} {sums : List (Accumulation α)}
    (h : s.Summed form point sums) (hs' : s'.Sound form point) (hgrows : s.Grows s') :
    s'.Summed form point sums where
  sound := hs'
  slots := hgrows.slots.trans h.slots
  outputs := by
    rw [hgrows.outputs]
    exact h.outputs.imp fun _ _ ho =>
      ⟨ho.1, ho.2.extend h.sound.wellFormed hs'.wellFormed hgrows⟩

/-- The state with one more output. -/
def LoweringState.output (s : LoweringState α) (slot register : Nat) : LoweringState α :=
  { s with builder := { s.builder with outputs := s.builder.outputs ++ [(slot, register)] } }

omit [Scalar α] in
/-- **Adding a register to a slot** is an output more, and changes nothing else. -/
theorem emitOutput_spec {sure : Prop} {slot : Int} {r : Nat} (hr : r < s.builder.code.size)
    (hsure : sure → 0 ≤ slot ∧ slot < s.builder.slots) :
    Achieves sure (emitOutput slot r) s fun _ s' => 0 ≤ slot ∧ s' = s.output slot.toNat r := by
  unfold emitOutput
  refine Achieves.get.bind ?_
  rintro _ _ ⟨rfl, rfl⟩
  have hregister : checkIndex .tapeRegister r s.builder.code.size = .ok () :=
    checkIndex_eq_ok_iff.mpr ⟨Int.natCast_nonneg _, Int.ofNat_lt.mpr hr⟩
  refine (Achieves.lift (P := fun b t => s = t ∧ 0 ≤ slot ∧
    b = { s.builder with outputs := s.builder.outputs ++ [(slot.toNat, r)] }) ?_ ?_).bind ?_
  · intro h
    have hslot : checkIndex .tapeSlot slot s.builder.slots = .ok () :=
      checkIndex_eq_ok_iff.mpr (hsure h)
    exact ⟨_, by rw [ProgramBuilder.accumulate, hslot, hregister]; rfl⟩
  · intro b hb
    obtain ⟨⟨⟩, hslot, hb⟩ := bind_eq_ok_iff.mp hb
    obtain ⟨⟨⟩, -, hb⟩ := bind_eq_ok_iff.mp hb
    exact ⟨rfl, (checkIndex_eq_ok_iff.mp hslot).1, (Except.ok.inj hb).symm⟩
  rintro _ _ ⟨rfl, hnonneg, rfl⟩
  exact Achieves.set.mono id fun _ _ h => ⟨hnonneg, h.symm⟩

/-- **An output keeps a lowering sound,** for values of registers do not depend on outputs. -/
theorem LoweringState.Sound.output (hs : s.Sound form point) (slot : Nat) {r : Nat}
    (hr : r < s.builder.code.size) : (s.output slot r).Sound form point := by
  refine ⟨⟨hs.wellFormed.reads, hs.wellFormed.slots, ?_⟩, hs.locals⟩
  exact List.forall_mem_append.mpr ⟨hs.wellFormed.outputs, List.forall_mem_singleton.mpr hr⟩

/-- An output more is an accumulation more. -/
theorem emitOutput_achieves {sure : Prop} {sums : List (Accumulation α)}
    (hs : s.Summed form point sums) {a : Accumulation α} {r : Nat}
    (hr : s.builder.Holds point r (form.scalarOf point a.expression))
    (hsure : sure → 0 ≤ a.slot ∧ a.slot < form.outputSlots) :
    Achieves sure (emitOutput a.slot r) s fun _ s' => s'.Summed form point (sums ++ [a]) := by
  refine (emitOutput_spec hr.1 fun h => hs.slots ▸ hsure h).mono id ?_
  rintro _ _ ⟨hnonneg, rfl⟩
  refine ⟨hs.sound.output _ hr.1, hs.slots, ?_⟩
  exact List.rel_append hs.outputs (.cons ⟨Int.toNat_of_nonneg hnonneg, hr⟩ .nil)

/-- The lowering of a form starts with no instructions and no sums. -/
theorem summed_empty (form : Form α) (point : PointData α) :
    ({ builder := { slots := form.outputSlots } } : LoweringState α).Summed form point [] :=
  ⟨⟨ProgramBuilder.wellFormed_empty _, fun _ h => nomatch h⟩, rfl, .nil⟩

/-- The values that the outputs add to a slot are those of the accumulations. -/
theorem LoweringState.Summed.terms {sums : List (Accumulation α)} (h : s.Summed form point sums)
    (slot : Nat) :
    ((s.builder.outputs.map fun o => (o.1, s.builder.value point o.2)).filter
      fun t => t.1 = slot).map Prod.snd =
        (sums.filter fun a => a.slot = (slot : Int)).map
          fun a => form.scalarOf point a.expression := by
  obtain ⟨-, -, hall⟩ := h
  generalize s.builder.outputs = outputs at hall ⊢
  induction hall with
  | nil => rfl
  | @cons a o sums outputs ho _ ih =>
    rw [List.map_cons, List.filter_cons, List.filter_cons]
    have hslot : o.1 = slot ↔ a.slot = slot := by rw [← ho.1, Int.ofNat_inj]
    by_cases heq : o.1 = slot
    · rw [if_pos (decide_eq_true heq), if_pos (decide_eq_true (hslot.mp heq)), List.map_cons,
        List.map_cons, ih, ho.2.2]
    · rw [if_neg (by simpa using heq), if_neg (by simpa using mt hslot.mpr heq), ih]

/-! ## (3) Registers of fields -/

variable [DecidableEq α]

section Lookups

variable {f : FieldVariable α} {name : String}

omit [Scalar α] [DecidableEq α] in
/-- A step that succeeds without looking at the state hands its result on. -/
theorem liftM_ok_bind {β γ : Type} (x : β) (g : β → LoweringM α γ) :
    ((liftM (.ok x : Except Error β) : LoweringM α β) >>= g) = g x := rfl

/-- **An array field is loaded,** component by component. -/
theorem fieldRegisters_array (target : LoweringTarget) (hfield : form.field name = .ok f)
    (harray : f.isArray = true) (depth : Nat) :
    fieldRegisters form target (depth + 1) name = f.shape.positions.mapM fun (i, j) =>
      (tryEmit fun b => b.loadField f.id (f.backingIndex i j) : LoweringM α Nat) := by
  rw [fieldRegisters, hfield, liftM_ok_bind, if_pos harray]

/-- **A local field is lowered once.** After that its registers are kept. -/
theorem fieldRegisters_local (hfield : form.field name = .ok f) (hlocal : f.isArray = false) (depth : Nat) :
    fieldRegisters form .kernel (depth + 1) name = (do
      match (← get).locals.find? (·.1 == f.id) with
      | some (_, registers) => pure registers
      | none =>
        let registers ← lowerOperand form .kernel (fieldRegisters form .kernel depth) f.definition.expression
        modify fun s => { s with locals := (f.id, registers) :: s.locals }
        pure registers) := by
  rw [fieldRegisters, hfield, liftM_ok_bind, if_neg (Bool.eq_false_iff.mp hlocal)]
  exact liftM_ok_bind () _

end Lookups

variable [CommutativeScalar α]

/-- The registers of an array field hold its stored components. -/
theorem loadStored_achieves {sure : Prop} (hs : s.Sound form point) (f : FieldVariable α) :
    Achieves sure (f.shape.positions.mapM fun (i, j) =>
      (tryEmit fun b => b.loadField f.id (f.backingIndex i j) : LoweringM α Nat)) s
      (Lowered form point s (f.stored point)) := by
  refine (mapM_achieves (P := fun _ => True)
    (g := fun p : Nat × Nat => point.field f.id (f.backingIndex p.1 p.2)) hs ?_).mono id fun _ _ h => h.2
  rintro ⟨i, j⟩ - t ht -
  exact (tryEmit_achieves ht (ProgramBuilder.loadField_spec ht.wellFormed point _ _)).mono id
    fun _ _ h => ⟨trivial, h⟩

/-- **The registers of a field hold its values.** A form has no longer chain of local fields than
`depth` if the number of the field is below `depth`. -/
theorem fieldRegisters_achieves (hform : form.Valid) (depth : Nat) :
    ∀ name s, s.Sound form point → Achieves (form.Reaches target depth name)
      (fieldRegisters form target depth name) s
      (Lowered form point s (form.fieldValues point name)) := by
  induction depth with
  | zero =>
    intro name s _
    refine .throw ?_
    rintro ⟨-, f, -, -, hlt, -⟩
    exact Nat.not_lt_zero _ hlt
  | succ depth ih =>
    intro name s hs
    rw [fieldRegisters]
    refine (Achieves.lift (P := fun f t => s = t ∧ f ∈ form.fields ∧ f.name = name) ?_ ?_).bind ?_
    · rintro ⟨-, f, hf, rfl, -⟩
      exact ⟨f, hform.field_eq_ok hf⟩
    · exact fun f hf => ⟨rfl, Form.field_eq_ok hf⟩
    rintro f _ ⟨rfl, hf, rfl⟩
    cases harray : f.isArray with
    | true =>
      rw [if_pos rfl, hform.fieldValues_eq point hf, f.values_of_isArray harray]
      exact loadStored_achieves hs f
    | false =>
      obtain ⟨o, ho⟩ := FieldVariable.perEntry_of_not_isArray harray
      obtain ⟨e, rfl, hbuilt, hshape, hnodes⟩ := hform.locals f hf o ho
      have hvalues : form.fieldValues point f.name = form.valuesOf point e := by
        rw [hform.fieldValues_eq point hf, f.values_of_perEntry ho, Form.valuesOf]
      have hkernel : form.Reaches target (depth + 1) f.name → target = .kernel := by
        rintro ⟨-, g, hg, hname, -, hgrid⟩
        rw [hform.eq_of_name hg hf hname, harray] at hgrid
        cases target with
        | kernel => rfl
        | grid => cases hgrid rfl
      rw [if_neg (by decide)]
      refine (Achieves.lift (P := fun _ t => s = t)
        (fun h => ⟨(), require_eq_ok_iff.mpr (beq_iff_eq.mpr (hkernel h))⟩) fun _ _ => rfl).bind ?_
      rintro _ _ rfl
      refine Achieves.get.bind ?_
      rintro _ _ ⟨rfl, rfl⟩
      split
      · -- The field has been lowered before.
        rename_i id registers hfind
        obtain ⟨hmem, hid⟩ := mem_of_find?_key hfind
        exact .pure ⟨hs, .refl s, hs.locals _ hmem f hf hid.symm⟩
      · have hexpr : f.definition.expression = some e := by rw [ho]; rfl
        rw [hexpr, lowerOperand, hvalues]
        refine ((lower_achieves ih e s hs).mono (fun h => ?_) fun _ _ h => h).bind ?_
        · have htarget := hkernel h
          obtain ⟨hrefs, g, hg, hname, hlt, -⟩ := h
          rw [hform.eq_of_name hg hf hname] at hlt
          refine hform.lowerable hrefs hbuilt (hrefs.1 f hf e hexpr) (iff_of_true rfl htarget)
            fun node hnode => ?_
          exact .mono (Nat.le_of_lt_succ hlt) (hnodes node hnode)
        intro registers t ht
        refine Achieves.modify.bind ?_
        rintro _ _ rfl
        refine .pure ⟨⟨ht.sound.wellFormed, ?_⟩, ht.grows, ht.holds⟩
        refine List.forall_mem_cons.mpr ⟨fun g hg hid => ?_, ht.sound.locals⟩
        rw [hform.eq_of_id hg hf hid, hvalues]
        exact ht.holds

/-! ## (4) Programs of forms -/

/-- **Lowering an accumulation** adds its value to its slot. -/
theorem lowerAccumulation_achieves (hform : form.Valid) {sums : List (Accumulation α)}
    (hs : s.Summed form point sums) (a : Accumulation α) :
    Achieves (form.ReferencesMatch ∧ a ∈ form.accumulations) (lowerAccumulation form a) s
      fun _ s' => s'.Summed form point (sums ++ [a]) := by
  obtain ⟨slot, o⟩ := a
  unfold lowerAccumulation lowerIn
  cases o with
  | none =>
    refine Achieves.bind (Q := fun _ _ => False) (.throw ?_) fun _ _ h => h.elim
    rintro ⟨-, ha⟩
    obtain ⟨e, he, -⟩ := hform.sums _ ha
    cases he
  | some e =>
    have hsum : ⟨slot, some e⟩ ∈ form.accumulations → e.Built ∧ e.shape.isScalar = true ∧
        0 ≤ slot ∧ slot < form.outputSlots ∧
        ∀ node ∈ e.nodes, form.Resolves form.fields.length false node := by
      intro ha
      obtain ⟨x, hx, h⟩ := hform.sums _ ha
      obtain rfl := Option.some.inj hx
      exact h
    refine ((lower_achieves (fieldRegisters_achieves hform _) e s hs.sound).mono (fun h => ?_)
      fun _ _ h => h).bind fun registers t ht => ?_
    · obtain ⟨hbuilt, -, -, -, hnodes⟩ := hsum h.2
      refine hform.lowerable h.1 hbuilt (h.1.2 _ h.2 e rfl) (iff_of_true rfl rfl) fun node hnode => ?_
      exact .mono (Nat.le_succ _) (hnodes node hnode)
    refine (registerAt_achieves ht.holds fun h => ?_).bind ?_
    · obtain ⟨hbuilt, -, -, -, hnodes⟩ := hsum h.2
      have hlow : Lowerable form .kernel point
          (form.Reaches .kernel (form.fields.length + 1)) e :=
        hform.lowerable h.1 hbuilt (h.1.2 _ h.2 e rfl) (iff_of_true rfl rfl) fun node hnode =>
          .mono (Nat.le_succ _) (hnodes node hnode)
      rw [hlow.length_valuesOf]
      exact hbuilt.wellShaped.size_pos
    rintro r _ ⟨rfl, -, hr⟩
    refine emitOutput_achieves (a := ⟨slot, some e⟩) (hs.grow ht.sound ht.grows) hr fun h => ?_
    obtain ⟨-, -, hnonneg, hlt, -⟩ := hsum h.2
    exact ⟨hnonneg, hlt⟩

/-- **Lowering all accumulations,** one after the other. -/
theorem lowerAccumulations_achieves (hform : form.Valid) (point : PointData α) :
    Achieves form.ReferencesMatch (form.accumulations.forM (lowerAccumulation form))
      { builder := { slots := form.outputSlots } } fun _ (s : LoweringState α) =>
        s.Summed form point form.accumulations :=
  Achieves.forM (C := fun sums (s : LoweringState α) => s.Summed form point sums) (l := []) (summed_empty form point)
    fun _ a _ ht => lowerAccumulation_achieves hform ht a

omit [Scalar α] [DecidableEq α] [CommutativeScalar α] in
/-- There is no program without slots. -/
theorem programOf_eq_ok_iff {slots : Nat} {steps : LoweringM α Unit} {p : Program α} :
    programOf slots steps = .ok p ↔ 1 ≤ slots ∧
      ∃ s, steps.run { builder := { slots } } = .ok ((), s) ∧ s.builder.finish = p := by
  have hmake : ∀ b : ProgramBuilder α, ProgramBuilder.make slots = .ok b ↔
      1 ≤ slots ∧ { slots } = b := by
    intro b
    rw [ProgramBuilder.make, require_bind_eq_ok_iff, decide_eq_true_iff]
    exact and_congr (by omega) ⟨Except.ok.inj, congrArg _⟩
  rw [programOf, bind_eq_ok_iff]
  constructor
  · rintro ⟨b, hb, h⟩
    obtain ⟨hslots, rfl⟩ := (hmake b).mp hb
    obtain ⟨⟨⟨⟩, s⟩, hs, h⟩ := bind_eq_ok_iff.mp h
    exact ⟨hslots, s, hs, Except.ok.inj h⟩
  · rintro ⟨hslots, s, hs, rfl⟩
    exact ⟨_, (hmake _).mpr ⟨hslots, rfl⟩, bind_eq_ok_iff.mpr ⟨((), s), hs, rfl⟩⟩

omit [CommutativeScalar α] in
/-- A form without slots has no program. -/
theorem lowerForm_eq_ok_iff {p : Program α} :
    lowerForm form = .ok p ↔ 1 ≤ form.outputSlots ∧
      ∃ s, (form.accumulations.forM (lowerAccumulation form)).run
        { builder := { slots := form.outputSlots } } = .ok ((), s) ∧ s.builder.finish = p :=
  programOf_eq_ok_iff

/-- **What the program of a form adds to a slot:** the values that the form accumulates there, one after
the other. -/
theorem lowerForm_evaluateAt (hform : form.Valid) {p : Program α} (h : lowerForm form = .ok p)
    (point : PointData α) (sums : Array α) :
    (p.evaluateAt point sums).size = sums.size ∧ ∀ slot,
      (p.evaluateAt point sums)[slot]? =
        sums[slot]?.map fun start => (form.accumulated point slot).foldl (· + ·) start := by
  obtain ⟨-, s, hs, rfl⟩ := lowerForm_eq_ok_iff.mp h
  have hsummed := (lowerAccumulations_achieves hform point).2 _ _ hs
  have hterms : s.builder.finish.evaluateAt point sums = Program.addTerms sums
      (s.builder.outputs.map fun o => (o.1, s.builder.value point o.2)) := by
    rw [ProgramBuilder.finish_evaluateAt hsummed.sound.wellFormed]
    exact s.builder.draft.evaluateAt_eq_addTerms point sums
  rw [hterms]
  refine ⟨Program.size_addTerms _ _, fun slot => ?_⟩
  rw [Program.getElem?_addTerms, hsummed.terms, Form.accumulated]

/-- **A program of a form** has the slots of the form and reads listed slots only. -/
theorem lowerForm_slots (hform : form.Valid) {p : Program α} (h : lowerForm form = .ok p) :
    p.slots = form.outputSlots ∧ p.SlotsListed := by
  obtain ⟨-, s, hs, rfl⟩ := lowerForm_eq_ok_iff.mp h
  -- Which point is looked at is immaterial here.
  have hsummed := (lowerAccumulations_achieves hform
    ⟨fun _ => Scalar.zero, fun _ _ => Scalar.zero⟩).2 _ _ hs
  exact ⟨hsummed.slots, ProgramBuilder.finish_slotsListed hsummed.sound.wellFormed⟩

/-- **A form whose references match has a program.** -/
theorem lowerForm_isOk (hform : form.Valid) (hrefs : form.ReferencesMatch)
    (hne : form.accumulations ≠ []) : ∃ p, lowerForm form = .ok p := by
  obtain ⟨a, ha⟩ := List.exists_mem_of_ne_nil _ hne
  obtain ⟨e, -, -, -, hnonneg, hlt, -⟩ := hform.sums a ha
  have hslots : 1 ≤ form.outputSlots := by omega
  -- Which point is looked at is immaterial here.
  obtain ⟨⟨⟨⟩, s⟩, hs⟩ := (lowerAccumulations_achieves hform
    ⟨fun _ => Scalar.zero, fun _ _ => Scalar.zero⟩).1 hrefs
  exact ⟨_, lowerForm_eq_ok_iff.mpr ⟨hslots, s, hs, rfl⟩⟩

/-- **Compilation is correct.** The program of a form that a builder returns, and whose references match,
adds to each slot the values that are accumulated there, in order; the values of the fields are those
their definitions have over the same values. No law of arithmetic is used but that addition and
multiplication commute. -/
theorem lowerForm_correct {b : FormBuilder α} (hb : b.Reachable) (h : b.finalize = .ok form)
    (hrefs : form.ReferencesMatch) :
    ∃ p, lowerForm form = .ok p ∧ ∀ (point : PointData α) (sums : Array α),
      (∀ f ∈ form.fields, form.fieldValues point f.name = f.values point (form.fieldValues point)) ∧
        (p.evaluateAt point sums).size = sums.size ∧ ∀ slot,
          (p.evaluateAt point sums)[slot]? =
            sums[slot]?.map fun start => (form.accumulated point slot).foldl (· + ·) start := by
  have hform := hb.valid.form h
  obtain ⟨hne, rfl⟩ := FormBuilder.finalize_eq_ok h
  obtain ⟨p, hp⟩ := lowerForm_isOk hform hrefs hne
  exact ⟨p, hp, fun point sums =>
    ⟨fun f hf => hform.fieldValues_eq point hf, lowerForm_evaluateAt hform hp point sums⟩⟩

/-- A form over the rational numbers that adds the square of a local field to its slot. -/
def squareForm : Form ℚ where
  name := "square"
  dim := 1
  arity := .linear
  components := 1
  symmetric := false
  fields := [⟨0, "w", .scalar, false, .perEntry (some (.deriv "v" [0]))⟩]
  accumulations := [⟨0, some (.binary .mul (.field "w" .scalar false) (.field "w" .scalar false))⟩]
  requirements := {}

/-- The program of this form loads the derivative once and adds its square. -/
theorem lowerForm_correct_squareForm :
    (∃ b : FormBuilder ℚ, b.Reachable ∧ b.finalize = .ok squareForm) ∧
      squareForm.ReferencesMatch ∧ ∃ p, lowerForm squareForm = .ok p ∧
        ∀ (point : PointData ℚ) (r : ℚ), (p.evaluateAt point #[r])[0]? =
          some (r + point.basis ⟨.test, [0]⟩ * point.basis ⟨.test, [0]⟩) := by
  have hfield : (Expr.field "w" .scalar false : Expr ℚ).Built :=
    .field (e := .field "w" .scalar false) (rfl : Expr.ofField "w" .scalar false = _)
  have hsquare : (Expr.binary .mul (.field "w" .scalar false) (.field "w" .scalar false) :
      Expr ℚ).Built := .arith hfield hfield (rfl : Operand.arith .mul _ _ = _)
  have hderiv : (Expr.deriv "v" [0] : Expr ℚ).Built := .deriv (rfl : Expr.ofDeriv "v" [0] = _)
  have hb : ∃ b : FormBuilder ℚ, b.Reachable ∧ b.finalize = .ok squareForm :=
    ⟨_, .call (c := .addToSlot 0 (some _)) (.call (c := .defineLocal "w" (some _))
      (.make (rfl : FormBuilder.make "square" 1 .linear 1 false = _)) fun e he =>
        Option.some.inj he ▸ hderiv) fun e he => Option.some.inj he ▸ hsquare, rfl⟩
  obtain ⟨b, hreach, hfinal⟩ := hb
  have hrefs : squareForm.ReferencesMatch := by
    refine ⟨?_, ?_⟩
    · intro f hf e he name shape symmetric hnode
      obtain rfl := List.mem_singleton.mp hf
      obtain rfl := Option.some.inj he
      simp [Expr.nodes] at hnode
    · intro a ha e he name shape symmetric hnode f hf _
      obtain rfl := List.mem_singleton.mp ha
      obtain rfl := List.mem_singleton.mp hf
      obtain rfl := Option.some.inj he
      simp only [Expr.nodes, List.cons_append, List.nil_append, List.mem_cons, reduceCtorEq,
        Expr.field.injEq, List.not_mem_nil, or_self, or_false, false_or] at hnode
      exact hnode.2
  obtain ⟨p, hp, hvalues⟩ := lowerForm_correct hreach hfinal hrefs
  refine ⟨⟨b, hreach, hfinal⟩, hrefs, p, hp, fun point r => ?_⟩
  rw [(hvalues point #[r]).2.2 0]
  rfl

end Galerkin
