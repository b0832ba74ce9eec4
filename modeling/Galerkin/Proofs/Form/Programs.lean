import Galerkin.Proofs.Form.Coherence
import Galerkin.Proofs.Form.Reading

/-! # The programs of a form

The program of a form reads derivatives of basis functions with one order per axis, at most the highest
order of the form, and components of its array fields. The program of a precomputed field reads components
of the array fields before it and nothing else.

* **`lowerForm_reads`**, **`lowerField_reads`** — what the programs of a form read;
* **`Form.SizesMatch`** — references carry the sizes of their fields;
* **`FormBuilder.Reachable.lowering_total`** — exactly then nothing fails when the form is lowered, and every
  expression becomes as many registers as its shape says. -/

namespace Galerkin

variable {α : Type}

/-! ## (1) What may be read -/

namespace Form

/-- **The derivatives of basis functions a form can ask for:** one order for each axis, at most the
highest order, and of the trial function in a bilinear form only. -/
structure AdmitsLoad (form : Form α) (l : BasisLoad) : Prop where
  length : l.orders.length = form.dim
  orders : ∀ d ∈ l.orders, 0 ≤ d ∧ d ≤ form.requirements.maxDeriv
  trial : l.role = .trial → form.arity = .bilinear

/-- **The stored components of the array fields** with numbers below `bound`. -/
def HasComponent (form : Form α) (bound id c : Nat) : Prop :=
  ∃ f ∈ form.fields, f.id = id ∧ f.id < bound ∧ f.isArray = true ∧ c < f.storageSize

variable {form : Form α}

/-- The components of an array field may be read. -/
theorem hasComponent {bound : Nat} : ∀ f ∈ form.fields, f.id < bound → f.isArray = true →
    ∀ c < f.storageSize, form.HasComponent bound f.id c :=
  fun f hf hlt harray _ hc => ⟨f, hf, rfl, hlt, harray, hc⟩

/-- **The derivatives in an expression that is evaluated with basis functions** are loads of the form. -/
theorem Valid.admitsLoad (horders : form.BoundsOrders) {e : Expr α}
    (he : form.Evaluates e) {bound : Nat} (hnodes : ∀ node ∈ e.nodes, form.Resolves bound false node) :
    form.Admits .kernel bound form.AdmitsLoad e where
  resolves := hnodes
  loads basis orders hnode role hrole := by
    obtain ⟨-, hlength, hbasis⟩ := hnodes _ hnode
    refine ⟨(List.length_map _).trans hlength, ?_, ?_⟩
    · intro d hd
      obtain ⟨n, hn, rfl⟩ := List.mem_map.mp hd
      exact ⟨Int.natCast_nonneg n, Int.ofNat_le.mpr (horders e he basis orders hnode n hn)⟩
    · intro htrial
      rcases hbasis with rfl | ⟨-, harity⟩
      · -- The role of the test function is not that of the trial function.
        obtain rfl := Except.ok.inj hrole
        cases htrial
      · exact harity

/-- The definitions of local fields ask for loads of the form. -/
theorem Valid.admits_local (hform : form.Valid) (horders : form.BoundsOrders)
    {target : LoweringTarget} (htarget : target = .kernel) :
    ∀ f ∈ form.fields, ∀ e, f.definition = .perEntry (some e) →
      form.Admits target f.id form.AdmitsLoad e := by
  intro f hf e he
  subst htarget
  obtain ⟨x, hx, -, -, hnodes⟩ := hform.locals f hf _ he
  obtain rfl := Option.some.inj hx
  exact Valid.admitsLoad horders (.inr ⟨f, hf, he⟩) hnodes

/-- Accumulated expressions ask for loads of the form. -/
theorem Valid.admits_sum (hform : form.Valid) (horders : form.BoundsOrders) :
    ∀ a ∈ form.accumulations, ∀ e, a.expression = some e →
      form.Admits .kernel form.fields.length form.AdmitsLoad e := by
  intro a ha e he
  obtain ⟨x, hx, -, -, -, -, hnodes⟩ := hform.sums a ha
  obtain rfl := Option.some.inj (hx.symm.trans he)
  exact Valid.admitsLoad horders (.inl ⟨a, ha, he⟩) hnodes

/-- The definition of a precomputed field asks for no load. -/
theorem Valid.admits_precomputed (hform : form.Valid) (load : BasisLoad → Prop) :
    ∀ f ∈ form.fields, ∀ e, f.definition = .precomputed (some e) → form.Admits .grid f.id load e := by
  intro f hf e he
  obtain ⟨x, hx, -, -, hnodes⟩ := hform.precomputed f hf _ he
  obtain rfl := Option.some.inj hx
  exact ⟨hnodes, fun basis orders hnode => nomatch (hnodes _ hnode).1⟩

/-! ## (2) References that match -/

/-- **Every reference carries the size of the field it refers to.** -/
structure SizesMatch (form : Form α) : Prop where
  definitions : ∀ f ∈ form.fields, ∀ e, f.definition.expression = some e → form.SizesMatchIn e
  sums : ∀ a ∈ form.accumulations, ∀ e, a.expression = some e → form.SizesMatchIn e

/-- References that carry shapes carry sizes. -/
theorem ReferencesMatch.sizesMatch (h : form.ReferencesMatch) : form.SizesMatch where
  definitions f hf e he name shape symmetric hnode g hg hname :=
    congrArg Shape.size (h.1 f hf e he name shape symmetric hnode g hg hname).1
  sums a ha e he name shape symmetric hnode g hg hname :=
    congrArg Shape.size (h.2 a ha e he name shape symmetric hnode g hg hname).1

/-- Then the definitions of local fields do. -/
theorem SizesMatch.localsSized (h : form.SizesMatch) (bound : Nat) : form.LocalsSized bound :=
  fun f hf _ e he => h.definitions f hf e (by rw [he]; rfl)

/-- Then a well-shaped expression has as many registers as its shape says. -/
theorem SizesMatch.sizes (h : form.SizesMatch) {e : Expr α} (he : e.WellShaped)
    (hrefs : form.SizesMatchIn e) : form.Sizes e :=
  ⟨he, fun name shape symmetric hnode f hf hname =>
    ⟨h.localsSized _, hrefs name shape symmetric hnode f hf hname⟩⟩

end Form

/-! ## (3) Outputs -/

variable {form : Form α} {load : BasisLoad → Prop} {component : Nat → Nat → Prop}
  {s : LoweringState α} {slots : Nat}

/-- A regular lowering for a program with a given number of slots. -/
structure LoweringState.Building (s : LoweringState α) (form : Form α) (load : BasisLoad → Prop)
    (component : Nat → Nat → Prop) (slots : Nat) : Prop where
  regular : s.Regular form load component
  slots : s.builder.slots = slots

/-- Adding a register to a slot. -/
theorem emitOutput_regular {sure : Prop} (hs : s.Building form load component slots) {slot : Int}
    {r : Nat} (hr : r < s.builder.code.size) (hsure : sure → 0 ≤ slot ∧ slot < slots) :
    Achieves sure (emitOutput slot r) s fun _ s' =>
      s'.Building form load component slots ∧ s'.builder.code = s.builder.code := by
  unfold emitOutput
  refine Achieves.get.bind ?_
  rintro _ _ ⟨rfl, rfl⟩
  refine (Achieves.lift (P := fun b t => s = t ∧ s.builder.accumulate slot r = .ok b)
    (fun h => ?_) fun _ hb => ⟨rfl, hb⟩).bind ?_
  · exact ProgramBuilder.accumulate_isOk (hsure h).1 (hs.slots ▸ (hsure h).2) hr
  rintro b _ ⟨rfl, hb⟩
  obtain ⟨hreads, hcode, hslots⟩ := ProgramBuilder.accumulate_readsOnly hs.regular.readsOnly hb
  refine Achieves.set.mono id ?_
  rintro _ _ rfl
  refine ⟨⟨⟨hreads, ?_, hs.regular.lengths⟩, hslots.trans hs.slots⟩, hcode⟩
  intro entry he r hr
  rw [hcode]
  exact hs.regular.registers entry he r hr

variable [Scalar α] [DecidableEq α]

/-- **Lowering an accumulation.** -/
theorem lowerAccumulation_regular (hform : form.Valid) (horders : form.BoundsOrders)
    {component : Nat → Nat → Prop} (hcomponent : ∀ f ∈ form.fields, f.id < form.fields.length →
      f.isArray = true → ∀ c < f.storageSize, component f.id c)
    (hs : s.Building form form.AdmitsLoad component form.outputSlots) {a : Accumulation α}
    (ha : a ∈ form.accumulations) :
    Achieves form.SizesMatch (lowerAccumulation form a) s fun _ s' =>
      s'.Building form form.AdmitsLoad component form.outputSlots := by
  obtain ⟨e, he, hbuilt, -, hnonneg, hlt, -⟩ := hform.sums a ha
  have hsizes : form.SizesMatch → form.Sizes e := fun h => h.sizes hbuilt.wellShaped (h.sums a ha e he)
  unfold lowerAccumulation
  rw [he]
  refine ((lowerIn_regular hform hcomponent (hform.admits_local horders)
    (hform.admits_sum horders a ha e he) hs.regular).mono hsizes fun _ _ h => h).bind
    fun registers t ht => ?_
  refine (registerAt_regular ht.1.registers fun h => ?_).bind ?_
  · rw [ht.2 (hsizes h)]
    exact hbuilt.wellShaped.size_pos
  rintro r _ ⟨rfl, hr⟩
  rename_i t
  have hbuilding : t.Building form form.AdmitsLoad component form.outputSlots :=
    ⟨ht.1.regular, ht.1.grows.slots.trans hs.slots⟩
  exact (emitOutput_regular hbuilding hr fun _ => ⟨hnonneg, hlt⟩).mono id fun _ _ h => h.1

omit [Scalar α] [DecidableEq α] in
/-- **Lowering an entry of a precomputed field.** -/
theorem emitKept_regular (hs : s.Building form load component slots) {f : FieldVariable α}
    (hf : f.shape.Declarable f.symmetric) (hslots : slots = f.storageSize) {registers : List Nat}
    (hr : ∀ r ∈ registers, r < s.builder.code.size) {sure : Prop}
    (hsure : sure → registers.length = f.shape.size) {i j : Nat} (hmem : (i, j) ∈ keptPositions f) :
    Achieves sure (emitKept f registers i j) s fun _ s' =>
      s'.Building form load component slots ∧ s'.builder.code = s.builder.code := by
  obtain ⟨hi, hj⟩ := Shape.mem_positions.mp (List.mem_filter.mp hmem).1
  unfold emitKept
  refine (registerAt_regular hr fun h => ?_).bind ?_
  · rw [hsure h]
    exact Shape.entry_lt_size hi hj
  rintro r _ ⟨rfl, hlt⟩
  refine emitOutput_regular hs hlt fun _ => ⟨Int.natCast_nonneg _, ?_⟩
  rw [hslots]
  exact Int.ofNat_lt.mpr (FieldVariable.backingIndex_lt hf hi hj)

/-! ## (4) Programs -/

omit [Scalar α] [DecidableEq α] in
/-- **A program reads what its steps read,** and is there if they succeed. -/
theorem programOf_reads {steps : LoweringM α Unit} {sure : Prop}
    (h : Achieves sure steps { builder := { slots } } fun _ s => s.Building form load component slots) :
    (∀ p, programOf slots steps = .ok p → p.ReadsOnly load component ∧ p.slots = slots) ∧
      (1 ≤ slots → sure → ∃ p, programOf slots steps = .ok p) := by
  constructor
  · intro p hp
    obtain ⟨-, s, hs, rfl⟩ := programOf_eq_ok_iff.mp hp
    obtain ⟨hregular, hslots⟩ := h.2 () s hs
    exact ⟨ProgramBuilder.finish_readsOnly hregular.readsOnly, hslots⟩
  · intro hpos hsure
    obtain ⟨⟨⟨⟩, s⟩, hs⟩ := h.1 hsure
    exact ⟨_, programOf_eq_ok_iff.mpr ⟨hpos, s, hs, rfl⟩⟩

omit [Scalar α] [DecidableEq α] in
/-- A program has no instruction at first. -/
theorem building_start (form : Form α) (slots : Nat) (load : BasisLoad → Prop)
    (component : Nat → Nat → Prop) :
    ({ builder := { slots } } : LoweringState α).Building form load component slots :=
  ⟨regular_start form slots load component, rfl⟩

/-- **The program of a form** reads derivatives that the form can ask for, and components of its array
fields. It is there if references carry the sizes of their fields. -/
theorem lowerForm_reads (hform : form.Valid) (horders : form.BoundsOrders) :
    (∀ p, lowerForm form = .ok p →
      p.ReadsOnly form.AdmitsLoad (form.HasComponent form.fields.length) ∧ p.slots = form.outputSlots) ∧
      (form.accumulations ≠ [] → form.SizesMatch → ∃ p, lowerForm form = .ok p) := by
  have hbuilding := Achieves.forM_invariant (I := fun s : LoweringState α => s.Building form
    form.AdmitsLoad (form.HasComponent form.fields.length) form.outputSlots) (building_start ..)
    fun a ha t ht => lowerAccumulation_regular hform horders Form.hasComponent ht ha
  obtain ⟨hreads, hisOk⟩ := programOf_reads hbuilding
  refine ⟨hreads, fun hne hsizes => hisOk ?_ hsizes⟩
  obtain ⟨a, ha⟩ := List.exists_mem_of_ne_nil _ hne
  obtain ⟨e, -, -, -, hnonneg, hlt, -⟩ := hform.sums a ha
  omega

/-- **The program of a precomputed field** reads components of the array fields before it, and nothing
else. It is there if references carry the sizes of their fields. -/
theorem lowerField_reads (hform : form.Valid) {f : FieldVariable α} (hf : f ∈ form.fields) :
    (∀ p, lowerField form f = .ok p →
      p.ReadsOnly (fun _ => False) (form.HasComponent f.id) ∧ p.slots = f.storageSize) ∧
      (∀ o, f.definition = .precomputed o → form.SizesMatch → ∃ p, lowerField form f = .ok p) := by
  by_cases hprecomputed : ∃ o, f.definition = .precomputed o
  · obtain ⟨o, ho⟩ := hprecomputed
    obtain ⟨e, rfl, hbuilt, hshape, -⟩ := hform.precomputed f hf o ho
    have hsizes : form.SizesMatch → form.Sizes e := fun h =>
      h.sizes hbuilt.wellShaped (h.definitions f hf e (by rw [ho]; rfl))
    have hshaped := hform.shapes f hf
    have hlower := lowerIn_regular hform Form.hasComponent (fun h : LoweringTarget.grid = .kernel => absurd h (by decide))
      (hform.admits_precomputed (fun _ => False) f hf e ho)
      (regular_start form f.storageSize _ _)
    have hbuilding : Achieves form.SizesMatch (do
        let registers ← lowerIn form .grid (some e)
        (keptPositions f).forM fun p => emitKept f registers p.1 p.2)
        { builder := { slots := f.storageSize } } fun _ s =>
          s.Building form (fun _ => False) (form.HasComponent f.id) f.storageSize := by
      refine (hlower.mono hsizes fun _ _ h => h).bind fun registers t ht => ?_
      -- Outputs do not change the code, so the registers stay registers.
      refine (Achieves.forM_invariant (I := fun u =>
        u.Building form (fun _ => False) (form.HasComponent f.id) f.storageSize ∧
          u.builder.code = t.builder.code) ⟨⟨ht.1.regular, ht.1.grows.slots⟩, rfl⟩ ?_).mono id
        fun _ _ h => h.1
      rintro ⟨i, j⟩ hmem u ⟨hu, hcode⟩
      refine (emitKept_regular hu hshaped rfl (hcode ▸ ht.1.registers) (fun h => ?_) hmem).mono id
        fun _ _ h => ⟨h.1, h.2.trans hcode⟩
      rw [ht.2 (hsizes h), hshape]
    obtain ⟨hreads, hisOk⟩ := programOf_reads hbuilding
    have hprogram : lowerField form f = programOf f.storageSize (do
        let registers ← lowerIn form .grid (some e)
        (keptPositions f).forM fun p => emitKept f registers p.1 p.2) := by
      rw [lowerField, ho]
    rw [hprogram]
    exact ⟨hreads, fun _ _ h => hisOk (FieldVariable.storageSize_pos hshaped) h⟩
  · refine ⟨fun p hp => ?_, fun o ho => absurd ⟨o, ho⟩ hprecomputed⟩
    unfold lowerField at hp
    split at hp
    · exact absurd ⟨_, ‹_›⟩ hprecomputed
    · cases hp

/-! ## (5) Forms that are lowered -/

namespace Form

/-- **An expression that is lowered as its shape says,** whatever of the form was lowered before: no step
fails, and there is one register of the program for each component. -/
def LowersTo (form : Form α) (target : LoweringTarget) (e : Expr α) : Prop :=
  ∀ s : LoweringState α, s.Regular form form.AdmitsLoad (form.HasComponent form.fields.length) →
    ∃ registers s', (lowerIn form target (some e)).run s = .ok (registers, s') ∧
      registers.length = e.shape.size ∧ (∀ r ∈ registers, r < s'.builder.code.size) ∧
      s'.Regular form form.AdmitsLoad (form.HasComponent form.fields.length)

/-- **A form that is lowered without failure:** its programs exist, and every part of an expression that
goes into them is lowered as its shape says. -/
structure Lowers (form : Form α) : Prop where
  /-- The form has a program. -/
  program : ∃ p, lowerForm form = .ok p
  /-- Its precomputed fields have programs. -/
  fields : ∀ f ∈ form.fields, ∀ o, f.definition = .precomputed o → ∃ p, lowerField form f = .ok p
  /-- Parts of expressions that are evaluated with basis functions. -/
  kernel : ∀ e, form.Evaluates e → ∀ x ∈ e.nodes, form.LowersTo .kernel x
  /-- Parts of definitions that are evaluated over the grid. -/
  grid : ∀ f ∈ form.fields, ∀ e, f.definition = .precomputed (some e) →
    ∀ x ∈ e.nodes, form.LowersTo .grid x

variable {target : LoweringTarget} {bound : Nat}

/-- **Parts of expressions whose references carry sizes** are lowered as their shapes say. -/
theorem lowersTo_of_sizes (hform : form.Valid) (horders : form.BoundsOrders) {e : Expr α}
    (hadmits : form.Admits target bound form.AdmitsLoad e) (hsizes : form.Sizes e) :
    ∀ x ∈ e.nodes, form.LowersTo target x := by
  intro x hx s hs
  have hsized : form.Sizes x := by
    obtain ⟨hsub, hshaped⟩ := Expr.nodes_subset hx
    exact ⟨hshaped hsizes.wellShaped, fun name shape symmetric hnode =>
      hsizes.fields name shape symmetric (hsub _ hnode)⟩
  have hlower := lowerIn_regular hform
    (fun f hf _ => hasComponent f hf (hform.id_lt hf))
    (hform.admits_local horders) (hadmits.of_mem_nodes hx) hs
  obtain ⟨⟨registers, s'⟩, hrun⟩ := hlower.1 hsized
  obtain ⟨hemitted, hlength⟩ := hlower.2 registers s' hrun
  exact ⟨registers, s', hrun, hlength hsized, hemitted.registers, hemitted.regular⟩

/-- **A reference that is lowered as its shape says** carries the size of its field, if the local fields up
to that field do. -/
theorem size_of_lowersTo (hform : form.Valid) (horders : form.BoundsOrders) {f : FieldVariable α}
    (hf : f ∈ form.fields) (harray : target.arraysOnly = true → f.isArray = true)
    (hsized : form.LocalsSized (f.id + 1)) {shape : Shape} {symmetric : Bool}
    (h : form.LowersTo target (.field f.name shape symmetric)) : shape.size = f.shape.size := by
  have hstart := regular_start form form.outputSlots form.AdmitsLoad
    (form.HasComponent form.fields.length)
  obtain ⟨registers, s', hrun, hlength, -⟩ := h _ hstart
  -- The reference is lowered as the field is, whatever shape it carries.
  rw [lowerIn, lowerOperand, lower] at hrun
  have hfield := fieldRegisters_regular hform
    hasComponent (hform.admits_local horders) (form.fields.length + 1)
    f hf (hform.id_lt hf) (Nat.lt_succ_of_lt (hform.id_lt hf)) harray _ hstart
  exact hlength.symm.trans ((hfield.2 registers s' hrun).2 hsized)

/-- **A form that is lowered without failure** refers to its fields by their sizes. -/
theorem Lowers.sizesMatch (hform : form.Valid) (horders : form.BoundsOrders) (h : form.Lowers) :
    form.SizesMatch := by
  have hkernel : ∀ {g : FieldVariable α}, LoweringTarget.kernel.arraysOnly = true → g.isArray = true :=
    fun h => nomatch h
  -- The definitions of local fields are sized one after the other.
  have hlocals : ∀ n, form.LocalsSized n := by
    intro n
    induction n with
    | zero => exact fun f _ hlt => absurd hlt (Nat.not_lt_zero _)
    | succ n ih =>
      intro f hf hlt e he name shape symmetric hnode g hg hname
      obtain ⟨x, hx, -, -, hnodes⟩ := hform.locals f hf _ he
      obtain rfl := Option.some.inj hx
      obtain ⟨g', hg', hname', hbelow, -⟩ := hnodes _ hnode
      obtain rfl := hform.eq_of_name hg hg' (hname.trans hname'.symm)
      subst hname
      apply size_of_lowersTo hform horders hg hkernel
      · exact ih.mono (by omega)
      · exact h.kernel _ (.inr ⟨f, hf, he⟩) _ hnode
  refine ⟨fun f hf e he => ?_, fun a ha e he name shape symmetric hnode g hg hname => ?_⟩
  · obtain ⟨id, fname, fshape, fsymmetric, definition⟩ := f
    cases definition with
    | perEntry o =>
      obtain rfl : o = some e := he
      exact hlocals _ _ hf (Nat.lt_succ_self _) e rfl
    | precomputed o =>
      obtain rfl : o = some e := he
      intro name shape symmetric hnode g hg hname
      obtain ⟨x, hx, -, -, hnodes⟩ := hform.precomputed _ hf _ rfl
      obtain rfl := Option.some.inj hx
      obtain ⟨g', hg', hname', -, harray⟩ := hnodes _ hnode
      obtain rfl := hform.eq_of_name hg hg' (hname.trans hname'.symm)
      subst hname
      exact size_of_lowersTo hform horders hg (fun _ => harray rfl) (hlocals _)
        (h.grid _ hf _ rfl _ hnode)
    | _ => cases he
  · subst hname
    exact size_of_lowersTo hform horders hg hkernel
      (hlocals _) (h.kernel e (.inl ⟨a, ha, he⟩) _ hnode)

/-- **A form that refers to its fields by their sizes** is lowered without failure. -/
theorem SizesMatch.lowers (hform : form.Valid) (horders : form.BoundsOrders)
    (hne : form.accumulations ≠ []) (h : form.SizesMatch) : form.Lowers := by
  refine ⟨(lowerForm_reads hform horders).2 hne h, fun f hf o ho => (lowerField_reads hform hf).2 o ho h,
    fun e he => ?kernel, fun f hf e he => ?grid⟩
  case kernel =>
    rcases he with ⟨a, ha, he⟩ | ⟨f, hf, he⟩
    · obtain ⟨x, hx, hbuilt, -⟩ := hform.sums a ha
      obtain rfl := Option.some.inj (hx.symm.trans he)
      exact lowersTo_of_sizes hform horders (hform.admits_sum horders a ha _ he)
        (h.sizes hbuilt.wellShaped (h.sums a ha _ he))
    · obtain ⟨x, hx, hbuilt, -⟩ := hform.locals f hf _ he
      obtain rfl := Option.some.inj hx
      exact lowersTo_of_sizes hform horders (hform.admits_local horders rfl f hf _ he)
        (h.sizes hbuilt.wellShaped (h.definitions f hf _ (by rw [he]; rfl)))
  case grid =>
    obtain ⟨x, hx, hbuilt, -⟩ := hform.precomputed f hf _ he
    obtain rfl := Option.some.inj hx
    exact lowersTo_of_sizes hform horders (hform.admits_precomputed _ f hf _ he)
      (h.sizes hbuilt.wellShaped (h.definitions f hf _ (by rw [he]; rfl)))

end Form

namespace FormBuilder

/-- **Where lowering is total.** Take the form that a builder returns after any calls, with expressions made
by the operations. It is lowered without failure, its program and those of its precomputed fields included,
and all parts of its expressions become as many registers as their shapes say, exactly if every reference
to a field carries the number of components that the field was registered with. The builder checks the
names of references only. -/
theorem Reachable.lowering_total {b : FormBuilder α} (hb : b.Reachable) (h : b.finalize = .ok form) :
    form.SizesMatch ↔ form.Lowers := by
  have hform := hb.valid.form h
  have horders := boundsOrders_of_finalize h
  obtain ⟨hne, rfl⟩ := finalize_eq_ok h
  exact ⟨fun hsizes => hsizes.lowers hform horders hne, fun hlowers => hlowers.sizesMatch hform horders⟩

/-- A form that accumulates a component of a precomputed vector. -/
def vectorForm : Form ℚ where
  name := "vector"
  dim := 2
  arity := .bilinear
  components := 1
  symmetric := false
  fields := [⟨0, "c", .vector 2, false, .precomputed (some (.compose (.vector 2) [.const 1, .const 2]))⟩]
  accumulations := [⟨0, some (.index (.field "c" (.vector 2) false) 1)⟩]
  requirements := {}

/-- A builder after the calls for this form, and one call more that accumulates an operand. -/
def vectorBuilder (more : Operand ℚ) : FormBuilder ℚ :=
  Building.after (BuilderCall.add more).run (Building.after
    (BuilderCall.addToSlot 0 (some (.index (.field "c" (.vector 2) false) 1))).run (Building.after
      (BuilderCall.precompute "c" (some (.compose (.vector 2) [.const 1, .const 2])) false).run
        { name := "vector", dim := 2, arity := .bilinear, components := 1, symmetric := false }))

/-- The operands of these calls are made by operations. -/
theorem reachable_vectorBuilder {more : Operand ℚ} (hmore : more.Built) :
    (vectorBuilder more).Reachable := by
  have hvector : (Expr.compose (.vector 2) [.const 1, .const 2] : Expr ℚ).Built := by
    have hvector : Expr.ofVector [some (.const 1), some (.const 2)] = .ok
        (.compose (.vector 2) [.const 1, .const 2] : Expr ℚ) := rfl
    refine .vector ?_ hvector
    intro o ho e he
    rcases List.mem_pair.mp ho with rfl | rfl <;> obtain rfl := Option.some.inj he <;> exact .const _
  have hindex : (Expr.index (.field "c" (.vector 2) false) 1 : Expr ℚ).Built :=
    .index (.field (e := .field "c" (.vector 2) false) (rfl : Expr.ofField "c" (.vector 2) false = _))
      (rfl : Operand.index _ 1 = _)
  refine .call (c := .add more) (.call (c := .addToSlot 0 (some _)) (.call
    (c := .precompute "c" (some _) false)
    (.make (rfl : FormBuilder.make "vector" 2 .bilinear 1 false = _)) ?_) ?_) hmore
  · exact fun e he => Option.some.inj he ▸ hvector
  · exact fun e he => Option.some.inj he ▸ hindex

/-- The form with the component alone is lowered without failure. -/
theorem lowering_total_vectorForm :
    (vectorBuilder none).Reachable ∧ (vectorBuilder none).finalize = .ok vectorForm ∧
      vectorForm.SizesMatch ∧ vectorForm.Lowers := by
  have hb : (vectorBuilder none).Reachable := reachable_vectorBuilder fun _ h => nomatch h
  have hfinal : (vectorBuilder none).finalize = .ok vectorForm := rfl
  have hsizes : vectorForm.SizesMatch := by
    refine ⟨?_, ?_⟩
    · intro f hf e he name shape symmetric hnode
      obtain rfl := List.mem_singleton.mp hf
      obtain rfl := Option.some.inj he
      simp [Expr.nodes, Expr.nodesOfAll] at hnode
    · intro a ha e he name shape symmetric hnode f hf _
      obtain rfl := List.mem_singleton.mp ha
      obtain rfl := List.mem_singleton.mp hf
      obtain rfl := Option.some.inj he
      simp only [Expr.nodes, List.mem_cons, reduceCtorEq, Expr.field.injEq, List.not_mem_nil,
        or_false, false_or] at hnode
      rw [hnode.2.1]
  exact ⟨hb, hfinal, hsizes, hb.lowering_total hfinal |>.mp hsizes⟩

/-- **The builder accepts a scalar reference to the vector.** In the form it returns, that reference becomes
two registers, and the accumulation takes the first. -/
theorem lowering_mismatched :
    (vectorBuilder (some (.field "c" .scalar false))).Reachable ∧
      ∃ form, (vectorBuilder (some (.field "c" .scalar false))).finalize = .ok form ∧ ¬form.Lowers := by
  have hmore : Operand.Built (some (.field "c" .scalar false : Expr ℚ)) := by
    intro e he
    obtain rfl := Option.some.inj he
    exact .field (rfl : Expr.ofField "c" .scalar false = _)
  refine ⟨reachable_vectorBuilder hmore, _, rfl, fun h => ?_⟩
  have hscalar := h.kernel (.field "c" .scalar false)
    (.inl ⟨⟨0, some (.field "c" .scalar false)⟩, List.mem_of_getElem? (i := 1) rfl, rfl⟩) _
    (Expr.mem_nodes_self _)
  obtain ⟨registers, s', hrun, hlength, -⟩ := hscalar _ (regular_start _ 1 _ _)
  obtain ⟨rfl, -⟩ := Prod.mk.inj (Except.ok.inj hrun)
  cases hlength

end FormBuilder

end Galerkin
