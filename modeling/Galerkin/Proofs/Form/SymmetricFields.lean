import Galerkin.Proofs.Form.Coherence
import Galerkin.Proofs.Form.Correctness
import Galerkin.Proofs.Form.Reading

/-! # Reading symmetric fields

A matrix field that is declared symmetric keeps a packed triangle if it is an array. An entry and its mirror
image are then loads of one component, and since a builder never holds a load twice, they are one register.
A local field has no triangle: its registers are those of its definition, entry by entry, so it reads as
symmetrically as its definition is.

* **`ProgramBuilder.Loaded`** — a load that a builder holds, which stays where it is;
* **`FieldVariable.entryOf`** — an entry of a field, referred to as it is registered;
* **`lowerIn_entryOf_comm`** — mirrored entries of a symmetric array are lowered alike;
* **`entryOf_achieves`** — the value of an entry;
* **`FormBuilder.Reachable.symmetric_reads`** — which symmetric fields read symmetrically;
* **`FormBuilder.symmetricLocal_differs`** — a local one that does not. -/

namespace Galerkin

variable {α : Type}

/-! ## (1) Loads that are there already -/

section Searches

variable {β : Type} {p : β → Bool}

/-- The first match stays the first match in a longer array. -/
theorem findIdx?_extend {xs ys : Array β} (h : ∀ {i : Nat} {x : β}, xs[i]? = some x → ys[i]? = some x)
    {i : Nat} (hi : xs.findIdx? p = some i) : ys.findIdx? p = some i := by
  have hget (k : Nat) (hk : k < xs.size) : ∃ hk' : k < ys.size, ys[k] = xs[k] :=
    Array.getElem?_eq_some_iff.mp (h (Array.getElem?_eq_getElem hk))
  obtain ⟨hlt, hmatch, hfirst⟩ := Array.findIdx?_eq_some_iff_getElem.mp hi
  obtain ⟨hlt', hsame⟩ := hget i hlt
  refine Array.findIdx?_eq_some_iff_getElem.mpr ⟨hlt', hsame ▸ hmatch, fun k hk => ?_⟩
  obtain ⟨_, hbefore⟩ := hget k (hk.trans hlt)
  rw [hbefore]
  exact hfirst k hk

/-- A match behind an array without a match is the first. -/
theorem findIdx?_push_of_none {xs : Array β} {x : β} (h : xs.findIdx? p = none) (hx : p x = true) :
    (xs.push x).findIdx? p = some xs.size := by
  rw [Array.findIdx?_eq_none_iff] at h
  refine Array.findIdx?_eq_some_iff_getElem.mpr ⟨by simp, by simpa using hx, fun k hk => ?_⟩
  rw [Array.getElem_push_lt hk]
  simpa using h _ (Array.getElem_mem hk)

/-- A value that has a position is found there. -/
theorem findIdx?_slotOf [DecidableEq β] (values : List β) (x : β) :
    (ProgramBuilder.slotOf values x).2.findIdx? (· == x) = some (ProgramBuilder.slotOf values x).1 := by
  unfold ProgramBuilder.slotOf
  split
  · assumption
  · rename_i hnone
    rw [List.findIdx?_append, hnone]
    simp

end Searches

namespace ProgramBuilder

/-- **A load that the builder holds,** with its register. -/
def Loaded [DecidableEq α] (b : ProgramBuilder α) (field component register : Nat) : Prop :=
  ∃ slot, b.fields.findIdx? (· == field) = some slot ∧
    b.code.findIdx? (· == .loadField slot component) = some register

variable [DecidableEq α] {b b' : ProgramBuilder α} {field component r r' : Nat}

/-- A load has one register. -/
theorem Loaded.unique (h : b.Loaded field component r) (h' : b.Loaded field component r') : r = r' := by
  obtain ⟨slot, hslot, hr⟩ := h
  obtain ⟨slot', hslot', hr'⟩ := h'
  obtain rfl := Option.some.inj (hslot.symm.trans hslot')
  exact Option.some.inj (hr.symm.trans hr')

/-- A load keeps its register while a builder grows. -/
theorem Loaded.extend (h : b.Loaded field component r) (hext : b.Extends b') :
    b'.Loaded field component r := by
  obtain ⟨slot, hslot, hr⟩ := h
  -- Slots and instructions are only appended, so both first matches stay.
  obtain ⟨more, hmore⟩ := hext.fields
  refine ⟨slot, ?_, findIdx?_extend hext.code hr⟩
  rw [← hmore, List.findIdx?_append, hslot]
  rfl

/-- An instruction that has been added is found, and the lists of slots are as they were. -/
theorem emit_found (instr : Instr α) :
    (b.emit instr).2.code.findIdx? (· == normalize instr) = some (b.emit instr).1 ∧
      (b.emit instr).2.fields = b.fields := by
  unfold emit
  simp only
  split
  · exact ⟨‹_›, rfl⟩
  · exact ⟨findIdx?_push_of_none ‹_› (beq_self_eq_true _), rfl⟩

/-- **A load is there after it has been added.** -/
theorem loadField_loaded (b : ProgramBuilder α) (field component : Nat) :
    ∃ r, b.loadField field component = .ok r ∧ r.2.Loaded field component r.1 := by
  obtain ⟨hfound, hfields⟩ := emit_found (b := { b with fields := (slotOf b.fields field).2 })
    (.loadField (slotOf b.fields field).1 component)
  refine ⟨_, b.loadField_eq_ok field component, (slotOf b.fields field).1, ?_, hfound⟩
  rw [hfields]
  exact findIdx?_slotOf b.fields field

end ProgramBuilder

/-! ## (2) Entries of fields -/

/-- **Entry `(i, j)` of a field,** referred to as the field is registered. -/
def FieldVariable.entryOf (f : FieldVariable α) (i j : Nat) : Expr α :=
  .entry (.field f.name f.shape f.symmetric) i j

/-- Mirrored entries of a symmetric field are kept in one component. -/
theorem FieldVariable.backingIndex_comm {f : FieldVariable α} (hsym : f.symmetric = true) (i j : Nat) :
    f.backingIndex i j = f.backingIndex j i := by
  rw [backingIndex, backingIndex, if_pos hsym, if_pos hsym, symmetricIndex_comm]

variable [Scalar α] {form : Form α} {f : FieldVariable α} {i j : Nat}

/-- The value of an entry is an entry of the values of the field. -/
theorem Form.scalarOf_entryOf (form : Form α) (point : PointData α) (f : FieldVariable α) (i j : Nat) :
    form.scalarOf point (some (f.entryOf i j)) =
      (form.fieldValues point f.name).getD (i * f.shape.cols + j) Scalar.zero := by
  rw [Form.scalarOf, Form.valuesOf, FieldVariable.entryOf, Expr.values, Expr.values]
  rfl

/-- The value of an entry of an array is the component it is kept in. -/
theorem Form.Valid.scalarOf_entryOf_array (hform : form.Valid) (hf : f ∈ form.fields)
    (harray : f.isArray = true) (hi : i < f.shape.rows) (hj : j < f.shape.cols) (point : PointData α) :
    form.scalarOf point (some (f.entryOf i j)) = point.field f.id (f.backingIndex i j) := by
  rw [form.scalarOf_entryOf, hform.fieldValues_eq point hf, f.values_of_isArray harray, FieldVariable.stored,
    List.getD_eq_getElem?_getD, List.getElem?_map, Shape.getElem?_positions hi hj]
  rfl

/-- The value of an entry of a local field is that of its definition. -/
theorem Form.Valid.scalarOf_entryOf_local (hform : form.Valid) (hf : f ∈ form.fields) {e : Expr α}
    (he : f.definition = .perEntry (some e)) (point : PointData α) (i j : Nat) :
    form.scalarOf point (some (f.entryOf i j)) =
      (form.valuesOf point e).getD (i * f.shape.cols + j) Scalar.zero := by
  rw [form.scalarOf_entryOf, hform.fieldValues_eq point hf, f.values_of_perEntry he, Form.valuesOf]

variable [DecidableEq α] {target : LoweringTarget} {s : LoweringState α}

/-- The register of an entry is one of the registers of the field. -/
theorem lowerIn_entryOf (form : Form α) (target : LoweringTarget) (f : FieldVariable α) (i j : Nat) :
    lowerIn form target (some (f.entryOf i j)) = (do
      let registers ← fieldRegisters form target (form.fields.length + 1) f.name
      return [← registerAt registers (i * f.shape.cols + j)]) := by
  simp only [lowerIn, lowerOperand, FieldVariable.entryOf, lower, Expr.shape]

variable [CommutativeScalar α]

/-- **The registers of an array field** are those of the loads of its components. -/
theorem fieldRegisters_loaded (target : LoweringTarget) (hform : form.Valid) (hf : f ∈ form.fields)
    (harray : f.isArray = true)
    (hs : s.builder.WellFormed) (depth : Nat) :
    Achieves True (fieldRegisters form target (depth + 1) f.name) s fun registers s' =>
      List.Forall₂ (fun p r => s'.builder.Loaded f.id (f.backingIndex p.1 p.2) r) f.shape.positions registers := by
  rw [fieldRegisters_array target (hform.field_eq_ok hf) harray]
  -- Any point will do: what a load holds there is immaterial.
  have hload (t : LoweringState α) (ht : t.builder.WellFormed) (c : Nat) :=
    ProgramBuilder.loadField_spec ht ⟨fun _ => Scalar.zero, fun _ _ => Scalar.zero⟩ f.id c
  refine (Achieves.mapM (I := fun u => u.builder.WellFormed) (L := LoweringState.Grows)
    (R := fun (p : Nat × Nat) r u => u.builder.Loaded f.id (f.backingIndex p.1 p.2) r) LoweringState.Grows.refl
    LoweringState.Grows.trans ?stays hs (LoweringState.Grows.refl s) ?step).mono id fun _ _ h => h.2.2
  case stays => exact fun _ _ hext h => h.extend hext
  rintro ⟨r, c⟩ - t ht -
  obtain ⟨⟨register, b⟩, hok, hadds⟩ := hload t ht (f.backingIndex r c)
  obtain ⟨_, hok', hloaded⟩ := t.builder.loadField_loaded f.id (f.backingIndex r c)
  obtain rfl := Except.ok.inj (hok.symm.trans hok')
  refine (tryEmit_of_ok hok).mono id ?_
  rintro _ _ ⟨rfl, rfl⟩
  exact ⟨hadds.wellFormed, hadds.extends_, hloaded⟩

/-- **Mirrored entries of a symmetric array are lowered alike:** from the same state to the same register and
the same state. -/
theorem lowerIn_entryOf_comm (hform : form.Valid) (hf : f ∈ form.fields) (harray : f.isArray = true)
    (hsym : f.symmetric = true) (hi : i < f.shape.rows) (hj : j < f.shape.rows) (hs : s.builder.WellFormed) :
    (lowerIn form target (some (f.entryOf i j))).run s = (lowerIn form target (some (f.entryOf j i))).run s := by
  obtain ⟨hsure, hresult⟩ := fieldRegisters_loaded target hform hf harray hs form.fields.length
  obtain ⟨⟨registers, s'⟩, hrun⟩ := hsure trivial
  obtain ⟨hlength, hloaded⟩ := forall₂_iff_getElem?.mp (hresult registers s' hrun)
  have hsquare : f.shape.rows = f.shape.cols := ((hform.shapes f hf).square hsym).2
  -- Every entry has a register, the one of the load of its component.
  have hregister {r c : Nat} (hr : r < f.shape.rows) (hc : c < f.shape.cols) :
      ∃ register, registers[r * f.shape.cols + c]? = some register ∧
        s'.builder.Loaded f.id (f.backingIndex r c) register := by
    have hlt : r * f.shape.cols + c < registers.length := by
      rw [← hlength, Shape.length_positions]
      exact Shape.entry_lt_size hr hc
    refine ⟨registers[r * f.shape.cols + c], List.getElem?_eq_getElem hlt, ?_⟩
    exact hloaded _ _ _ (Shape.getElem?_positions hr hc) (List.getElem?_eq_getElem hlt)
  obtain ⟨x, hx, hxload⟩ := hregister hi (hsquare ▸ hj)
  obtain ⟨y, hy, hyload⟩ := hregister hj (hsquare ▸ hi)
  -- Mirrored entries are kept in one component, and a component has one load.
  rw [FieldVariable.backingIndex_comm hsym j i] at hyload
  have hsame : registerAt registers (i * f.shape.cols + j) = registerAt registers (j * f.shape.cols + i) := by
    rw [registerAt, registerAt, hx, hy, hxload.unique hyload]
  rw [lowerIn_entryOf, lowerIn_entryOf, StateT.run_bind, StateT.run_bind, hrun]
  exact congrArg (fun found : Except Error Nat => StateT.run (do
    let r ← (liftM found : LoweringM α Nat)
    return [r]) s') hsame

/-! ## (3) Values of entries -/

/-- **An entry of a matrix field is lowered to one register that holds its value.** -/
theorem entryOf_achieves {point : PointData α} (hform : form.Valid) (hf : f ∈ form.fields)
    (hmatrix : f.shape.isMatrix = true) (hi : i < f.shape.rows) (hj : j < f.shape.cols)
    (hs : s.Sound form point) :
    Achieves form.ReferencesMatch (lowerIn form .kernel (some (f.entryOf i j))) s fun registers s' =>
      ∃ r, registers = [r] ∧ LoweredOne form point s (form.scalarOf point (some (f.entryOf i j))) r s' := by
  refine (lower_achieves (fieldRegisters_achieves hform _) (f.entryOf i j) s hs).mono (fun hrefs => ?_) ?_
  · refine ⟨?_, fun name shape symmetric hnode => ?_, fun basis orders hnode => ?_⟩
    · rw [FieldVariable.entryOf, Expr.WellShaped, Expr.WellShaped]
      exact ⟨hform.shapes f hf, hmatrix, hi, hj⟩
    · simp only [FieldVariable.entryOf, Expr.nodes, List.mem_cons, reduceCtorEq, Expr.field.injEq,
        List.not_mem_nil, or_false, false_or] at hnode
      obtain ⟨rfl, rfl, rfl⟩ := hnode
      have hkernel : LoweringTarget.kernel = .grid → f.isArray = true := by
        intro hgrid
        cases hgrid
      exact ⟨⟨hrefs, f, hf, rfl, Nat.lt_succ_of_lt (hform.id_lt hf), hkernel⟩, hform.length_fieldValues hrefs hf⟩
    · simp [FieldVariable.entryOf, Expr.nodes] at hnode
  · rintro registers s' ⟨hsound, hgrows, hholds⟩
    -- An entry has one value, so there is one register.
    have hvalue : form.valuesOf point (f.entryOf i j) = [form.scalarOf point (some (f.entryOf i j))] := by
      rw [form.scalarOf_entryOf, Form.valuesOf, FieldVariable.entryOf, Expr.values, Expr.values]
      rfl
    rw [hvalue] at hholds
    obtain ⟨r, rest, hr, hrest, rfl⟩ := List.forall₂_cons_right_iff.mp hholds
    obtain rfl := List.forall₂_nil_right_iff.mp hrest
    exact ⟨r, rfl, hsound, hgrows, hr⟩

/-- **Which symmetric fields read symmetrically.** A field that is declared symmetric is a square matrix, and
each of its entries is lowered to one register that holds the value of the entry. If the field is an array,
mirrored entries are one register and have one value, whatever the field is computed from. If it is local, an
entry has the value that the definition has there, so mirrored entries have one value exactly where those of the
definition do. -/
theorem FormBuilder.Reachable.symmetric_reads {b : FormBuilder α} (hb : b.Reachable)
    (h : b.finalize = .ok form) (hf : f ∈ form.fields) (hsym : f.symmetric = true) :
    ∃ n, f.shape = .matrix n n ∧ ∀ i < n, ∀ j < n,
      (∀ (point : PointData α) (s : LoweringState α), s.Sound form point →
        Achieves form.ReferencesMatch (lowerIn form .kernel (some (f.entryOf i j))) s fun registers s' =>
          ∃ r, registers = [r] ∧ LoweredOne form point s (form.scalarOf point (some (f.entryOf i j))) r s') ∧
      (f.isArray = true →
        (∀ (target : LoweringTarget) (s : LoweringState α), s.builder.WellFormed →
          (lowerIn form target (some (f.entryOf i j))).run s =
            (lowerIn form target (some (f.entryOf j i))).run s) ∧
        ∀ point : PointData α,
          form.scalarOf point (some (f.entryOf i j)) = form.scalarOf point (some (f.entryOf j i))) ∧
      ∀ e, f.definition = .perEntry (some e) → ∀ point : PointData α,
        form.scalarOf point (some (f.entryOf i j)) = (form.valuesOf point e).getD (i * n + j) Scalar.zero ∧
        (form.scalarOf point (some (f.entryOf i j)) = form.scalarOf point (some (f.entryOf j i)) ↔
          (form.valuesOf point e).getD (i * n + j) Scalar.zero =
            (form.valuesOf point e).getD (j * n + i) Scalar.zero) := by
  have hform := hb.valid.form h
  obtain ⟨n, -, hshape⟩ := (hform.shapes f hf).eq_matrix hsym
  have hrows : f.shape.rows = n := by rw [hshape]; rfl
  have hcols : f.shape.cols = n := by rw [hshape]; rfl
  have hmatrix : f.shape.isMatrix = true := by rw [hshape]; rfl
  refine ⟨n, hshape, fun i hi j hj => ⟨fun point s hs => ?_, fun harray => ⟨fun target s hs => ?_, fun point => ?_⟩,
    fun e he point => ?_⟩⟩
  · exact entryOf_achieves hform hf hmatrix (hrows ▸ hi) (hcols ▸ hj) hs
  · exact lowerIn_entryOf_comm hform hf harray hsym (hrows ▸ hi) (hrows ▸ hj) hs
  · rw [hform.scalarOf_entryOf_array hf harray (hrows ▸ hi) (hcols ▸ hj),
      hform.scalarOf_entryOf_array hf harray (hrows ▸ hj) (hcols ▸ hi), FieldVariable.backingIndex_comm hsym]
  · rw [hform.scalarOf_entryOf_local hf he, hform.scalarOf_entryOf_local hf he, hcols]
    exact ⟨rfl, Iff.rfl⟩

namespace FormBuilder

/-- A matrix of numbers that is not symmetric. -/
def skewMatrix : Expr ℚ := .compose (.matrix 2 2) [.const 1, .const 2, .const 3, .const 4]

/-- The field `s`, which is declared symmetric. -/
def skewField (definition : FieldDefinition ℚ) : FieldVariable ℚ := ⟨0, "s", .matrix 2 2, true, definition⟩

/-- The difference of the entries of `s` beside the diagonal. -/
def skewGap : Expr ℚ :=
  .binary .sub (.entry (.field "s" (.matrix 2 2) true) 0 1) (.entry (.field "s" (.matrix 2 2) true) 1 0)

/-- A form that accumulates this difference. -/
def skewForm (definition : FieldDefinition ℚ) : Form ℚ where
  name := "skew"
  dim := 2
  arity := .bilinear
  components := 1
  symmetric := false
  fields := [skewField definition]
  accumulations := [⟨0, some skewGap⟩]
  requirements := {}

/-- A builder after the calls for this form. -/
def skewBuilder (definition : FieldDefinition ℚ) : FormBuilder ℚ :=
  Building.after (BuilderCall.addToSlot 0 (some skewGap)).run
    (Building.after (BuilderCall.registerMatrix "s" 2 2 true definition).run
      { name := "skew", dim := 2, arity := .bilinear, components := 1, symmetric := false })

/-- The operands of these calls are made by operations. -/
theorem reachable_skewBuilder {definition : FieldDefinition ℚ}
    (hdefinition : definition.expression = some skewMatrix) : (skewBuilder definition).Reachable := by
  have hmatrix : skewMatrix.Built := by
    have hmade : Expr.ofMatrix 2 2 [some (.const 1), some (.const 2), some (.const 3), some (.const 4)] =
        .ok skewMatrix := rfl
    refine .matrix (fun o ho e he => ?_) hmade
    subst he
    simp only [List.mem_cons, Option.some.injEq, List.not_mem_nil, or_false] at ho
    rcases ho with rfl | rfl | rfl | rfl <;> exact .const _
  have hfield : (Expr.field "s" (.matrix 2 2) true : Expr ℚ).Built :=
    .field (rfl : Expr.ofField "s" (.matrix 2 2) true = _)
  have hgap : skewGap.Built := .arith (.entry (i := 0) (j := 1) hfield rfl) (.entry (i := 1) (j := 0) hfield rfl) rfl
  refine .call (c := .addToSlot 0 (some skewGap)) (.call (c := .registerMatrix "s" 2 2 true definition)
    (.make (rfl : FormBuilder.make "skew" 2 .bilinear 1 false = _)) ?_) ?_
  · intro e he
    exact Option.some.inj (hdefinition.symm.trans he) ▸ hmatrix
  · exact fun e he => Option.some.inj he ▸ hgap

/-- **A precomputed field reads symmetrically** although its definition does not. -/
theorem symmetric_reads_skewForm :
    let form := skewForm (.precomputed (some skewMatrix))
    let f := skewField (.precomputed (some skewMatrix))
    (skewBuilder (.precomputed (some skewMatrix))).Reachable ∧
      (skewBuilder (.precomputed (some skewMatrix))).finalize = .ok form ∧ f ∈ form.fields ∧ f.symmetric = true ∧
      (∀ s : LoweringState ℚ, s.builder.WellFormed → (lowerIn form .kernel (some (f.entryOf 0 1))).run s =
        (lowerIn form .kernel (some (f.entryOf 1 0))).run s) ∧
      ∀ point, form.scalarOf point (some (f.entryOf 0 1)) = form.scalarOf point (some (f.entryOf 1 0)) := by
  intro form f
  have hb : (skewBuilder (.precomputed (some skewMatrix))).Reachable := reachable_skewBuilder rfl
  have hfinal : (skewBuilder (.precomputed (some skewMatrix))).finalize = .ok form := rfl
  have hf : f ∈ form.fields := List.mem_singleton_self f
  obtain ⟨n, hshape, hreads⟩ := hb.symmetric_reads hfinal hf rfl
  obtain rfl : 2 = n := congrArg Shape.rows hshape
  obtain ⟨-, harray, -⟩ := hreads 0 (by decide) 1 (by decide)
  obtain ⟨hrun, hvalue⟩ := harray rfl
  exact ⟨hb, hfinal, hf, rfl, hrun .kernel, hvalue⟩

/-- **A local field that is declared symmetric need not read symmetrically.** The builder accepts it, and the
program of the form adds the difference of two entries that should be one. -/
theorem symmetricLocal_differs :
    let form := skewForm (.perEntry (some skewMatrix))
    (skewBuilder (.perEntry (some skewMatrix))).Reachable ∧
      (skewBuilder (.perEntry (some skewMatrix))).finalize = .ok form ∧ form.ReferencesMatch ∧
      (¬∀ f ∈ form.fields, f.symmetric = true → ∀ i < f.shape.rows, ∀ j < f.shape.rows, ∀ point,
        form.scalarOf point (some (f.entryOf i j)) = form.scalarOf point (some (f.entryOf j i))) ∧
      ∃ p, lowerForm form = .ok p ∧ ∀ (point : PointData ℚ) (r : ℚ),
        (p.evaluateAt point #[r])[0]? = some (r + (2 - 3)) := by
  intro form
  have hb : (skewBuilder (.perEntry (some skewMatrix))).Reachable := reachable_skewBuilder rfl
  have hfinal : (skewBuilder (.perEntry (some skewMatrix))).finalize = .ok form := rfl
  have hrefs : form.ReferencesMatch := Form.referencesMatch_of_all rfl rfl
  obtain ⟨p, hp, hvalues⟩ := lowerForm_correct hb hfinal hrefs
  refine ⟨hb, hfinal, hrefs, fun hsymmetric => ?_, p, hp, fun point r => ?_⟩
  · -- No field is read here, so any point will do.
    have hmirrored := hsymmetric (skewField (.perEntry (some skewMatrix))) (List.mem_singleton_self _) rfl
      0 (by decide) 1 (by decide) ⟨fun _ => 0, fun _ _ => 0⟩
    exact absurd (show (2 : ℚ) = 3 from hmirrored) (by decide)
  · rw [(hvalues point #[r]).2.2 0]
    rfl

end FormBuilder

end Galerkin
