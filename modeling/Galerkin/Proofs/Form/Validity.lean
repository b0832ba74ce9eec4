import Galerkin.Proofs.Form.Registration
import Mathlib.Data.List.Nodup

/-! # Fields and accumulations of a valid form

Names stand for one field each, and a definition refers to fields that were registered before it. Both
follow from the checks made when a field comes in, and later changes do not touch them.

* **`FormBuilder.Reachable`** — builders after some calls, failed ones included;
* **`FormBuilder.Valid`** — what the checks amount to, and `Reachable.valid`: it holds after all calls;
* **`Form.Valid`** — the same of a form, and `valid_of_finalize`. -/

namespace Galerkin

variable {α : Type}

namespace FormBuilder

/-! ## (1) Valid builders -/

/-- The builder as it was when it had `k` fields, as far as the checks of a field can see. -/
def before (b : FormBuilder α) (k : Nat) : FormBuilder α where
  name := b.name
  dim := b.dim
  arity := b.arity
  components := b.components
  symmetric := b.symmetric
  fields := b.fields.take k

/-- **What the checks amount to.** -/
structure Valid (b : FormBuilder α) : Prop where
  /-- Fields are numbered from zero. -/
  numbers : ∀ {k : Nat} {f : FieldVariable α}, b.fields[k]? = some f → f.id = k
  /-- No two fields share a name. -/
  nodup : (b.fields.map (·.name)).Nodup
  /-- Names are not empty, and not those of basis functions. -/
  named : ∀ f ∈ b.fields,
    f.name ≠ "" ∧ f.name ≠ BasisRole.trial.name ∧ f.name ≠ BasisRole.test.name
  /-- Shapes have components, and symmetric fields are square matrices. -/
  shapes : ∀ f ∈ b.fields, f.shape.Declarable f.symmetric
  /-- Definitions are made by operations. -/
  built : ∀ f ∈ b.fields, f.definition.expression.Built
  /-- Definitions passed the checks against the fields registered before. -/
  definitions : ∀ {k : Nat} {f : FieldVariable α}, b.fields[k]? = some f →
    (b.before k).checkDefinition f.name f.shape f.definition = .ok ()
  /-- Accumulations passed the checks. -/
  sums : ∀ a ∈ b.accumulations, ∃ e, a.expression = some e ∧ b.AcceptsSum a.slot e
  /-- Gradients are required with what they need. -/
  consistent : b.requirements.Consistent
  /-- The Jacobian is required for geometry fields. -/
  jacobian : b.requirements.jacobian = true ↔ ∃ f ∈ b.fields, ∃ which, f.definition = .builtin which
  /-- The weight is required where it is a field. -/
  weight : b.requirements.weight = true ↔ ∃ f ∈ b.fields, f.definition = .builtin .weight
  /-- Fields that sample a function keep one component. -/
  inputs : ∀ f ∈ b.fields, ∀ function, f.definition = .input function → f.storageSize = 1

/-- A field that is found by its name is found there when others are added. -/
theorem find?_append {b b' : FormBuilder α} {new : List (FieldVariable α)}
    (h : b'.fields = b.fields ++ new) {name : String} {f : FieldVariable α}
    (hf : b.find? name = some f) : b'.find? name = some f := by
  unfold find? at hf ⊢
  rw [h, List.find?_append, hf, Option.some_or]

/-- References stay valid when fields are added. -/
theorem checkReferences_append {b b' : FormBuilder α} {new : List (FieldVariable α)}
    (hname : b'.name = b.name) (hdim : b'.dim = b.dim) (harity : b'.arity = b.arity)
    (h : b'.fields = b.fields ++ new) {arraysOnly : Bool} {e : Expr α}
    (he : b.checkReferences arraysOnly e = .ok ()) : b'.checkReferences arraysOnly e = .ok () := by
  refine forM_eq_ok_iff.mpr fun node hnode => ?_
  have hold := forM_eq_ok_iff.mp he node hnode
  cases node with
  | field name shape symmetric =>
    simp only [checkNode] at hold ⊢
    cases hfind : b.find? name with
    | none =>
      rw [hfind] at hold
      cases hold
    | some f =>
      rw [hfind] at hold
      rw [find?_append h hfind]
      exact hold
  | deriv basis orders =>
    simp only [checkNode, checkBasis] at hold ⊢
    rw [hname, hdim, harity]
    exact hold
  | _ => exact hold

/-- What is accepted stays accepted when fields are added. -/
theorem AcceptsSum.append {b b' : FormBuilder α} {new : List (FieldVariable α)} {slot : Int}
    {e : Expr α} (h : b.AcceptsSum slot e) (hname : b'.name = b.name) (hdim : b'.dim = b.dim)
    (harity : b'.arity = b.arity) (hcomponents : b'.components = b.components)
    (hfields : b'.fields = b.fields ++ new) : b'.AcceptsSum slot e where
  built := h.built
  scalar := h.scalar
  slot_nonneg := h.slot_nonneg
  slot_lt := by
    rw [outputSlots, harity, hcomponents]
    exact h.slot_lt
  references := checkReferences_append hname hdim harity hfields h.references

/-- The checks of a field see the fields registered before, and nothing of sums and requirements. -/
theorem checkDefinition_before (b : FormBuilder α) (name : String) (shape : Shape)
    (definition : FieldDefinition α) :
    (b.before b.fields.length).checkDefinition name shape definition =
      b.checkDefinition name shape definition := by
  have hbefore : b.before b.fields.length = { b with accumulations := [], requirements := {} } := by
    rw [before, List.take_length]
  rw [hbefore]
  cases definition with
  | precomputed e => cases e <;> rfl
  | perEntry e => cases e <;> rfl
  | _ => rfl

/-! ## (2) Every change keeps a builder valid -/

/-- A builder without fields is valid. -/
theorem valid_of_make {name : String} {dim components : Int} {arity : Arity} {symmetric : Bool}
    {b : FormBuilder α} (h : make name dim arity components symmetric = .ok b) : b.Valid := by
  obtain ⟨-, h⟩ := require_bind_eq_ok_iff.mp h
  obtain ⟨-, h⟩ := require_bind_eq_ok_iff.mp h
  rw [← Except.ok.inj h]
  refine ⟨?_, List.nodup_nil, ?_, ?_, ?_, ?_, ?_, ⟨?_, ?_⟩, ?_, ?_, ?_⟩ <;> simp

/-- A field that samples a function is accepted with one component only. -/
theorem AcceptsField.storageSize_input {b : FormBuilder α} {f : FieldVariable α} (hf : b.AcceptsField f)
    {function : Option (InputFunction α)} (hdef : f.definition = .input function) : f.storageSize = 1 := by
  have hdefinition := hf.definition
  rw [hdef] at hdefinition
  obtain ⟨-, hscalar⟩ := require_bind_eq_ok_iff.mp hdefinition
  have hscalar := require_eq_ok_iff.mp hscalar
  -- A symmetric field is a matrix.
  have hplain : ¬ f.symmetric = true := fun h => by
    have hrank : f.shape.rank = 2 := eq_of_beq (hf.shape.square h).1
    have hrank' : f.shape.rank = 0 := eq_of_beq hscalar
    omega
  rw [FieldVariable.storageSize, if_neg hplain]
  exact hf.input function hdef hscalar

/-- A new field is valid after the fields before it. -/
theorem Valid.field {b : FormBuilder α} (hb : b.Valid) {f : FieldVariable α} (hf : b.AcceptsField f) :
    ({ b with
      fields := b.fields ++ [f]
      requirements := noteDefinition b.requirements f.definition } : FormBuilder α).Valid := by
  have hold : ∀ {k : Nat} {g : FieldVariable α}, (b.fields ++ [f])[k]? = some g →
      b.fields[k]? = some g ∨ k = b.fields.length ∧ g = f := by
    intro k g h
    rcases Nat.lt_trichotomy k b.fields.length with hk | rfl | hk
    · rw [List.getElem?_append_left hk] at h
      exact .inl h
    · rw [List.getElem?_concat_length] at h
      exact .inr ⟨rfl, (Option.some.inj h).symm⟩
    · rw [List.getElem?_eq_none (by rw [List.length_append]; exact hk)] at h
      cases h
  have hexists : ∀ P : FieldVariable α → Prop,
      (∃ g ∈ b.fields ++ [f], P g) ↔ (∃ g ∈ b.fields, P g) ∨ P f := by
    intro P
    simp only [List.mem_append, List.mem_singleton, or_and_right, exists_or, exists_eq_left]
  refine ⟨?_, ?_, ?_, ?_, ?_, ?_, ?_, ?_, ?_, ?_, ?_⟩
  · intro k g h
    rcases hold h with h | ⟨rfl, rfl⟩
    · exact hb.numbers h
    · exact hf.number
  · rw [List.map_append, List.map_singleton]
    refine List.nodup_append.mpr ⟨hb.nodup, List.nodup_singleton _, ?_⟩
    intro name hname _ hnew heq
    obtain ⟨g, hg, rfl⟩ := List.mem_map.mp hname
    rw [List.mem_singleton.mp hnew] at heq
    exact absurd (beq_iff_eq.mpr heq) (List.find?_eq_none.mp hf.fresh g hg)
  · refine List.forall_mem_append.mpr ⟨hb.named, ?_⟩
    rw [List.forall_mem_singleton]
    exact ⟨hf.named, hf.not_trial, hf.not_test⟩
  · exact List.forall_mem_append.mpr ⟨hb.shapes, List.forall_mem_singleton.mpr hf.shape⟩
  · exact List.forall_mem_append.mpr ⟨hb.built, List.forall_mem_singleton.mpr hf.built⟩
  · intro k g h
    rcases hold h with h | ⟨rfl, rfl⟩
    · -- The fields before an old one are the same as before.
      have hk : k ≤ b.fields.length := Nat.le_of_lt (List.getElem?_eq_some_iff.mp h).1
      simp only [before, List.take_append_of_le_length hk]
      exact hb.definitions h
    · simp only [before, List.take_append_of_le_length (Nat.le_refl _)]
      exact (checkDefinition_before b _ _ _).trans hf.definition
  · intro a ha
    obtain ⟨e, he, hsum⟩ := hb.sums a ha
    exact ⟨e, he, hsum.append rfl rfl rfl rfl rfl⟩
  · unfold noteDefinition
    split
    · exact ⟨hb.consistent.physical, hb.consistent.parametric⟩
    · exact hb.consistent
  · rw [hexists, ← hb.jacobian]
    unfold noteDefinition
    split
    · rename_i which hdef
      exact iff_of_true rfl (.inr ⟨which, hdef⟩)
    · rename_i hdef
      exact (or_iff_left fun ⟨which, h⟩ => hdef which h).symm
  · rw [hexists, ← hb.weight]
    unfold noteDefinition
    split
    · rename_i which hdef
      rw [Bool.or_eq_true, beq_iff_eq, hdef, FieldDefinition.builtin.injEq]
    · rename_i hdef
      exact (or_iff_left fun h => hdef _ h).symm
  · exact List.forall_mem_append.mpr
      ⟨hb.inputs, List.forall_mem_singleton.mpr fun _ hdef => hf.storageSize_input hdef⟩

/-- **Every change keeps a builder valid.** -/
theorem Change.valid {b b' : FormBuilder α} (h : b.Change b') (hb : b.Valid) : b'.Valid := by
  cases h with
  | note h =>
    refine ⟨hb.numbers, hb.nodup, hb.named, hb.shapes, hb.built, hb.definitions, ?_,
      h.consistent hb.consistent, h.jacobian ▸ hb.jacobian, h.weight ▸ hb.weight, hb.inputs⟩
    intro a ha
    obtain ⟨e, he, hsum⟩ := hb.sums a ha
    exact ⟨e, he, hsum.append rfl rfl rfl rfl (List.append_nil _).symm⟩
  | field h => exact hb.field h
  | @accumulation slot e h =>
    refine ⟨hb.numbers, hb.nodup, hb.named, hb.shapes, hb.built, hb.definitions, ?_, hb.consistent,
      hb.jacobian, hb.weight, hb.inputs⟩
    have hsame : ∀ {k : Int} {x : Expr α}, b.AcceptsSum k x → ({ b with
        accumulations := b.accumulations ++ [⟨slot, some e⟩] } : FormBuilder α).AcceptsSum k x :=
      fun hx => hx.append rfl rfl rfl rfl (List.append_nil _).symm
    refine List.forall_mem_append.mpr ⟨?_, List.forall_mem_singleton.mpr ⟨e, rfl, hsame h⟩⟩
    intro a ha
    obtain ⟨x, hx, hsum⟩ := hb.sums a ha
    exact ⟨x, hx, hsame hsum⟩

/-- A chain of changes keeps a builder valid. -/
theorem Changes.valid {b b' : FormBuilder α} (h : b.Changes b') (hb : b.Valid) : b'.Valid := by
  induction h with
  | refl => exact hb
  | tail _ hchange ih => exact hchange.valid ih

/-- **Builders after some calls,** some of which may have failed. The expressions that are handed to a
call are made by operations. -/
inductive Reachable : FormBuilder α → Prop
  /-- A new builder. -/
  | make {name : String} {dim components : Int} {arity : Arity} {symmetric : Bool}
      {b : FormBuilder α} (h : make name dim arity components symmetric = .ok b) : Reachable b
  /-- The builder after one more call. -/
  | call {b : FormBuilder α} (hb : Reachable b) {c : BuilderCall α} (h : c.argument.Built) :
      Reachable (Building.after c.run b)

/-- **Builders are valid after all calls.** -/
theorem Reachable.valid {b : FormBuilder α} (h : b.Reachable) : b.Valid := by
  induction h with
  | make h => exact valid_of_make h
  | @call b _ c h ih => exact Changes.valid (c.makes h b).1 ih

end FormBuilder

/-! ## (3) Valid forms -/

/-- A field that is no array is defined by an expression for each entry. -/
theorem FieldVariable.perEntry_of_not_isArray {f : FieldVariable α} (h : f.isArray = false) :
    ∃ o, f.definition = .perEntry o := by
  unfold isArray at h
  split at h
  · exact ⟨_, ‹_›⟩
  · cases h

section Keys

variable {β κ : Type} [BEq κ] [LawfulBEq κ] {key : β → κ} {xs : List β} {x : β}

/-- **What is found by a key** is listed and has the key. -/
theorem mem_of_find?_key {k : κ} (h : xs.find? (key · == k) = some x) : x ∈ xs ∧ key x = k := by
  have hkey := List.find?_some h
  exact ⟨List.mem_of_find?_eq_some h, eq_of_beq hkey⟩

/-- **What is listed is found by its key** if no two entries share a key. -/
theorem find?_of_nodup (hnodup : (xs.map key).Nodup) (hx : x ∈ xs) :
    xs.find? (key · == key x) = some x := by
  have hsome : (xs.find? (key · == key x)).isSome = true :=
    List.find?_isSome.mpr ⟨x, hx, beq_self_eq_true _⟩
  obtain ⟨y, hy⟩ := Option.isSome_iff_exists.mp hsome
  obtain ⟨hmem, hkey⟩ := mem_of_find?_key hy
  obtain rfl := List.inj_on_of_nodup_map hnodup hmem hx hkey
  exact hy

end Keys

namespace Form

/-- **A node refers to what is there:** to a field whose number is below `bound`, or to a basis function
of the form with one order per axis; with `arraysOnly` to array fields only. -/
def Resolves (form : Form α) (bound : Nat) (arraysOnly : Bool) : Expr α → Prop
  | .field name _ _ =>
    ∃ f ∈ form.fields, f.name = name ∧ f.id < bound ∧ (arraysOnly = true → f.isArray = true)
  | .deriv basis orders =>
    arraysOnly = false ∧ orders.length = form.dim ∧
      (basis = BasisRole.test.name ∨ basis = BasisRole.trial.name ∧ form.arity = .bilinear)
  | _ => True

/-- What refers to fields below a bound refers to fields below a larger one. -/
theorem Resolves.mono {form : Form α} {m n : Nat} (h : m ≤ n) {arraysOnly : Bool} {node : Expr α}
    (hnode : form.Resolves m arraysOnly node) : form.Resolves n arraysOnly node := by
  cases node with
  | field name shape symmetric =>
    obtain ⟨f, hf, hname, hlt, harray⟩ := hnode
    exact ⟨f, hf, hname, Nat.lt_of_lt_of_le hlt h, harray⟩
  | _ => exact hnode

/-- **A form whose names mean something.** -/
structure Valid (form : Form α) : Prop where
  /-- Fields are numbered from zero. -/
  numbers : ∀ {k : Nat} {f : FieldVariable α}, form.fields[k]? = some f → f.id = k
  /-- No two fields share a name. -/
  nodup : (form.fields.map (·.name)).Nodup
  /-- Shapes have components, and symmetric fields are square matrices. -/
  shapes : ∀ f ∈ form.fields, f.shape.Declarable f.symmetric
  /-- A local field is defined by an expression of its shape, over earlier fields. -/
  locals : ∀ f ∈ form.fields, ∀ o, f.definition = .perEntry o → ∃ e, o = some e ∧ e.Built ∧
    e.shape = f.shape ∧ ∀ node ∈ e.nodes, form.Resolves f.id false node
  /-- A precomputed field is defined by an expression of its shape, over earlier array fields. -/
  precomputed : ∀ f ∈ form.fields, ∀ o, f.definition = .precomputed o → ∃ e, o = some e ∧ e.Built ∧
    e.shape = f.shape ∧ ∀ node ∈ e.nodes, form.Resolves f.id true node
  /-- A scalar over the fields is added to a slot of the form. -/
  sums : ∀ a ∈ form.accumulations, ∃ e, a.expression = some e ∧ e.Built ∧
    e.shape.isScalar = true ∧ 0 ≤ a.slot ∧ a.slot < form.outputSlots ∧
    ∀ node ∈ e.nodes, form.Resolves form.fields.length false node

variable {form : Form α}

/-- Fields are the entries at their numbers. -/
theorem Valid.getElem?_id (hform : form.Valid) {f : FieldVariable α} (hf : f ∈ form.fields) :
    form.fields[f.id]? = some f := by
  obtain ⟨k, hk, hget⟩ := List.getElem_of_mem hf
  have hget? : form.fields[k]? = some f := hget ▸ List.getElem?_eq_getElem hk
  rwa [hform.numbers hget?]

/-- The number of a field is below the number of fields. -/
theorem Valid.id_lt (hform : form.Valid) {f : FieldVariable α} (hf : f ∈ form.fields) :
    f.id < form.fields.length := (List.getElem?_eq_some_iff.mp (hform.getElem?_id hf)).1

/-- Fields with one number are one field. -/
theorem Valid.eq_of_id (hform : form.Valid) {f g : FieldVariable α} (hf : f ∈ form.fields)
    (hg : g ∈ form.fields) (h : f.id = g.id) : f = g := by
  have hget := hform.getElem?_id hf
  rw [h, hform.getElem?_id hg] at hget
  exact (Option.some.inj hget).symm

/-- Fields with one name are one field. -/
theorem Valid.eq_of_name (hform : form.Valid) {f g : FieldVariable α} (hf : f ∈ form.fields)
    (hg : g ∈ form.fields) (h : f.name = g.name) : f = g :=
  List.inj_on_of_nodup_map hform.nodup hf hg h

/-- A field that is found is a field of the form, with the name looked for. -/
theorem field_eq_ok {name : String} {f : FieldVariable α} (h : form.field name = .ok f) :
    f ∈ form.fields ∧ f.name = name := by
  unfold field at h
  split at h
  · obtain rfl := Except.ok.inj h
    exact mem_of_find?_key ‹_›
  · cases h

/-- **A field is found by its name.** -/
theorem Valid.find?_eq_some (hform : form.Valid) {f : FieldVariable α} (hf : f ∈ form.fields) :
    form.fields.find? (·.name == f.name) = some f := find?_of_nodup hform.nodup hf

/-- A form knows its fields by their names. -/
theorem Valid.field_eq_ok (hform : form.Valid) {f : FieldVariable α} (hf : f ∈ form.fields) :
    form.field f.name = .ok f := by
  rw [field, hform.find?_eq_some hf]

end Form

namespace FormBuilder

/-- Finishing a form keeps everything but the highest derivative order. -/
theorem finalize_eq_ok {b : FormBuilder α} {form : Form α} (h : b.finalize = .ok form) :
    b.accumulations ≠ [] ∧ form = {
      name := b.name, dim := b.dim, arity := b.arity, components := b.components
      symmetric := b.symmetric, fields := b.fields, accumulations := b.accumulations
      requirements := { b.requirements with
        maxDeriv := b.scanned.foldl highestOrder b.requirements.maxDeriv } } := by
  obtain ⟨hne, h⟩ := require_bind_eq_ok_iff.mp h
  refine ⟨?_, (Except.ok.inj h).symm⟩
  intro hnil
  rw [hnil] at hne
  cases hne

/-- A basis function that is accepted is one of the form. -/
theorem checkBasis_eq_ok {b : FormBuilder α} {basis : String} (h : b.checkBasis basis = .ok ()) :
    basis = BasisRole.test.name ∨ basis = BasisRole.trial.name ∧ b.arity = .bilinear := by
  unfold checkBasis at h
  split at h
  · exact .inl ‹_›
  · split at h
    · exact .inr ⟨‹_›, eq_of_beq (require_eq_ok_iff.mp h)⟩
    · cases h

/-- **References that are accepted among the first `k` fields** resolve to fields with numbers below
`k`. -/
theorem resolves_of_checkReferences {b : FormBuilder α} (hb : b.Valid) {form : Form α}
    (hfields : form.fields = b.fields) (hdim : form.dim = b.dim) (harity : form.arity = b.arity)
    {k : Nat} {arraysOnly : Bool} {e : Expr α}
    (h : (b.before k).checkReferences arraysOnly e = .ok ()) :
    ∀ node ∈ e.nodes, form.Resolves k arraysOnly node := by
  intro node hnode
  have hcheck := forM_eq_ok_iff.mp h node hnode
  cases node with
  | field name shape symmetric =>
    simp only [checkNode] at hcheck
    cases hfind : (b.before k).find? name with
    | none =>
      rw [hfind] at hcheck
      cases hcheck
    | some f =>
      rw [hfind] at hcheck
      have harray := require_eq_ok_iff.mp hcheck
      have hfind : (b.before k).fields.find? (·.name == name) = some f := hfind
      obtain ⟨hmem, hname⟩ := mem_of_find?_key hfind
      obtain ⟨i, hi, hget⟩ := List.getElem_of_mem hmem
      simp only [before, List.length_take, List.getElem_take] at hi hget
      have hik : i < k := Nat.lt_of_lt_of_le hi (Nat.min_le_left ..)
      have hlen : i < b.fields.length := Nat.lt_of_lt_of_le hi (Nat.min_le_right ..)
      have hget? : b.fields[i]? = some f := hget ▸ List.getElem?_eq_getElem hlen
      refine ⟨f, hfields ▸ List.mem_of_getElem? hget?, hname, (hb.numbers hget?).symm ▸ hik, ?_⟩
      rintro rfl
      exact harray
  | deriv basis orders =>
    obtain ⟨harrays, hcheck⟩ := require_bind_eq_ok_iff.mp hcheck
    obtain ⟨⟨⟩, hbasis, hlength⟩ := bind_eq_ok_iff.mp hcheck
    refine ⟨by simpa using harrays, ?_, harity ▸ checkBasis_eq_ok hbasis⟩
    exact hdim ▸ eq_of_beq (require_eq_ok_iff.mp hlength)
  | _ => trivial

/-- A definition that is accepted is an expression of the declared shape. -/
theorem checkExpression_eq_ok {b : FormBuilder α} {name : String} {shape : Shape}
    {arraysOnly : Bool} {o : Operand α} (h : b.checkExpression name shape arraysOnly o = .ok ()) :
    ∃ e, o = some e ∧ e.shape = shape ∧ b.checkReferences arraysOnly e = .ok () := by
  cases o with
  | none => cases h
  | some e =>
    obtain ⟨hshape, h⟩ := require_bind_eq_ok_iff.mp h
    exact ⟨e, rfl, eq_of_beq hshape, h⟩

/-- The expression that defines a field, over the fields before it. -/
theorem Valid.expression {b : FormBuilder α} (hb : b.Valid) {form : Form α}
    (hfields : form.fields = b.fields) (hdim : form.dim = b.dim) (harity : form.arity = b.arity)
    {f : FieldVariable α} (hf : f ∈ form.fields) {arraysOnly : Bool} {o : Operand α}
    (ho : f.definition.expression = o)
    (hcheck : ∀ c : FormBuilder α, c.checkDefinition f.name f.shape f.definition = .ok () →
      c.checkExpression f.name f.shape arraysOnly o = .ok ()) :
    ∃ e, o = some e ∧ e.Built ∧ e.shape = f.shape ∧
      ∀ node ∈ e.nodes, form.Resolves f.id arraysOnly node := by
  rw [hfields] at hf
  obtain ⟨k, hk, hget⟩ := List.getElem_of_mem hf
  have hget? : b.fields[k]? = some f := hget ▸ List.getElem?_eq_getElem hk
  obtain ⟨e, rfl, hshape, hrefs⟩ := checkExpression_eq_ok (hcheck _ (hb.definitions hget?))
  refine ⟨e, rfl, hb.built f hf e ho, hshape, ?_⟩
  rw [hb.numbers hget?]
  exact resolves_of_checkReferences hb hfields hdim harity hrefs

/-- **The form of a valid builder is valid.** -/
theorem Valid.form {b : FormBuilder α} (hb : b.Valid) {form : Form α} (h : b.finalize = .ok form) :
    form.Valid := by
  obtain ⟨-, rfl⟩ := finalize_eq_ok h
  refine ⟨hb.numbers, hb.nodup, hb.shapes, ?_, ?_, ?_⟩
  · intro f hf o ho
    refine hb.expression rfl rfl rfl hf (by rw [ho]; rfl) fun c hc => ?_
    rwa [ho] at hc
  · intro f hf o ho
    refine hb.expression rfl rfl rfl hf (by rw [ho]; rfl) fun c hc => ?_
    rwa [ho] at hc
  · intro a ha
    obtain ⟨e, he, hsum⟩ := hb.sums a ha
    refine ⟨e, he, hsum.built, hsum.scalar, hsum.slot_nonneg, hsum.slot_lt, ?_⟩
    have hfields : (b.before b.fields.length).fields = b.fields ++ [] := by
      rw [before, List.take_length, List.append_nil]
    have hrefs : (b.before b.fields.length).checkReferences false e = .ok () := by
      refine checkReferences_append ?_ ?_ ?_ hfields hsum.references <;> rfl
    exact resolves_of_checkReferences hb rfl rfl rfl hrefs

end FormBuilder

end Galerkin
