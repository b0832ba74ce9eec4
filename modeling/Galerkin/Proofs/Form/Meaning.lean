import Galerkin.Proofs.Expr.Values
import Galerkin.Proofs.Form.Validity
import Galerkin.Proofs.Tape.Sweep

/-! # The meaning of a form

At one point the fields of a form have values, one after the other: those of an array field are stored,
and a local field has the value of its definition, which refers to earlier fields. With them every
accumulation has a value, and a slot receives the values that are accumulated into it.

* **`PointData.deriv`** — the value of a derivative of a basis function, by name;
* **`valuesInOrder`**, **`Form.Valid.valuesInOrder_eq`** — values by name, each from those before it;
* **`Form.fieldValues`** — the values of the fields by name, and `fieldValues_eq`: they satisfy the
  definitions of the fields;
* **`Form.accumulated`** — the values that a slot receives, in order;
* **`Form.ReferencesMatch`** — fields are referred to as they were registered. -/

namespace Galerkin

variable {α : Type}

/-- **The value of a derivative of a basis function,** by the name of the function. -/
def PointData.deriv (point : PointData α) (basis : String) (orders : List Nat) : α :=
  point.basis ⟨if basis = BasisRole.trial.name then .trial else .test, orders.map Int.ofNat⟩

/-- The stored components of an array field, entry by entry. -/
def FieldVariable.stored (f : FieldVariable α) (point : PointData α) : List α :=
  f.shape.positions.map fun (i, j) => point.field f.id (f.backingIndex i j)

/-! ## (1) Values in order -/

/-- **Values by name, one field after the other,** each from the values that are known before it. -/
def valuesInOrder (value : FieldVariable α → (String → List α) → List α) (known : String → List α) :
    List (FieldVariable α) → String → List α
  | [] => known
  | f :: fs => valuesInOrder value
      (fun name => if name = f.name then value f known else known name) fs

section InOrder

variable {value : FieldVariable α → (String → List α) → List α}

/-- The values of a field are not changed by fields of other names. -/
theorem valuesInOrder_of_not_mem {fs : List (FieldVariable α)} {name : String}
    (h : name ∉ fs.map (·.name)) (known : String → List α) :
    valuesInOrder value known fs name = known name := by
  induction fs generalizing known with
  | nil => rfl
  | cons f fs ih =>
    rw [List.map_cons, List.mem_cons, not_or] at h
    rw [valuesInOrder, ih h.2, if_neg h.1]

/-- Fields are computed one part after the other. -/
theorem valuesInOrder_append (fs gs : List (FieldVariable α)) (known : String → List α) :
    valuesInOrder value known (fs ++ gs) = valuesInOrder value (valuesInOrder value known fs) gs := by
  induction fs generalizing known with
  | nil => rfl
  | cons f fs ih => rw [List.cons_append, valuesInOrder, ih, valuesInOrder]

/-- **Values in order satisfy their equation** if those of a field depend on earlier fields only. -/
theorem Form.Valid.valuesInOrder_eq {form : Form α} (hform : form.Valid) {f : FieldVariable α}
    (hf : f ∈ form.fields) (hvalue : ∀ known known' : String → List α,
      (∀ g ∈ form.fields, g.id < f.id → known g.name = known' g.name) → value f known = value f known') :
    valuesInOrder value (fun _ => []) form.fields f.name =
      value f (valuesInOrder value (fun _ => []) form.fields) := by
  obtain ⟨hlt, hget⟩ := List.getElem?_eq_some_iff.mp (hform.getElem?_id hf)
  -- The fields before `f`, and `f` with those after it.
  have hsplit : form.fields = form.fields.take f.id ++ f :: form.fields.drop (f.id + 1) := by
    have hdrop := List.drop_eq_getElem_cons hlt
    rw [hget] at hdrop
    rw [← hdrop, List.take_append_drop]
  set known := valuesInOrder value (fun _ => []) (form.fields.take f.id) with hknown
  have hvalues : valuesInOrder value (fun _ => []) form.fields = valuesInOrder value
      (fun name => if name = f.name then value f known else known name)
      (form.fields.drop (f.id + 1)) := by
    conv_lhs => rw [hsplit, valuesInOrder_append, valuesInOrder]
  have hnodup := hform.nodup
  rw [hsplit, List.map_append, List.map_cons] at hnodup
  obtain ⟨-, hlater, hapart⟩ := List.nodup_append.mp hnodup
  have hself : valuesInOrder value (fun _ => []) form.fields f.name = value f known := by
    rw [hvalues, valuesInOrder_of_not_mem (List.nodup_cons.mp hlater).1, if_pos rfl]
  rw [hself]
  -- What is known before `f` is what is known in the end, for the fields `f` refers to.
  refine hvalue _ _ fun g hg hid => ?_
  have hmem : g ∈ form.fields.take f.id := by
    refine List.mem_of_getElem? (i := g.id) ?_
    rw [List.getElem?_take_of_lt hid]
    exact hform.getElem?_id hg
  have hne := hapart g.name (List.mem_map_of_mem hmem)
  have hlast : g.name ∉ (form.fields.drop (f.id + 1)).map (·.name) :=
    fun h => hne _ (List.mem_cons_of_mem _ h) rfl
  rw [hvalues, valuesInOrder_of_not_mem hlast, if_neg (hne _ (List.mem_cons_self ..))]

end InOrder

variable [Scalar α]

/-! ## (2) Fields -/

/-- **The values of a field,** from those of other fields if it is local. -/
def FieldVariable.values (f : FieldVariable α) (point : PointData α) (fields : String → List α) :
    List α :=
  match f.definition with
  | .perEntry (some e) => e.values fields point.deriv
  | .perEntry none => []
  | _ => f.stored point

/-- The values of some fields by name, later fields computed from earlier ones. -/
def valuesByName (point : PointData α) (known : String → List α) :
    List (FieldVariable α) → String → List α
  | [] => known
  | f :: fs => valuesByName point
      (fun name => if name = f.name then f.values point known else known name) fs

/-- These are values in order. -/
theorem valuesByName_eq (point : PointData α) (known : String → List α) (fs : List (FieldVariable α)) :
    valuesByName point known fs = valuesInOrder (fun f => f.values point) known fs := by
  induction fs generalizing known with
  | nil => rfl
  | cons f fs ih => rw [valuesByName, valuesInOrder, ih]

/-- An array field has its stored components as values, whatever other fields are. -/
theorem FieldVariable.values_of_isArray {f : FieldVariable α} (h : f.isArray = true)
    (point : PointData α) (fields : String → List α) : f.values point fields = f.stored point := by
  unfold isArray at h
  unfold values
  split at h
  · cases h
  · rename_i hdef
    split
    · exact absurd ‹_› (hdef _)
    · exact absurd ‹_› (hdef _)
    · rfl

/-- A local field has the value of its definition. -/
theorem FieldVariable.values_of_perEntry {f : FieldVariable α} {e : Expr α}
    (h : f.definition = .perEntry (some e)) (point : PointData α) (fields : String → List α) :
    f.values point fields = e.values fields point.deriv := by
  rw [values, h]

namespace Form

/-- **The values of the fields of a form by name,** computed in the order of registration. -/
def fieldValues (form : Form α) (point : PointData α) : String → List α :=
  valuesByName point (fun _ => []) form.fields

variable {form : Form α}

/-- The values of a field depend on those of earlier fields. -/
theorem Valid.values_congr (hform : form.Valid) {point : PointData α} {f : FieldVariable α}
    (hf : f ∈ form.fields) {known known' : String → List α}
    (h : ∀ g ∈ form.fields, g.id < f.id → known g.name = known' g.name) :
    f.values point known = f.values point known' := by
  cases harray : f.isArray with
  | true => rw [f.values_of_isArray harray, f.values_of_isArray harray]
  | false =>
    obtain ⟨o, ho⟩ := FieldVariable.perEntry_of_not_isArray harray
    obtain ⟨e, rfl, -, -, hnodes⟩ := hform.locals f hf o ho
    rw [f.values_of_perEntry ho, f.values_of_perEntry ho]
    refine Expr.values_congr (fun name shape symmetric hnode => ?_) fun _ _ _ => rfl
    obtain ⟨g, hg, rfl, hid, -⟩ := hnodes _ hnode
    exact h g hg hid

/-- **The values of the fields satisfy the definitions,** local ones read over the same values. -/
theorem Valid.fieldValues_eq (hform : form.Valid) (point : PointData α) {f : FieldVariable α}
    (hf : f ∈ form.fields) :
    form.fieldValues point f.name = f.values point (form.fieldValues point) := by
  rw [fieldValues, valuesByName_eq]
  exact hform.valuesInOrder_eq hf fun _ _ h => hform.values_congr hf h

/-! ## (3) Accumulations -/

/-- **The value of an expression of a form** at a point, entry by entry. -/
def valuesOf (form : Form α) (point : PointData α) (e : Expr α) : List α :=
  e.values (form.fieldValues point) point.deriv

/-- The value that is accumulated for a scalar. -/
def scalarOf (form : Form α) (point : PointData α) (o : Operand α) : α :=
  match o with
  | some e => (form.valuesOf point e).getD 0 Scalar.zero
  | none => Scalar.zero

/-- **The values that a slot receives at a point,** in the order of the accumulations. -/
def accumulated (form : Form α) (point : PointData α) (slot : Nat) : List α :=
  (form.accumulations.filter fun a => a.slot = (slot : Int)).map fun a => form.scalarOf point a.expression

end Form

/-- Fields are referred to in an expression as they were registered. -/
def Form.Matches (form : Form α) (e : Expr α) : Prop :=
  ∀ name shape symmetric, .field name shape symmetric ∈ e.nodes →
    ∀ f ∈ form.fields, f.name = name → shape = f.shape ∧ symmetric = f.symmetric

/-- **Every reference to a field carries the shape and symmetry** under which the field is registered. -/
def Form.ReferencesMatch (form : Form α) : Prop :=
  (∀ f ∈ form.fields, ∀ e, f.definition.expression = some e → form.Matches e) ∧
    ∀ a ∈ form.accumulations, ∀ e, a.expression = some e → form.Matches e

/-! ## (4) References that match -/

section References

omit [Scalar α]

/-- Whether a node refers to a field as it is registered, if it refers to that field. -/
def Expr.refersTo (f : FieldVariable α) : Expr α → Bool
  | .field name shape symmetric => f.name != name || (shape == f.shape && symmetric == f.symmetric)
  | _ => true

/-- Whether all nodes of an expression refer to the fields of a form as they are registered. -/
def Form.matchesIn (form : Form α) (e : Expr α) : Bool :=
  e.nodes.all fun node => form.fields.all node.refersTo

/-- This is what it is meant to be. -/
theorem Form.matchesIn_iff {form : Form α} {e : Expr α} : form.matchesIn e = true ↔ form.Matches e := by
  rw [matchesIn, List.all_eq_true]
  constructor
  · intro h name shape symmetric hnode f hf hname
    have hrefers := List.all_eq_true.mp (h _ hnode) f hf
    simpa [Expr.refersTo, hname] using hrefers
  · intro h node hnode
    refine List.all_eq_true.mpr fun f hf => ?_
    cases node with
    | field name shape symmetric =>
      by_cases hname : f.name = name
      · simpa [Expr.refersTo, hname] using h name shape symmetric hnode f hf hname
      · simp [Expr.refersTo, hname]
    | _ => rfl

/-- Whether an operand that is present matches. -/
def Form.matchesOperand (form : Form α) : Operand α → Bool
  | some e => form.matchesIn e
  | none => true

/-- **Whether every reference matches** can be computed. -/
theorem Form.referencesMatch_of_all {form : Form α}
    (hfields : (form.fields.all fun f => form.matchesOperand f.definition.expression) = true)
    (hsums : (form.accumulations.all fun a => form.matchesOperand a.expression) = true) :
    form.ReferencesMatch := by
  refine ⟨fun f hf e he => ?_, fun a ha e he => ?_⟩
  · have hmatch := List.all_eq_true.mp hfields f hf
    rw [he] at hmatch
    exact matchesIn_iff.mp hmatch
  · have hmatch := List.all_eq_true.mp hsums a ha
    rw [he] at hmatch
    exact matchesIn_iff.mp hmatch

end References

end Galerkin
