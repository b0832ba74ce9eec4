import Galerkin.Proofs.Form.Kept

/-! # Direct values of precomputed fields

At a point a precomputed field has the values of its definition, over the values that the fields it refers
to have there, precomputed ones again by their definitions: of all that is stored only builtin and input
fields are looked at. These are the values that stored fields must have, and no others satisfy the
definitions.

* **`FieldVariable.mirrored`** — the entries of a field from those of its definition;
* **`Form.directValues`** — the direct values by name, and `directValues_eq`: they satisfy the definitions;
* **`Form.directEntry`** — an entry of an expression over direct values;
* **`Form.Valid.stored_eq_direct`** — stored fields that satisfy their definitions have direct values. -/

namespace Galerkin

variable {α : Type} [Scalar α]

/-! ## (1) Values of precomputed fields -/

namespace FieldVariable

/-- **The entries of a field from those of its definition.** A symmetric field has the entries on and above
the diagonal, and their mirror images below it. -/
def mirrored (f : FieldVariable α) (values : List α) : List α :=
  f.shape.positions.map fun (i, j) =>
    values.getD ((f.upper i j).1 * f.shape.cols + (f.upper i j).2) Scalar.zero

/-- The values of a field, from those of other fields if it is precomputed or local. -/
def direct (f : FieldVariable α) (point : PointData α) (fields : String → List α) : List α :=
  match f.definition with
  | .precomputed (some e) => f.mirrored (e.values fields point.deriv)
  | _ => f.values point fields

variable {f : FieldVariable α}

/-- A precomputed field has the entries of its definition. -/
theorem direct_of_precomputed {e : Expr α} (h : f.definition = .precomputed (some e))
    (point : PointData α) (fields : String → List α) :
    f.direct point fields = f.mirrored (e.values fields point.deriv) := by
  rw [direct, h]

/-- Other fields have their values. -/
theorem direct_of_not_precomputed (h : ∀ o, f.definition ≠ .precomputed o) (point : PointData α)
    (fields : String → List α) : f.direct point fields = f.values point fields := by
  unfold direct
  split
  · exact absurd ‹_› (h _)
  · rfl

end FieldVariable

namespace Form

/-- **The direct values of the fields of a form by name,** computed in the order of registration. -/
def directValues (form : Form α) (point : PointData α) : String → List α :=
  valuesInOrder (fun f => f.direct point) (fun _ => []) form.fields

/-- **Entry `(i, j)` of an expression** over direct values. -/
def directEntry (form : Form α) (point : PointData α) (e : Expr α) (i j : Nat) : α :=
  (e.values (form.directValues point) point.deriv).getD (i * e.shape.cols + j) Scalar.zero

variable {form : Form α} {f : FieldVariable α}

/-- **A definition over the grid** depends on the earlier array fields, and on nothing else. -/
theorem Valid.values_congr_precomputed (hform : form.Valid) (hf : f ∈ form.fields) {e : Expr α}
    (he : f.definition = .precomputed (some e)) {fields fields' : String → List α}
    {derivs derivs' : String → List Nat → α} (h : ∀ g ∈ form.fields, g.id < f.id → g.isArray = true →
      fields g.name = fields' g.name) : e.values fields derivs = e.values fields' derivs' := by
  obtain ⟨x, hx, -, -, hnodes⟩ := hform.precomputed f hf _ he
  obtain rfl := Option.some.inj hx
  refine Expr.values_congr (fun name shape symmetric hnode => ?_) fun basis orders hnode => ?_
  · obtain ⟨g, hg, rfl, hid, harray⟩ := hnodes _ hnode
    exact h g hg hid (harray rfl)
  · -- There is no derivative of a basis function in it.
    exact nomatch (hnodes _ hnode).1

/-- **Direct values satisfy the definitions** of the fields. -/
theorem Valid.directValues_eq (hform : form.Valid) (point : PointData α) (hf : f ∈ form.fields) :
    form.directValues point f.name = f.direct point (form.directValues point) := by
  refine hform.valuesInOrder_eq hf fun known known' hknown => ?_
  by_cases hprecomputed : ∃ o, f.definition = .precomputed o
  · obtain ⟨o, ho⟩ := hprecomputed
    obtain ⟨e, rfl, -⟩ := hform.precomputed f hf o ho
    rw [FieldVariable.direct_of_precomputed ho, FieldVariable.direct_of_precomputed ho]
    exact congrArg f.mirrored (hform.values_congr_precomputed hf ho fun g hg hid _ => hknown g hg hid)
  · have hother : ∀ o, f.definition ≠ .precomputed o := fun o ho => hprecomputed ⟨o, ho⟩
    rw [FieldVariable.direct_of_not_precomputed hother, FieldVariable.direct_of_not_precomputed hother]
    exact hform.values_congr hf hknown

/-! ## (2) Stored values -/

variable {point stored : PointData α}

/-- **Stored fields that satisfy their definitions have direct values.** The builtin and input fields are
those of `point`; every precomputed field is stored as its definition says over what is stored. -/
theorem Valid.stored_eq_direct (hform : form.Valid)
    (hsampled : ∀ f ∈ form.fields, f.isArray = true → (∀ o, f.definition ≠ .precomputed o) →
      f.stored stored = f.stored point)
    (hkept : ∀ f ∈ form.fields, ∀ e, f.definition = .precomputed (some e) →
      f.stored stored = f.mirrored (form.valuesOf stored e))
    (hf : f ∈ form.fields) (harray : f.isArray = true) :
    f.stored stored = form.directValues point f.name := by
  -- A definition refers to fields of smaller numbers.
  induction hid : f.id using Nat.strong_induction_on generalizing f with
  | _ n ih =>
    rw [hform.directValues_eq point hf]
    by_cases hprecomputed : ∃ o, f.definition = .precomputed o
    · obtain ⟨o, ho⟩ := hprecomputed
      obtain ⟨e, rfl, -⟩ := hform.precomputed f hf o ho
      rw [hkept f hf e ho, FieldVariable.direct_of_precomputed ho]
      refine congrArg f.mirrored (hform.values_congr_precomputed hf ho fun g hg hlt hgarray => ?_)
      rw [hform.fieldValues_eq stored hg, g.values_of_isArray hgarray]
      exact ih g.id (hid ▸ hlt) hg hgarray rfl
    · have hother : ∀ o, f.definition ≠ .precomputed o := fun o ho => hprecomputed ⟨o, ho⟩
      rw [FieldVariable.direct_of_not_precomputed hother, f.values_of_isArray harray]
      exact hsampled f hf harray hother

/-- Then a definition has its direct value over what is stored. -/
theorem Valid.valuesOf_eq_direct (hform : form.Valid)
    (hstored : ∀ g ∈ form.fields, g.isArray = true → g.stored stored = form.directValues point g.name)
    (hf : f ∈ form.fields) {e : Expr α} (he : f.definition = .precomputed (some e)) :
    form.valuesOf stored e = e.values (form.directValues point) point.deriv := by
  refine hform.values_congr_precomputed hf he fun g hg _ harray => ?_
  rw [hform.fieldValues_eq stored hg, g.values_of_isArray harray, hstored g hg harray]

end Form

end Galerkin
