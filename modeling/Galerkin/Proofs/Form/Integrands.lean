import Galerkin.Proofs.Form.Kept
import Galerkin.Proofs.Form.Loads
import Galerkin.Proofs.Form.PointValues
import Galerkin.Proofs.Form.Programs

/-! # Integrands of the standard forms

In exact arithmetic the program of a standard form adds to each slot, at every point, the integrand that the
form is named for, whatever the weight, the transposed inverse Jacobian and the derivatives of the basis
functions are there. That holds in every dimension, and no matrix is assumed to be symmetric or regular.

* **`FormSpec.Adds`**, **`FormSpec.AddsThrough`** — what the program of a specification adds;
* **`StandardForm.mass_adds`**, **`heat_adds`**, **`wave_adds`**, **`divDiv_adds`**, **`stiffness_adds`**,
  **`vectorLoad_adds`** — form by form;
* **`StandardForm.stiffness_eq`** — the packed coefficients give the product of the physical gradients;
* **`StandardForm.standardForms_add`** — the standard forms add their integrands. -/

namespace Galerkin

variable {K : Type} [Field K] [LinearOrder K]

/-! ## (1) What a specification adds -/

/-- **The form of a specification adds an integrand:** it is built in dimension `d` and has a program with
some slots, and at every point the program adds to each slot the value of the integrand there. -/
def FormSpec.Adds (spec : FormSpec K) (d slots : Nat) (integrand : PointValues K → Nat → K) : Prop :=
  ∃ form p, spec.build d = .ok form ∧ lowerForm form = .ok p ∧ p.slots = slots ∧
    ∀ (v : PointValues K) (sums : Array K), sums.size = slots →
      p.evaluateAt (v.pointOf form) sums = sums.mapIdx fun slot start => start + integrand v slot

/-- **A form adds an integrand through a precomputed field:** the field is a symmetric matrix, of which the
upper triangle is stored, and the integrand is added if the program of the field has computed that. -/
def FormSpec.AddsThrough (spec : FormSpec K) (name : String) (d slots : Nat)
    (integrand : PointValues K → Nat → K) : Prop :=
  ∃ form p f q, spec.build d = .ok form ∧ lowerForm form = .ok p ∧ form.field name = .ok f ∧
    lowerField form f = .ok q ∧ f.symmetric = true ∧ f.storageSize = d * (d + 1) / 2 ∧ p.slots = slots ∧
    ∀ (v : PointValues K) (sums : Array K), sums.size = slots →
      let stored := q.evaluateAt (v.pointOf form) (Array.replicate f.storageSize 0)
      p.evaluateAt ((v.set name stored).pointOf form) sums =
        sums.mapIdx fun slot start => start + integrand v slot

section Built

variable {spec : FormSpec K} {d : Nat} {fs : List (FieldVariable K)} {sums : List (Accumulation K)}
  {form : Form K} {bases : List String}

omit [Field K] [LinearOrder K] in
/-- Forms that are built from expressions over their fields have references that match. -/
theorem FormSpec.Builds.referencesMatch (h : spec.Builds d fs sums form) (hform : form.Valid)
    (hsums : ∀ a ∈ sums, ∀ e, a.expression = some e → e.Uses d fs bases)
    (hdefinitions : ∀ f ∈ fs, ∀ e, f.definition.expression = some e → e.Uses d fs bases) :
    form.ReferencesMatch := by
  obtain ⟨-, rfl, rfl, -⟩ := h
  exact ⟨fun f hf e he => hform.matches_of_uses (hdefinitions f hf e he),
    fun a ha e he => hform.matches_of_uses (hsums a ha e he)⟩

omit [Field K] [LinearOrder K] in
/-- Weight and transposed inverse Jacobian are fields of the form. -/
theorem FormSpec.Builds.geometry (h : spec.Builds d fs sums form)
    (hsub : StandardForm.geometryFields d ⊆ fs) :
    FormBuilder.weightVariable 0 ∈ form.fields ∧ FormBuilder.jacobianVariable 1 d ∈ form.fields := by
  rw [h.fields]
  exact ⟨hsub (List.mem_cons_self ..), hsub (List.mem_cons_of_mem _ (List.mem_singleton_self _))⟩

/-- **A slot receives the value of its accumulation** if no other accumulation has that slot. -/
theorem FormSpec.Builds.accumulated (h : spec.Builds d fs sums form) (hnodup : (sums.map (·.slot)).Nodup)
    {slot : Nat} {e : Expr K} (hmem : ⟨slot, some e⟩ ∈ sums) (point : PointData K) {value : K}
    (hvalue : form.valuesOf point e = [value]) : form.accumulated point slot = [value] := by
  have hone := filter_key_eq_singleton hnodup hmem
  rw [Form.accumulated, h.accumulations, hone, List.map_singleton, Form.scalarOf, hvalue]
  rfl

/-- **A program adds the values of the accumulations** at a point, one for each slot. -/
theorem FormSpec.Builds.evaluateAt (h : spec.Builds d fs sums form) (hform : form.Valid)
    (hnodup : (sums.map (·.slot)).Nodup) {p : Program K} (hp : lowerForm form = .ok p) {point : PointData K}
    {values : Nat → K} (hvalues : ∀ slot < form.outputSlots, ∃ e, ⟨(slot : Int), some e⟩ ∈ sums ∧
      form.valuesOf point e = [values slot]) {start : Array K} (hsize : start.size = form.outputSlots) :
    p.evaluateAt point start = start.mapIdx fun slot value => value + values slot := by
  obtain ⟨hsize', hvalue⟩ := lowerForm_evaluateAt hform hp point start
  refine Array.ext (by rw [hsize', Array.size_mapIdx]) fun slot hslot hslot' => ?_
  have hlt : slot < start.size := by rwa [Array.size_mapIdx] at hslot'
  obtain ⟨e, he, hv⟩ := hvalues slot (hsize ▸ hlt)
  -- Of all terms only that one goes to the slot.
  have hget := hvalue slot
  rw [h.accumulated hnodup he _ hv, Array.getElem?_eq_getElem hslot, Array.getElem?_eq_getElem hlt,
    Option.map_some, List.foldl_cons, List.foldl_nil] at hget
  rw [Option.some.inj hget, Array.getElem_mapIdx]

/-- **A form adds the values of its accumulations,** one for each slot. -/
theorem FormSpec.Builds.adds (h : spec.Builds d fs sums form) (hsound : spec.Sound)
    (hsums : ∀ a ∈ sums, ∀ e, a.expression = some e → e.Uses d fs bases)
    (hdefinitions : ∀ f ∈ fs, ∀ e, f.definition.expression = some e → e.Uses d fs bases)
    (hne : sums ≠ []) (hnodup : (sums.map (·.slot)).Nodup) {integrand : PointValues K → Nat → K}
    (hvalues : ∀ slot < form.outputSlots, ∃ e, ⟨(slot : Int), some e⟩ ∈ sums ∧
      ∀ v : PointValues K, form.valuesOf (v.pointOf form) e = [integrand v slot]) :
    spec.Adds d form.outputSlots integrand := by
  have hform := hsound.valid h.build
  obtain ⟨p, hp⟩ := lowerForm_isOk hform (h.referencesMatch hform hsums hdefinitions)
    (h.accumulations ▸ hne)
  refine ⟨form, p, h.build, hp, (lowerForm_slots hform hp).1, fun v start hsize => ?_⟩
  refine h.evaluateAt hform hnodup hp (fun slot hslot => ?_) hsize
  obtain ⟨e, he, hv⟩ := hvalues slot hslot
  exact ⟨e, he, hv v⟩

/-- **A form with one accumulation** adds its value to the only slot. -/
theorem FormSpec.Builds.adds_one {e : Expr K} (h : spec.Builds d fs [⟨0, some e⟩] form)
    (hsound : spec.Sound) (hslots : form.outputSlots = 1) (he : e.Uses d fs bases)
    (hdefinitions : ∀ f ∈ fs, ∀ e, f.definition.expression = some e → e.Uses d fs bases)
    {integrand : PointValues K → K}
    (hvalue : ∀ v : PointValues K, form.valuesOf (v.pointOf form) e = [integrand v]) :
    spec.Adds d 1 fun v _ => integrand v := by
  have huses : ∀ a ∈ [(⟨0, some e⟩ : Accumulation K)], ∀ x, a.expression = some x → x.Uses d fs bases := by
    intro a ha x hx
    obtain rfl := List.mem_singleton.mp ha
    exact Option.some.inj hx ▸ he
  have hvalues : ∀ slot < form.outputSlots, ∃ x, (⟨(slot : Int), some x⟩ : Accumulation K) ∈ [⟨0, some e⟩] ∧
      ∀ v : PointValues K, form.valuesOf (v.pointOf form) x = [integrand v] := by
    intro slot hslot
    obtain rfl : slot = 0 := by omega
    exact ⟨e, List.mem_singleton_self _, hvalue⟩
  have hadds := h.adds hsound huses hdefinitions (List.cons_ne_nil _ _) (List.nodup_singleton _) hvalues
  rwa [hslots] at hadds

end Built

/-! ## (2) Forms of the geometry -/

namespace StandardForm

open FormBuilder

variable {d : Nat}

/-- **Mass adds** the product of weight, trial and test function. -/
theorem mass_adds (hd : 1 ≤ d) : (mass : FormSpec K).Adds d 1 fun v _ =>
    v.weight * v.derivative .trial d 0 * v.derivative .test d 0 := by
  obtain ⟨form, h⟩ := mass_builds (α := K) hd
  have hform := mass_sound.valid h.build
  refine h.adds_one mass_sound h.slots uses_massIntegrand
    (uses_of_no_definition (List.forall_mem_singleton.mpr rfl)) fun v => ?_
  have hw := v.valuesOf_weight hform (h.fields ▸ List.mem_singleton_self (weightVariable 0))
  exact Form.valuesOf_binary (Form.valuesOf_binary hw (v.valuesOf_derivative .trial 0))
    (v.valuesOf_derivative .test 0)

/-- **Heat adds** the time derivative of the trial function times the test function, and the product of the
space gradients. -/
theorem heat_adds (hd : 2 ≤ d) : (heat : FormSpec K).Adds d 1 fun v _ =>
    v.weight * (v.gradient .trial d 0 (d - 1) * v.derivative .test d 0 +
      ∑ i ∈ Finset.range (d - 1), v.gradient .trial d 0 i * v.gradient .test d 0 i) := by
  obtain ⟨form, h⟩ := heat_builds (α := K) hd
  have hform := heat_sound.valid h.build
  obtain ⟨hweight, hjacobian⟩ := h.geometry (List.Subset.refl _)
  refine h.adds_one heat_sound h.slots uses_heatIntegrand
    (uses_of_no_definition expression_geometryFields) fun v => ?_
  have hgradient (role : BasisRole) := v.valuesOf_physicalGradient hform (by omega) hjacobian role 0
  have hrate := v.valuesOf_component hform (by omega : d - 1 < d) hjacobian .trial 0
  have hspace := valuesOf_spaceProductOf hd (hgradient .trial) (hgradient .test)
  exact Form.valuesOf_binary (v.valuesOf_weight hform hweight) (Form.valuesOf_binary
    (Form.valuesOf_binary hrate (v.valuesOf_derivative .test 0)) hspace)

omit [Field K] [LinearOrder K] in
/-- The definition of the local field of wave refers to the geometry and to test functions. -/
theorem uses_waveDefinition : ∀ f ∈ geometryFields d ++ [waveField (α := K) d], ∀ e,
    f.definition.expression = some e → e.Uses d (geometryFields d ++ [waveField d]) bothNames :=
  uses_of_last_definition expression_geometryFields fun _ he =>
    Option.some.inj he ▸ uses_physicalGradientOf (by decide) _

/-- **Wave adds** the second time derivative of the trial function times the time derivative of the test
function, and the product of the space gradients of the trial function and of that time derivative. -/
theorem wave_adds (hd : 2 ≤ d) : (wave : FormSpec K).Adds d 1 fun v _ =>
    v.weight * (v.gradient .trial d (Pi.single (d - 1) 1) (d - 1) * v.gradient .test d 0 (d - 1) +
      ∑ i ∈ Finset.range (d - 1), v.gradient .trial d 0 i * v.gradient .test d (Pi.single (d - 1) 1) i) := by
  obtain ⟨form, h⟩ := wave_builds (α := K) hd
  have hform := wave_sound.valid h.build
  obtain ⟨hweight, hjacobian⟩ := h.geometry (List.subset_append_left ..)
  have hlocal : waveField d ∈ form.fields := by
    rw [h.fields]
    exact List.mem_append_right _ (List.mem_singleton_self _)
  refine h.adds_one wave_sound h.slots uses_waveIntegrand uses_waveDefinition fun v => ?_
  have hgradient (role : BasisRole) (orders : Nat → Nat) :=
    v.valuesOf_physicalGradient hform (by omega) hjacobian role orders
  -- The local field is read with the values of its definition.
  have hmixed : form.valuesOf (v.pointOf form) (.field "gv_t" (.vector d) false) =
      (List.range d).map (v.gradient .test d (Pi.single (d - 1) 1)) := by
    rw [Form.valuesOf, Expr.values]
    refine (hform.fieldValues_eq _ hlocal).trans ?_
    rw [FieldVariable.values_of_perEntry rfl]
    exact hgradient .test _
  have hutt := v.valuesOf_component hform (by omega : d - 1 < d) hjacobian .trial (Pi.single (d - 1) 1)
  have hvt := v.valuesOf_component hform (by omega : d - 1 < d) hjacobian .test 0
  have hspace := valuesOf_spaceProductOf hd (hgradient .trial 0) hmixed
  exact Form.valuesOf_binary (v.valuesOf_weight hform hweight) (Form.valuesOf_binary
    (Form.valuesOf_binary hutt hvt) hspace)

omit [Field K] [LinearOrder K] in
/-- No two accumulations of the divergence form have one slot. -/
theorem nodup_divDivSums : ((divDivSums d : List (Accumulation K)).map (·.slot)).Nodup := by
  have hslots : (divDivSums d : List (Accumulation K)).map (·.slot) =
      (List.range (d * d)).map fun k : Nat => (k : Int) := by
    rw [divDivSums, List.map_map, map_positions]
    exact List.map_congr_left fun k _ => congrArg Int.ofNat (Nat.div_add_mod k d)
  rw [hslots]
  exact List.Nodup.map Int.ofNat_injective List.nodup_range

/-- **The divergence form adds** to slot `d * i + j` component `j` of the gradient of the trial function times
component `i` of that of the test function. -/
theorem divDiv_adds (hd : 1 ≤ d) : (divDiv : FormSpec K).Adds d (d * d) fun v slot =>
    v.weight * v.gradient .trial d 0 (slot % d) * v.gradient .test d 0 (slot / d) := by
  obtain ⟨form, h⟩ := divDiv_builds (α := K) hd
  have hform := divDiv_sound.valid h.build
  obtain ⟨hweight, hjacobian⟩ := h.geometry (List.Subset.refl _)
  have hslots : form.outputSlots = d * d := h.slots
  have hvalues : ∀ slot < form.outputSlots, ∃ e, ⟨(slot : Int), some e⟩ ∈ divDivSums d ∧
      ∀ v : PointValues K, form.valuesOf (v.pointOf form) e =
        [v.weight * v.gradient .trial d 0 (slot % d) * v.gradient .test d 0 (slot / d)] := by
    intro slot hslot
    rw [hslots] at hslot
    -- A slot is a pair of components, row by row.
    have hi : slot / d < d := Nat.div_lt_of_lt_mul hslot
    have hj : slot % d < d := Nat.mod_lt _ hd
    refine ⟨divDivIntegrand d (slot / d) (slot % d), List.mem_map.mpr
      ⟨(slot / d, slot % d), Shape.mem_positions.mpr ⟨hi, hj⟩, ?_⟩, fun v => ?_⟩
    · rw [Nat.div_add_mod]
    · exact Form.valuesOf_binary (Form.valuesOf_binary (v.valuesOf_weight hform hweight)
        (v.valuesOf_component hform hj hjacobian .trial 0)) (v.valuesOf_component hform hi hjacobian .test 0)
  have hadds := h.adds divDiv_sound uses_divDivSums (uses_of_no_definition expression_geometryFields)
    (divDivSums_ne_nil hd) nodup_divDivSums hvalues
  rwa [hslots] at hadds

/-! ## (3) Stiffness -/

/-- The value of an entry of the pulled-back coefficients. -/
theorem values_pulledBack {fields : String → List K} {derivs : String → List Nat → K} {w : K}
    (hd : 1 ≤ d) (hw : fields "weight" = [w]) (r c : Nat) : (pulledBack d r c).values fields derivs =
      [w * ∑ k ∈ Finset.range d,
        (fields "JacInvT").getD (k * d + r) 0 * (fields "JacInvT").getD (k * d + c) 0] := by
  let product (k : Nat) : Expr K :=
    .binary .mul (.entry (inverseJacobian d) k r) (.entry (inverseJacobian d) k c)
  have hproduct : ∀ k, (product k).values fields derivs =
      [(fields "JacInvT").getD (k * d + r) 0 * (fields "JacInvT").getD (k * d + c) 0] := by
    intro k
    simp only [product, Expr.values, inverseJacobian, Scalar.zero_exact]
    rfl
  have hsum : ∀ n, ((List.range' 1 n).foldl (fun sum k => .binary .add sum (product k)) (product 0)).values
      fields derivs = [∑ k ∈ Finset.range (n + 1),
        (fields "JacInvT").getD (k * d + r) 0 * (fields "JacInvT").getD (k * d + c) 0] := by
    intro n
    induction n with
    | zero => rw [Finset.sum_range_one]; exact hproduct 0
    | succ n ih =>
      rw [List.range'_concat, List.foldl_append, List.foldl_cons, List.foldl_nil, Expr.values, ih, hproduct,
        Finset.sum_range_succ _ (n + 1), Nat.one_mul, Nat.add_comm 1 n]
      rfl
  obtain ⟨n, rfl⟩ := Nat.exists_eq_add_of_le' hd
  show (Expr.binary .mul weight ((List.range' 1 (n + 1 - 1)).foldl
    (fun sum k => .binary .add sum (product k)) (product 0))).values fields derivs = _
  rw [Expr.values, Nat.add_sub_cancel, hsum, weight, Expr.values, hw]
  rfl

omit [LinearOrder K] in
/-- **The packed coefficients give the product of the physical gradients:** with the matrix of the products of
the columns of `T`, the product of `x` and `y` is that of their images under `T`. -/
theorem stiffness_eq (w : K) (T : Nat → Nat → K) (x y : Nat → K) (d : Nat) :
    ∑ r ∈ Finset.range d, (∑ c ∈ Finset.range d,
        (w * ∑ k ∈ Finset.range d, T k r * T k c) * x c) * y r =
      w * ∑ k ∈ Finset.range d, (∑ c ∈ Finset.range d, T k c * x c) * ∑ r ∈ Finset.range d, T k r * y r := by
  simp only [Finset.mul_sum, Finset.sum_mul]
  -- The sum over the rows of `T` comes first on the right.
  conv_rhs => rw [Finset.sum_comm]
  refine Finset.sum_congr rfl fun r _ => ?_
  rw [Finset.sum_comm]
  refine Finset.sum_congr rfl fun c _ => Finset.sum_congr rfl fun k _ => ?_
  ring

omit [Field K] [LinearOrder K] in
/-- The definition of the coefficients refers to the geometry. -/
theorem uses_coefficientDefinition : ∀ f ∈ stiffnessGeometry d ++ [coefficientField (α := K) d], ∀ e,
    f.definition.expression = some e → e.Uses d (stiffnessGeometry d ++ [coefficientField d]) bothNames :=
  uses_of_last_definition (List.forall_mem_cons.mpr ⟨rfl, List.forall_mem_singleton.mpr rfl⟩) fun _ he =>
    Option.some.inj he ▸ uses_pulledBackMatrix.mono (List.Subset.refl _) (List.nil_subset _)

section Coefficients

variable {form : Form K} (v : PointValues K)

omit [Field K] [LinearOrder K] in
/-- The geometry fields of stiffness are fields of its form. -/
theorem mem_stiffnessFields (hfields : form.fields = stiffnessGeometry d ++ [coefficientField d]) :
    jacobianVariable 0 d ∈ form.fields ∧ weightVariable 1 ∈ form.fields ∧
      coefficientField d ∈ form.fields := by
  rw [hfields]
  exact ⟨List.mem_cons_self .., List.mem_cons_of_mem _ (List.mem_cons_self ..),
    List.mem_append_right _ (List.mem_singleton_self _)⟩

/-- **What the program of the coefficients stores:** the products of the columns of the transposed inverse
Jacobian, scaled by the weight. -/
theorem coefficients_stored (hd : 1 ≤ d) (hform : form.Valid)
    (hfields : form.fields = stiffnessGeometry d ++ [coefficientField d]) {q : Program K}
    (hq : lowerField form (coefficientField d) = .ok q) {r c : Nat} (hr : r < d) (hc : c < d) :
    (q.evaluateAt (v.pointOf form) (Array.replicate (coefficientField (α := K) d).storageSize 0)).getD
      (symmetricIndex r c d) 0 = v.weight * ∑ k ∈ Finset.range d,
        v.field "JacInvT" (k * d + r) * v.field "JacInvT" (k * d + c) := by
  obtain ⟨hjacobian, hweight, hmem⟩ := mem_stiffnessFields hfields
  have hstored := (lowerField_evaluateAt hform hmem rfl hq (v.pointOf form)
    (Array.replicate (coefficientField (α := K) d).storageSize 0)).2 r hr c hc
  have hslot : (coefficientField (α := K) d).backingIndex r c < (coefficientField (α := K) d).storageSize :=
    FieldVariable.backingIndex_lt (hform.shapes _ hmem) hr hc
  have hentry : ∀ i < d, ∀ j < d, (form.valuesOf (v.pointOf form) (pulledBackMatrix d)).getD (i * d + j) 0 =
      v.weight * ∑ k ∈ Finset.range d, v.field "JacInvT" (k * d + i) * v.field "JacInvT" (k * d + j) := by
    intro i hi j hj
    have hT : ∀ k < d, ∀ l < d, (form.fieldValues (v.pointOf form) "JacInvT").getD (k * d + l) 0 =
        v.field "JacInvT" (k * d + l) := fun k hk l hl =>
      (hform.getD_inverseJacobian hjacobian hk hl).trans (v.field_pointOf hform hjacobian _)
    have hw : form.fieldValues (v.pointOf form) "weight" = [v.weight] := by
      have hvalue := v.valuesOf_weight hform hweight
      rwa [Form.valuesOf, weight, Expr.values] at hvalue
    rw [Form.valuesOf, pulledBackMatrix, Expr.values, Expr.firstValues_eq_map, List.map_map,
      getD_map_positions _ hi hj, Function.comp_apply, values_pulledBack hd hw]
    refine congrArg (v.weight * ·) (Finset.sum_congr rfl fun k hk => ?_)
    have hk := Finset.mem_range.mp hk
    rw [hT k hk i hi, hT k hk j hj]
  -- What is stored for a pair of entries is the one on or above the diagonal.
  have hkept : (form.valuesOf (v.pointOf form) (pulledBackMatrix d)).getD (min r c * d + max r c) 0 =
      v.weight * ∑ k ∈ Finset.range d, v.field "JacInvT" (k * d + r) * v.field "JacInvT" (k * d + c) := by
    rw [hentry _ (min_lt_of_left_lt hr) _ (max_lt hr hc)]
    rcases Nat.le_total r c with h | h
    · rw [Nat.min_eq_left h, Nat.max_eq_right h]
    · rw [Nat.min_eq_right h, Nat.max_eq_left h]
      simp only [mul_comm]
  rw [Array.getElem?_replicate, if_pos hslot, Option.map_some] at hstored
  rw [Array.getD_eq_getD_getElem?]
  refine (congrArg (Option.getD · 0) hstored).trans ?_
  rw [Option.getD_some, zero_add, Scalar.zero_exact]
  exact hkept

/-- **The value of stiffness** with the stored coefficients. -/
theorem valuesOf_stiffnessIntegrand (hd : 1 ≤ d) (hform : form.Valid)
    (hfields : form.fields = stiffnessGeometry d ++ [coefficientField d]) {w : K} {T : Nat → Nat → K}
    (hstored : ∀ r < d, ∀ c < d,
      v.field "B" (symmetricIndex r c d) = w * ∑ k ∈ Finset.range d, T k r * T k c) :
    form.valuesOf (v.pointOf form) (stiffnessIntegrand d) = [w * ∑ k ∈ Finset.range d,
      (∑ c ∈ Finset.range d, T k c * v.derivative .trial d (0 + Pi.single c 1)) *
        ∑ r ∈ Finset.range d, T k r * v.derivative .test d (0 + Pi.single r 1)] := by
  obtain ⟨-, -, hmem⟩ := mem_stiffnessFields hfields
  -- Both triangles of the matrix are read from the stored one.
  have hB : ∀ r < d, ∀ c < d, (form.fieldValues (v.pointOf form) "B").getD (r * d + c) 0 =
      w * ∑ k ∈ Finset.range d, T k r * T k c := by
    intro r hr c hc
    rw [show form.fieldValues (v.pointOf form) "B" = _ from hform.fieldValues_array hmem rfl]
    refine (getD_map_positions _ hr hc).trans ?_
    exact (v.field_pointOf hform hmem _).trans (hstored r hr c hc)
  have hrows : (Expr.field "B" (.matrix d d) true : Expr K).shape.rows = d := rfl
  have hcols : (Expr.field "B" (.matrix d d) true : Expr K).shape.cols = d := rfl
  have hcount : d - 1 + 1 = d := Nat.sub_add_cancel hd
  rw [Form.valuesOf, stiffnessIntegrand, Expr.values_innerSum, hcount, ← stiffness_eq]
  refine congrArg (fun sum => [sum]) (Finset.sum_congr rfl fun r hr => ?_)
  have hr := Finset.mem_range.mp hr
  rw [Expr.values, hrows, hcols, getD_map_range _ hr, Expr.rowValue_eq_sum _ _ hd, Expr.values_gradientOf,
    Expr.values_gradientOf, getD_map_range _ hr]
  refine congrArg (· * _) (Finset.sum_congr rfl fun c hc => ?_)
  have hc := Finset.mem_range.mp hc
  rw [getD_map_range _ hc, Expr.values, hB r hr c hc]
  rfl

end Coefficients

/-- **Stiffness adds** the product of the physical gradients, through the packed coefficients. -/
theorem stiffness_adds (hd : 1 ≤ d) : (stiffness : FormSpec K).AddsThrough "B" d 1 fun v _ =>
    v.weight * ∑ i ∈ Finset.range d, v.gradient .trial d 0 i * v.gradient .test d 0 i := by
  obtain ⟨form, h⟩ := stiffness_builds (α := K) hd
  have hform := stiffness_sound.valid h.build
  obtain ⟨-, -, hmem⟩ := mem_stiffnessFields h.fields
  have hsums : ∀ a ∈ [(⟨0, some (stiffnessIntegrand d)⟩ : Accumulation K)], ∀ e, a.expression = some e →
      e.Uses d (stiffnessGeometry d ++ [coefficientField d]) bothNames := by
    intro a ha e he
    obtain rfl := List.mem_singleton.mp ha
    exact Option.some.inj he ▸ uses_stiffnessIntegrand
  have hrefs := h.referencesMatch hform hsums uses_coefficientDefinition
  obtain ⟨p, hp⟩ := lowerForm_isOk hform hrefs (h.accumulations ▸ List.cons_ne_nil _ _)
  obtain ⟨q, hq⟩ := (lowerField_reads hform hmem).2 _ rfl hrefs.sizesMatch
  have hslots : form.outputSlots = 1 := h.slots
  have hsize : (coefficientField (α := K) d).storageSize = d * (d + 1) / 2 := symmetricStorageSize_natCast d
  refine ⟨form, p, coefficientField d, q, h.build, hp, hform.field_eq_ok hmem, hq, rfl, hsize,
    (lowerForm_slots hform hp).1.trans hslots, fun v sums hsums => ?_⟩
  refine h.evaluateAt hform (List.nodup_singleton _) hp (fun slot hslot => ?_) (hsums.trans hslots.symm)
  obtain rfl : slot = 0 := by omega
  exact ⟨stiffnessIntegrand d, List.mem_singleton_self _, valuesOf_stiffnessIntegrand _ hd hform h.fields
    fun r hr c hc => coefficients_stored v hd hform h.fields hq hr hc⟩

/-! ## (4) Loads -/

section Loads

variable {sources : List (String × Option (InputFunction K))} {functions : List (Option (InputFunction K))}

/-- **A load adds** to each slot the product of weight, source and test function. -/
theorem loadSpec_adds {name : String} {n : Nat} {names : Nat → String} (hd : 1 ≤ d)
    (hsources : Loadable sources) (hn : sources.length = n) (hne : 1 ≤ n)
    (hnames : ∀ slot source, sources[slot]? = some source → source.1 = names slot) :
    (loadSpec name n sources).Adds d n fun v slot =>
      v.weight * v.field (names slot) 0 * v.derivative .test d 0 := by
  obtain ⟨form, h⟩ := loadSpec_builds name hd hsources hn hne
  have hform := loadSpec_sound.valid h.build
  have hslots : form.outputSlots = n := h.slots.trans (Int.toNat_natCast n)
  have hweight : weightVariable n ∈ form.fields := by
    rw [h.fields]
    exact List.mem_append_right _ (List.mem_singleton_self _)
  have hvalues : ∀ slot < form.outputSlots, ∃ e, ⟨(slot : Int), some e⟩ ∈ loadSums d sources ∧
      ∀ v : PointValues K, form.valuesOf (v.pointOf form) e =
        [v.weight * v.field (names slot) 0 * v.derivative .test d 0] := by
    intro slot hslot
    obtain ⟨source, hsource⟩ : ∃ source, sources[slot]? = some source :=
      ⟨sources[slot], List.getElem?_eq_getElem (by omega)⟩
    have hmem := h.fields ▸ mem_sourceFields (n := n) hsource
    refine ⟨_, mem_loadSums hsource, fun v => ?_⟩
    have hfield : form.valuesOf (v.pointOf form) (.field source.1 .scalar false) =
        [v.field (names slot) 0] := by
      rw [Form.valuesOf, Expr.values, ← hnames slot source hsource]
      exact (hform.fieldValues_array hmem rfl).trans (congrArg (fun x => [x]) (v.field_pointOf hform hmem 0))
    exact Form.valuesOf_binary (Form.valuesOf_binary (v.valuesOf_weight hform hweight) hfield)
      (v.valuesOf_derivative .test 0)
  have hadds := h.adds loadSpec_sound uses_loadSums (uses_of_no_definition expression_loadFields)
    (loadSums_ne_nil (hn ▸ hne)) nodup_loadSums hvalues
  rwa [hslots] at hadds

/-- **A vector load adds** to slot `c` the product of weight, source function `c` and test function. -/
theorem vectorLoad_adds (hd : 1 ≤ d) (hne : functions ≠ []) (hpresent : ∀ f ∈ functions, f.isSome = true) :
    ∃ spec, vectorLoad functions = .ok spec ∧ spec.Adds d functions.length fun v c =>
      v.weight * v.field (sourceName c) 0 * v.derivative .test d 0 := by
  have hlength : (vectorSources functions).length = functions.length := by
    rw [vectorSources, List.length_map, List.length_zipIdx]
  refine ⟨_, vectorLoad_eq_ok hne hpresent, loadSpec_adds hd (loadable_vectorSources hpresent) hlength
    (List.length_pos_of_ne_nil hne) fun slot source hsource => ?_⟩
  rw [getElem?_vectorSources, Option.map_eq_some_iff] at hsource
  obtain ⟨f, -, rfl⟩ := hsource
  rfl

end Loads

/-! ## (5) All standard forms -/

/-- **The standard forms add their integrands** in every dimension: for all values of the weight, of the
transposed inverse Jacobian and of the derivatives of the basis functions, mass, stiffness, heat, wave, the
divergence form and vector loads add what they are named for. Stiffness goes through the packed coefficients
that its precomputed field has stored. -/
theorem standardForms_add (hd : 1 ≤ d) :
    ((mass : FormSpec K).Adds d 1 fun v _ =>
      v.weight * v.derivative .trial d 0 * v.derivative .test d 0) ∧
    ((stiffness : FormSpec K).AddsThrough "B" d 1 fun v _ =>
      v.weight * ∑ i ∈ Finset.range d, v.gradient .trial d 0 i * v.gradient .test d 0 i) ∧
    (2 ≤ d → (heat : FormSpec K).Adds d 1 fun v _ =>
      v.weight * (v.gradient .trial d 0 (d - 1) * v.derivative .test d 0 +
        ∑ i ∈ Finset.range (d - 1), v.gradient .trial d 0 i * v.gradient .test d 0 i)) ∧
    (2 ≤ d → (wave : FormSpec K).Adds d 1 fun v _ =>
      v.weight * (v.gradient .trial d (Pi.single (d - 1) 1) (d - 1) * v.gradient .test d 0 (d - 1) +
        ∑ i ∈ Finset.range (d - 1),
          v.gradient .trial d 0 i * v.gradient .test d (Pi.single (d - 1) 1) i)) ∧
    ((divDiv : FormSpec K).Adds d (d * d) fun v slot =>
      v.weight * v.gradient .trial d 0 (slot % d) * v.gradient .test d 0 (slot / d)) ∧
    ∀ functions : List (Option (InputFunction K)), functions ≠ [] → (∀ f ∈ functions, f.isSome = true) →
      ∃ spec, vectorLoad functions = .ok spec ∧ spec.Adds d functions.length fun v c =>
        v.weight * v.field (sourceName c) 0 * v.derivative .test d 0 :=
  ⟨mass_adds hd, stiffness_adds hd, heat_adds, wave_adds, divDiv_adds hd,
    fun _ hne hpresent => vectorLoad_adds hd hne hpresent⟩

/-- Values at a point with a transposed inverse Jacobian that is neither symmetric nor diagonal. -/
def skewPoint : PointValues ℚ where
  field name component :=
    if name = "JacInvT" then [1, 2, 3, 4].getD component 0 else if name = "weight" then 2 else 7
  basis load := (if load.role = .trial then 1 else 5) + 2 * load.orders.getD 0 0 + 3 * load.orders.getD 1 0

/-- In the plane all of them are there, with these values at one point. -/
theorem standardForms_add_skewPoint :
    (∃ form p f q, (stiffness : FormSpec ℚ).build 2 = .ok form ∧ lowerForm form = .ok p ∧
      form.field "B" = .ok f ∧ lowerField form f = .ok q ∧
      p.evaluateAt ((skewPoint.set "B" (q.evaluateAt (skewPoint.pointOf form)
        (Array.replicate f.storageSize 0))).pointOf form) #[0] = #[3156]) ∧
    (∃ form p, (wave : FormSpec ℚ).build 2 = .ok form ∧ lowerForm form = .ok p ∧
      p.evaluateAt (skewPoint.pointOf form) #[0] = #[5580]) ∧
    (∃ form p, (divDiv : FormSpec ℚ).build 2 = .ok form ∧ lowerForm form = .ok p ∧
      p.evaluateAt (skewPoint.pointOf form) #[0, 0, 0, 0] = #[506, 1150, 1166, 2650]) ∧
    ∃ spec form p, vectorLoad [some fun _ => .ok (0 : ℚ), some fun _ => .ok 1] = .ok spec ∧
      spec.build 2 = .ok form ∧ lowerForm form = .ok p ∧
      p.evaluateAt (skewPoint.pointOf form) #[0, 0] = #[70, 70] := by
  obtain ⟨-, ⟨form, p, f, q, hbuild, hp, hf, hq, -, -, -, hstiffness⟩, -, hwave, hdivDiv, hload⟩ :=
    standardForms_add (K := ℚ) (d := 2) (by decide)
  refine ⟨⟨form, p, f, q, hbuild, hp, hf, hq, (hstiffness skewPoint #[0] rfl).trans ?_⟩, ?_, ?_, ?_⟩
  · decide +kernel
  · obtain ⟨form, p, hbuild, hp, -, hadds⟩ := hwave (by decide)
    exact ⟨form, p, hbuild, hp, (hadds skewPoint #[0] rfl).trans (by decide +kernel)⟩
  · obtain ⟨form, p, hbuild, hp, -, hadds⟩ := hdivDiv
    exact ⟨form, p, hbuild, hp, (hadds skewPoint #[0, 0, 0, 0] rfl).trans (by decide +kernel)⟩
  · obtain ⟨spec, hspec, form, p, hbuild, hp, -, hadds⟩ :=
      hload [some fun _ => .ok 0, some fun _ => .ok 1] (by decide) (by decide)
    exact ⟨spec, form, p, hspec, hbuild, hp, (hadds skewPoint #[0, 0] rfl).trans (by decide +kernel)⟩

end StandardForm

end Galerkin
