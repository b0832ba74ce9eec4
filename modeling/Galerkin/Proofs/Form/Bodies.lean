import Galerkin.Proofs.Form.Reading
import Galerkin.Proofs.Form.Standard
import Galerkin.Proofs.Form.Uses

/-! # Bodies of the bilinear standard forms

The body of each bilinear form is run here in every dimension that it accepts: the fields that it registers,
and the expressions that it accumulates, with their references.

* **`StandardForm.mass_builds`**, **`heat_builds`**, **`wave_builds`**, **`divDiv_builds`**,
  **`stiffness_builds`** — the forms;
* **`massIntegrand`** and the like — what they accumulate, and **`uses_massIntegrand`** and the like: what
  that refers to. -/

namespace Galerkin

variable {α : Type}

namespace StandardForm

open FormBuilder

variable {b : FormBuilder α} {d : Nat}

/-! ## (1) Steps of the bodies -/

/-- Both basis functions. -/
def bothNames : List String := [trialName, testName]

/-- Bilinear forms know both basis functions. -/
theorem checkBasis_bothNames (h : b.arity = .bilinear) : ∀ basis ∈ bothNames, b.checkBasis basis = .ok () :=
  List.forall_mem_cons.mpr ⟨checkBasis_trial h, List.forall_mem_singleton.mpr checkBasis_test⟩

/-- **Expressions over the fields of a bilinear form** are accepted. -/
theorem checkReferences_bilinear {e : Expr α} (harity : b.arity = .bilinear)
    (hnodup : (b.fields.map (·.name)).Nodup) (he : e.Uses b.dim b.fields bothNames) :
    b.checkReferences false e = .ok () :=
  checkReferences_of_uses hnodup he (fun h => nomatch h) (checkBasis_bothNames harity)

/-- The product of two expressions of one shape. -/
theorem times_runs {x y : Expr α} (h : x.shape = y.shape) : Runs (times x y) b (.binary .mul x y) b :=
  .lift (Operand.arith_ok h)

/-- The sum of two expressions of one shape. -/
theorem plus_runs {x y : Expr α} (h : x.shape = y.shape) : Runs (plus x y) b (.binary .add x y) b :=
  .lift (Operand.arith_ok h)

/-- A component of a vector of given length. -/
theorem index_natCast_ok {x : Expr α} {k : Nat} (hx : x.shape = .vector d) (hk : k < d) :
    Operand.index (some x) (k : Int) = .ok (.index x k) := by
  refine Operand.index_ok (by rw [hx]; rfl) (Operand.wrapPosition_natCast ?_)
  rw [hx]
  exact hk

/-- The time part of a space-time gradient is its last component. -/
theorem timePart_runs {x : Expr α} (hd : 1 ≤ d) (hx : x.shape = .vector d) :
    Runs (timePart x) b (.index x (d - 1)) b := by
  refine .lift (Operand.index_ok (by rw [hx]; rfl) ?_)
  rw [hx]
  exact Operand.wrapPosition_last hd

/-- The product of the space parts of two gradients. -/
def spaceProductOf (d : Nat) (x y : Expr α) : Expr α :=
  Operand.innerSum (.slice x (List.range (d - 1))) (.slice y (List.range (d - 1))) (d - 1 - 1)

/-- The space parts are the components before the last one. -/
theorem spaceProduct_runs {x y : Expr α} (hd : 2 ≤ d) (hx : x.shape = .vector d) (hy : y.shape = .vector d) :
    Runs (spaceProduct d x y) b (spaceProductOf d x y) b := by
  have hcast : (d : Int) - 1 = ((d - 1 : Nat) : Int) := by omega
  have hslice : ∀ z : Expr α, z.shape = .vector d →
      Operand.sliceRange (some z) 0 ((d : Int) - 1) = .ok (.slice z (List.range (d - 1))) := by
    intro z hz
    rw [hcast]
    refine Operand.sliceRange_ok (by rw [hz]; rfl) (by omega) ?_
    rw [hz]
    exact Nat.sub_le d 1
  have hrows : ∀ z : Expr α, (Expr.slice z (List.range (d - 1))).shape.rows = d - 1 := fun z =>
    List.length_range
  have hinner := Operand.inner_ok (x := .slice x (List.range (d - 1))) (y := .slice y (List.range (d - 1)))
    rfl rfl ((hrows x).trans (hrows y).symm)
  rw [hrows x] at hinner
  exact (Runs.lift (hslice x hx)).bind ((Runs.lift (hslice y hy)).bind (.lift hinner))

section Geometry

variable {spec : FormSpec α} {basis : String} {extra : List Int} {orders : Nat → Nat}

/-- The builder of a body that has asked for the weight. -/
def weightedBuilder (spec : FormSpec α) (d : Nat) : FormBuilder α :=
  { spec.start d with fields := [weightVariable 0] }

/-- The geometry fields of a body that asks for the weight first. -/
def geometryFields (d : Nat) : List (FieldVariable α) := [weightVariable 0, jacobianVariable 1 d]

/-- The builder of a body that has asked for weight and transposed inverse Jacobian. -/
def geometryBuilder (spec : FormSpec α) (d : Nat) : FormBuilder α :=
  { spec.start d with fields := geometryFields d }

/-- The weight may be referred to. -/
theorem uses_weight {bases : List String} : (weight : Expr α).Uses d (geometryFields d) bases :=
  .field (f := weightVariable 0) (List.mem_cons_self ..)

/-- Physical gradients may be referred to. -/
theorem uses_physicalGradientOf (hbasis : basis ∈ bothNames) (orders : Nat → Nat) :
    (physicalGradientOf basis d orders : Expr α).Uses d (geometryFields d) bothNames :=
  .physicalGradientOf hbasis (List.mem_cons_of_mem _ (List.mem_singleton_self (jacobianVariable 1 d))) orders

/-- Fields without a definition of their own refer to nothing. -/
theorem uses_of_no_definition {fs : List (FieldVariable α)} {bases : List String}
    (h : ∀ f ∈ fs, f.definition.expression = none) :
    ∀ f ∈ fs, ∀ e, f.definition.expression = some e → e.Uses d fs bases := by
  intro f hf e he
  rw [h f hf] at he
  cases he

/-- If only the last field has a definition of its own, that is the only one to look at. -/
theorem uses_of_last_definition {fs : List (FieldVariable α)} {f : FieldVariable α} {bases : List String}
    (hfs : ∀ g ∈ fs, g.definition.expression = none)
    (hf : ∀ e, f.definition.expression = some e → e.Uses d fs bases) :
    ∀ g ∈ fs ++ [f], ∀ e, g.definition.expression = some e → e.Uses d (fs ++ [f]) bases := by
  intro g hg e he
  rcases List.mem_append.mp hg with hg | hg
  · rw [hfs g hg] at he
    cases he
  · obtain rfl := List.mem_singleton.mp hg
    exact (hf e he).mono (List.subset_append_left ..) (List.Subset.refl _)

/-- Geometry fields have no definition of their own. -/
theorem expression_geometryFields :
    ∀ f ∈ (geometryFields d : List (FieldVariable α)), f.definition.expression = none :=
  List.forall_mem_cons.mpr ⟨rfl, List.forall_mem_singleton.mpr rfl⟩

/-- A body asks for the weight. -/
theorem weight_runs : Runs quadratureWeight (spec.start d) weight (weightedBuilder spec d) :=
  quadratureWeight_runs rfl

/-- The first physical gradient registers the transposed inverse Jacobian. -/
theorem firstGradient_runs (hd : 1 ≤ d) (hbasis : (geometryBuilder spec d).checkBasis basis = .ok ())
    (hextra : PassesOrders d extra orders) :
    Runs (physicalGradient basis extra) (weightedBuilder spec d) (physicalGradientOf basis d orders)
      (geometryBuilder spec d) :=
  physicalGradient_runs (inverseTransposed_runs rfl hd rfl) rfl hd hbasis hextra

/-- The others find it. -/
theorem nextGradient_runs (hd : 1 ≤ d) (hbasis : (geometryBuilder spec d).checkBasis basis = .ok ())
    (hextra : PassesOrders d extra orders) :
    Runs (physicalGradient basis extra) (geometryBuilder spec d) (physicalGradientOf basis d orders)
      (geometryBuilder spec d) :=
  physicalGradient_runs (inverseTransposed_again rfl hd (rfl : _ = some (jacobianVariable 1 d))) rfl hd hbasis
    hextra

end Geometry

/-! ## (2) Mass -/

/-- The derivative of a basis function of given orders. -/
def derivativeOf (basis : String) (d : Nat) (orders : Nat → Nat) : Expr α :=
  .deriv basis (multiIndex d orders)

/-- What mass accumulates. -/
def massIntegrand (d : Nat) : Expr α :=
  .binary .mul (.binary .mul weight (derivativeOf trialName d 0)) (derivativeOf testName d 0)

/-- Mass refers to the weight and to both basis functions. -/
theorem uses_massIntegrand : (massIntegrand d : Expr α).Uses d [weightVariable 0] bothNames :=
  ((Expr.Uses.field (f := weightVariable 0) (List.mem_cons_self ..)).binary (.deriv (by decide) 0)).binary
    (.deriv (by decide) 0)

/-- **Mass is built in every dimension.** -/
theorem mass_builds (hd : 1 ≤ d) : ∃ form : Form α,
    mass.Builds d [weightVariable 0] [⟨0, some (massIntegrand d)⟩] form := by
  refine FormSpec.exists_builds hd (Int.le_refl 1) ?_ (List.cons_ne_nil _ _)
  refine weight_runs.bind ((basisValue_runs rfl hd (checkBasis_trial rfl)).bind ?_)
  refine (basisValue_runs rfl hd checkBasis_test).bind ((times_runs (by rfl)).bind ?_)
  refine (times_runs (by rfl)).bind ?_
  exact add_runs rfl Nat.one_pos
    (checkReferences_bilinear rfl (List.nodup_singleton "weight") uses_massIntegrand)

/-! ## (3) Space-time forms -/

/-- The space product refers to what its factors refer to. -/
theorem uses_spaceProductOf {fs : List (FieldVariable α)} {bases : List String} {x y : Expr α}
    (hx : x.Uses d fs bases) (hy : y.Uses d fs bases) : (spaceProductOf d x y).Uses d fs bases :=
  .innerSum hx.slice hy.slice _

/-- What heat accumulates. -/
def heatIntegrand (d : Nat) : Expr α :=
  .binary .mul weight (.binary .add
    (.binary .mul (.index (physicalGradientOf trialName d 0) (d - 1)) (derivativeOf testName d 0))
    (spaceProductOf d (physicalGradientOf trialName d 0) (physicalGradientOf testName d 0)))

/-- Heat refers to the geometry and to both basis functions. -/
theorem uses_heatIntegrand : (heatIntegrand d : Expr α).Uses d (geometryFields d) bothNames := by
  have hu := uses_physicalGradientOf (α := α) (d := d) (by decide : trialName ∈ bothNames) 0
  have hv := uses_physicalGradientOf (α := α) (d := d) (by decide : testName ∈ bothNames) 0
  exact uses_weight.binary ((hu.index.binary (.deriv (by decide) 0)).binary (uses_spaceProductOf hu hv))

/-- **Heat is built in every dimension** with an axis for time and one for space. -/
theorem heat_builds (hd : 2 ≤ d) : ∃ form : Form α,
    heat.Builds d (geometryFields d) [⟨0, some (heatIntegrand d)⟩] form := by
  have hd' : 1 ≤ d := by omega
  have hnone : PassesOrders d [] 0 := .inl ⟨rfl, rfl⟩
  refine FormSpec.exists_builds hd' (Int.le_refl 1) ?_ (List.cons_ne_nil _ _)
  refine .get fun _ => .require (decide_eq_true hd) (weight_runs.bind ?_)
  refine (firstGradient_runs hd' (checkBasis_trial rfl) hnone).bind ?_
  refine (nextGradient_runs hd' checkBasis_test hnone).bind ?_
  refine (basisValue_runs rfl hd' checkBasis_test).bind ?_
  refine (timePart_runs hd' rfl).bind ((times_runs (by rfl)).bind ((spaceProduct_runs hd rfl rfl).bind ?_))
  refine (plus_runs (by exact (Operand.shape_innerSum _ _ _).symm)).bind ((times_runs (by rfl)).bind ?_)
  exact add_runs rfl Nat.one_pos
    (checkReferences_bilinear rfl (by decide : ["weight", "JacInvT"].Nodup) uses_heatIntegrand)

/-- The local field of wave: the mixed derivatives of the test function in space and time. -/
def waveField (d : Nat) : FieldVariable α :=
  ⟨2, "gv_t", .vector d, false, .perEntry (some (physicalGradientOf testName d (Pi.single (d - 1) 1)))⟩

/-- What wave accumulates. -/
def waveIntegrand (d : Nat) : Expr α :=
  .binary .mul weight (.binary .add
    (.binary .mul (.index (physicalGradientOf trialName d (Pi.single (d - 1) 1)) (d - 1))
      (.index (physicalGradientOf testName d 0) (d - 1)))
    (spaceProductOf d (physicalGradientOf trialName d 0) (.field "gv_t" (.vector d) false)))

/-- Wave refers to the geometry, to its local field and to both basis functions. -/
theorem uses_waveIntegrand :
    (waveIntegrand d : Expr α).Uses d (geometryFields d ++ [waveField d]) bothNames := by
  have hfields : geometryFields (α := α) d ⊆ geometryFields d ++ [waveField d] :=
    List.subset_append_left ..
  have hu (orders : Nat → Nat) : (physicalGradientOf trialName d orders : Expr α).Uses d _ bothNames :=
    (uses_physicalGradientOf (by decide) orders).mono hfields (List.Subset.refl _)
  have hv : (physicalGradientOf testName d 0 : Expr α).Uses d _ bothNames :=
    (uses_physicalGradientOf (by decide) 0).mono hfields (List.Subset.refl _)
  have hvt : (Expr.field "gv_t" (.vector d) false : Expr α).Uses d (geometryFields d ++ [waveField d])
      bothNames := .field (f := waveField d) (List.mem_append_right _ (List.mem_singleton_self _))
  exact (uses_weight.mono hfields (List.Subset.refl _)).binary (((hu _).index.binary hv.index).binary
    (uses_spaceProductOf (hu 0) hvt))

/-- **Wave is built in every dimension** with an axis for time and one for space. -/
theorem wave_builds (hd : 2 ≤ d) : ∃ form : Form α,
    wave.Builds d (geometryFields d ++ [waveField d]) [⟨0, some (waveIntegrand d)⟩] form := by
  have hd' : 1 ≤ d := by omega
  have hnone : PassesOrders d [] 0 := .inl ⟨rfl, rfl⟩
  have htime : unitOrder d (-1) = .ok (multiIndex d (Pi.single (d - 1) 1)) :=
    unitOrder_ok (by omega) (by rw [if_pos (by decide)]; omega)
  have hextra : PassesOrders d ((multiIndex d (Pi.single (d - 1) 1)).map Int.ofNat) (Pi.single (d - 1) 1) :=
    .inr rfl
  -- The local field comes last, when all that it refers to is registered.
  let b : FormBuilder α := { wave.start d with fields := geometryFields d ++ [waveField d] }
  have hlocal : Runs (defineLocal "gv_t" (some (physicalGradientOf testName d (Pi.single (d - 1) 1))))
      (geometryBuilder wave d) (.field "gv_t" (.vector d) false) b :=
    defineLocal_runs (declarable_vector hd') (by decide) rfl (checkReferences_bilinear rfl
      (by decide : ["weight", "JacInvT"].Nodup) (uses_physicalGradientOf (by decide) _))
  refine FormSpec.exists_builds hd' (Int.le_refl 1) ?_ (List.cons_ne_nil _ _)
  refine .get fun _ => .require (decide_eq_true hd) ((Runs.lift htime).bind (weight_runs.bind ?_))
  refine (firstGradient_runs hd' (checkBasis_trial rfl) hextra).bind ((timePart_runs hd' rfl).bind ?_)
  refine (nextGradient_runs hd' checkBasis_test hnone).bind ((timePart_runs hd' rfl).bind ?_)
  refine (nextGradient_runs hd' (checkBasis_trial rfl) hnone).bind ?_
  refine (nextGradient_runs hd' checkBasis_test hextra).bind (hlocal.bind ((times_runs (by rfl)).bind ?_))
  refine (spaceProduct_runs hd rfl rfl).bind ((plus_runs (by exact (Operand.shape_innerSum _ _ _).symm)).bind ?_)
  refine (times_runs (by rfl)).bind (add_runs rfl Nat.one_pos (checkReferences_bilinear rfl ?_
    uses_waveIntegrand))
  exact (by decide : ["weight", "JacInvT", "gv_t"].Nodup)

/-! ## (4) Vector forms -/

/-- What the divergence form accumulates for a pair of components. -/
def divDivIntegrand (d i j : Nat) : Expr α :=
  .binary .mul (.binary .mul weight (.index (physicalGradientOf trialName d 0) j))
    (.index (physicalGradientOf testName d 0) i)

/-- The divergence form refers to the geometry and to both basis functions. -/
theorem uses_divDivIntegrand {i j : Nat} :
    (divDivIntegrand d i j : Expr α).Uses d (geometryFields d) bothNames :=
  (uses_weight.binary (uses_physicalGradientOf (by decide) 0).index).binary
    (uses_physicalGradientOf (by decide) 0).index

/-- The accumulations of the divergence form. -/
def divDivSums (d : Nat) : List (Accumulation α) := (Shape.matrix d d).positions.map fun p =>
  ⟨((d * p.1 + p.2 : Nat) : Int), some (divDivIntegrand d p.1 p.2)⟩

/-- There is one for each pair of components. -/
theorem divDivSums_ne_nil (hd : 1 ≤ d) : (divDivSums d : List (Accumulation α)) ≠ [] := by
  rw [Ne, divDivSums, List.map_eq_nil_iff, ← List.length_eq_zero_iff, Shape.length_positions,
    Shape.size_matrix]
  exact (Nat.mul_pos hd hd).ne'

/-- All of them refer to the geometry and to both basis functions. -/
theorem uses_divDivSums : ∀ a ∈ (divDivSums d : List (Accumulation α)), ∀ e, a.expression = some e →
    e.Uses d (geometryFields d) bothNames := by
  intro a ha e he
  obtain ⟨p, -, rfl⟩ := List.mem_map.mp ha
  exact Option.some.inj he ▸ uses_divDivIntegrand

/-- One pair of components is added to its slot. -/
theorem addComponentPair_runs {i j : Nat} (hi : i < d) (hj : j < d) (sums : List (Accumulation α)) :
    Runs (addComponentPair d weight (physicalGradientOf trialName d 0) (physicalGradientOf testName d 0) i j)
      { geometryBuilder divDiv d with accumulations := sums } ⟨⟩
      { geometryBuilder divDiv d with
        accumulations := sums ++ [⟨((d * i + j : Nat) : Int), some (divDivIntegrand d i j)⟩] } := by
  -- Slots are numbered like the entries of a square matrix.
  have hslot : d * i + j < d * d := by
    rw [Nat.mul_comm d i]
    exact Shape.entry_lt_size (s := .matrix d d) hi hj
  refine (Runs.lift (index_natCast_ok rfl hj)).bind ((Runs.lift (index_natCast_ok rfl hi)).bind ?_)
  refine (times_runs (by rfl)).bind ((times_runs (by rfl)).bind ?_)
  exact addToSlot_runs rfl hslot
    (checkReferences_bilinear rfl (by decide : ["weight", "JacInvT"].Nodup) uses_divDivIntegrand)

/-- **The divergence form is built in every dimension.** -/
theorem divDiv_builds (hd : 1 ≤ d) : ∃ form : Form α,
    divDiv.Builds d (geometryFields d) (divDivSums d) form := by
  have hnone : PassesOrders d [] 0 := .inl ⟨rfl, rfl⟩
  have hcomponents : (1 : Int) ≤ (divDiv : FormSpec α).components d := Int.ofNat_le.mpr hd
  refine FormSpec.exists_builds hd hcomponents ?_ (divDivSums_ne_nil hd)
  refine .get fun _ => weight_runs.bind ((firstGradient_runs hd (checkBasis_trial rfl) hnone).bind ?_)
  refine (nextGradient_runs hd checkBasis_test hnone).bind ?_
  refine Runs.forM (b := geometryBuilder divDiv d) fun p hp sums => ?_
  obtain ⟨hi, hj⟩ := Shape.mem_positions.mp hp
  exact addComponentPair_runs hi hj sums

/-! ## (5) Stiffness -/

/-- The transposed inverse Jacobian, as forms refer to it. -/
def inverseJacobian (d : Nat) : Expr α := .field "JacInvT" (.matrix d d) false

/-- The matrix of the pulled-back coefficients. -/
def pulledBackMatrix (d : Nat) : Expr α :=
  .compose (.matrix d d) ((Shape.matrix d d).positions.map fun p => pulledBack d p.1 p.2)

/-- The precomputed field of the pulled-back coefficients. -/
def coefficientField (d : Nat) : FieldVariable α :=
  ⟨2, "B", .matrix d d, true, .precomputed (some (pulledBackMatrix d))⟩

/-- The geometry fields of stiffness, which asks for the weight last. -/
def stiffnessGeometry (d : Nat) : List (FieldVariable α) := [jacobianVariable 0 d, weightVariable 1]

/-- What stiffness accumulates. -/
def stiffnessIntegrand (d : Nat) : Expr α :=
  Operand.innerSum (.matmul (.field "B" (.matrix d d) true) (gradientOf trialName d 0))
    (gradientOf testName d 0) (d - 1)

/-- The product of two entries of a column each. -/
theorem columnProduct_runs {r c k : Nat} (hr : r < d) (hc : c < d) (hk : k < d) :
    Runs (columnProduct (inverseJacobian d) r c k) b (.binary .mul (.entry (inverseJacobian d) k r)
      (.entry (inverseJacobian d) k c)) b :=
  (Runs.lift (Operand.entry_ok rfl hk hr)).bind ((Runs.lift (Operand.entry_ok rfl hk hc)).bind
    (times_runs rfl))

/-- An entry of the pulled-back coefficients. -/
theorem weightedEntry_runs {r c : Nat} (hr : r < d) (hc : c < d) :
    Runs (weightedEntry weight (inverseJacobian d) d r c) b (pulledBack d r c) b := by
  let product (k : Nat) : Expr α :=
    .binary .mul (.entry (inverseJacobian d) k r) (.entry (inverseJacobian d) k c)
  have hsum : Runs ((List.range' 1 (d - 1)).foldlM
      (fun sum k => do plus sum (← columnProduct (inverseJacobian d) r c k)) (product 0)) b
      ((List.range' 1 (d - 1)).foldl (fun sum k => .binary .add sum (product k)) (product 0)) b := by
    refine Runs.foldlM (P := fun e : Expr α => e.shape = .scalar) rfl (fun _ _ _ h => by exact h)
      fun k hk sum h => ?_
    have hlt : k < d := by
      have := List.mem_range'_1.mp hk
      omega
    exact (columnProduct_runs hr hc hlt).bind (plus_runs h)
  -- A further term can be added since every partial sum is a scalar.
  have hshape (ks : List Nat) :
      (ks.foldl (fun sum k => .binary .add sum (product k)) (product 0)).shape = .scalar :=
    List.foldlRecOn ks _ (motive := fun e : Expr α => e.shape = .scalar) rfl fun _ h _ _ => by exact h
  exact (columnProduct_runs hr hc (by omega)).bind (hsum.bind (times_runs (hshape _).symm))

/-- The coefficients refer to geometry fields only. -/
theorem uses_pulledBack {r c : Nat} : (pulledBack d r c : Expr α).Uses d (stiffnessGeometry d) [] := by
  have hjacobian : (inverseJacobian d : Expr α).Uses d (stiffnessGeometry d) [] :=
    .field (f := jacobianVariable 0 d) (List.mem_cons_self ..)
  have hproduct (k : Nat) : (Expr.binary .mul (.entry (inverseJacobian d) k r)
      (.entry (inverseJacobian d) k c) : Expr α).Uses d (stiffnessGeometry d) [] :=
    hjacobian.entry.binary hjacobian.entry
  refine .binary (.field (f := weightVariable 1) (List.mem_cons_of_mem _ (List.mem_singleton_self _))) ?_
  exact List.foldlRecOn (motive := fun e : Expr α => e.Uses d (stiffnessGeometry d) []) _ _ (hproduct 0)
    fun _ h k _ => h.binary (hproduct k)

/-- So does their matrix. -/
theorem uses_pulledBackMatrix : (pulledBackMatrix d : Expr α).Uses d (stiffnessGeometry d) [] := by
  refine .compose fun e he => ?_
  obtain ⟨p, -, rfl⟩ := List.mem_map.mp he
  exact uses_pulledBack

/-- Stiffness refers to the coefficients and to both basis functions. -/
theorem uses_stiffnessIntegrand :
    (stiffnessIntegrand d : Expr α).Uses d (stiffnessGeometry d ++ [coefficientField d]) bothNames := by
  refine .innerSum (.matmul ?_ (.gradientOf (by decide) 0)) (.gradientOf (by decide) 0) _
  exact .field (f := coefficientField d) (List.mem_append_right _ (List.mem_singleton_self _))

/-- The coefficients are registered. -/
theorem coefficients_runs (hd : 1 ≤ d) :
    Runs (precompute "B" (some (pulledBackMatrix d)) true)
      { (stiffness : FormSpec α).start d with fields := stiffnessGeometry d } (.field "B" (.matrix d d) true)
      { stiffness.start d with fields := stiffnessGeometry d ++ [coefficientField d] } := by
  refine precompute_runs hd rfl (by decide) rfl (checkReferences_of_uses
    (by decide : ["JacInvT", "weight"].Nodup) uses_pulledBackMatrix (fun _ => ⟨rfl, ?_⟩) fun _ h => nomatch h)
  exact List.forall_mem_cons.mpr ⟨rfl, List.forall_mem_singleton.mpr rfl⟩

/-- **Stiffness is built in every dimension.** -/
theorem stiffness_builds (hd : 1 ≤ d) : ∃ form : Form α,
    stiffness.Builds d (stiffnessGeometry d ++ [coefficientField d]) [⟨0, some (stiffnessIntegrand d)⟩]
      form := by
  have hnone : PassesOrders d [] 0 := .inl ⟨rfl, rfl⟩
  -- The builder after each field that the body asks for.
  let b₁ : FormBuilder α := { stiffness.start d with fields := [jacobianVariable 0 d] }
  let b₂ : FormBuilder α := { stiffness.start d with fields := stiffnessGeometry d }
  let b₃ : FormBuilder α :=
    { stiffness.start d with fields := stiffnessGeometry d ++ [coefficientField d] }
  have hjacobian : Runs inverseTransposed (stiffness.start d) (inverseJacobian d) b₁ :=
    inverseTransposed_runs rfl hd rfl
  have hweight : Runs quadratureWeight b₁ weight b₂ := quadratureWeight_runs rfl
  have hentries : Runs ((Shape.matrix d d).positions.mapM fun p : Nat × Nat =>
      some <$> weightedEntry weight (inverseJacobian d) d p.1 p.2) b₂
      (((Shape.matrix d d).positions.map fun p => pulledBack d p.1 p.2).map some) b₂ := by
    rw [List.map_map]
    refine Runs.mapM fun p hp => ?_
    obtain ⟨hr, hc⟩ := Shape.mem_positions.mp hp
    rw [map_eq_pure_bind]
    exact (weightedEntry_runs hr hc).bind .pure
  have hmatrix : Expr.ofMatrix d d (((Shape.matrix d d).positions.map fun p => pulledBack d p.1 p.2).map
      some) = .ok (pulledBackMatrix d : Expr α) := by
    refine Expr.ofMatrix_ok hd hd ?_ fun e he => ?_
    · rw [List.length_map, Shape.length_positions, Shape.size_matrix]
    · obtain ⟨p, -, rfl⟩ := List.mem_map.mp he
      rfl
  have hfield : b₃.field "B" = .ok (.field "B" (.matrix d d) true) :=
    field_ok (f := coefficientField d) (by decide : "B" ≠ "") (declarable_matrix hd true) rfl
  have hinner : Operand.inner (some (.matmul (.field "B" (.matrix d d) true) (gradientOf trialName d 0)))
      (some (gradientOf testName d 0)) = .ok (stiffnessIntegrand d : Expr α) := Operand.inner_ok rfl rfl rfl
  have hscalar : (stiffnessIntegrand d : Expr α).shape.isScalar = true := by
    rw [stiffnessIntegrand, Operand.shape_innerSum]
    rfl
  refine FormSpec.exists_builds hd (Int.le_refl 1) ?_ (List.cons_ne_nil _ _)
  refine .get fun _ => hjacobian.bind (hweight.bind (hentries.bind ((Runs.lift hmatrix).bind ?_)))
  refine (coefficients_runs hd).bind (.get fun _ => (Runs.lift hfield).bind ?_)
  refine (gradient_runs rfl hd (checkBasis_trial rfl) hnone).bind ?_
  refine (gradient_runs rfl hd checkBasis_test hnone).bind ?_
  refine (Runs.lift (Operand.matmul_ok rfl rfl rfl)).bind ((Runs.lift hinner).bind ?_)
  exact add_runs hscalar Nat.one_pos (checkReferences_bilinear rfl
    (by decide : ["JacInvT", "weight", "B"].Nodup) uses_stiffnessIntegrand)

end StandardForm

end Galerkin
