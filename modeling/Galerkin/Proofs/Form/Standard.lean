import Galerkin.Form.Standard
import Galerkin.Proofs.Exact
import Galerkin.Proofs.Form.Meaning
import Mathlib

/-! # Mass, stiffness and load

The body of a standard form makes changes of a builder only, so what it builds is valid. In two and three
dimensions the forms of mass, stiffness and load are written out here, with what they accumulate at a point.

* **`FormSpec.Sound`**, **`FormSpec.Sound.valid`** — specifications that build valid forms;
* **`StandardForm.massForm`**, **`stiffnessForm`**, **`loadForm`** — the forms that are built, and
  `mass_build`, `stiffness_build`, `load_build`;
* **`StandardForm.accumulated_massForm`**, **`accumulated_stiffnessForm`**, **`accumulated_loadForm`** — what
  they accumulate. -/

namespace Galerkin

variable {α : Type}

/-! ## (1) Specifications that build valid forms -/

/-- An operand that is present is made by the operations if its expression is. -/
theorem Operand.Built.some {e : Expr α} (h : e.Built) : Operand.Built (some e) := by
  rintro _ ⟨⟩
  exact h

/-- **A specification whose body makes changes only.** -/
def FormSpec.Sound (spec : FormSpec α) : Prop := ∀ b, Makes spec.body b fun _ _ => True

/-- **What such a specification builds is valid,** in every dimension. -/
theorem FormSpec.Sound.valid {spec : FormSpec α} (hspec : spec.Sound) {dim : Int} {form : Form α}
    (h : spec.build dim = .ok form) : form.Valid := by
  obtain ⟨-, h⟩ := require_bind_eq_ok_iff.mp h
  obtain ⟨start, hstart, h⟩ := bind_eq_ok_iff.mp h
  obtain ⟨_, -, hfinal⟩ := bind_eq_ok_iff.mp h
  exact ((hspec start).1.valid (FormBuilder.valid_of_make hstart)).form hfinal

namespace StandardForm

open FormBuilder

variable {b : FormBuilder α}

/-- A product is made by the operations. -/
theorem times_makes {x y : Expr α} (hx : x.Built) (hy : y.Built) :
    Makes (times x y) b fun e _ => e.Built := .lift fun _ h => .arith hx hy h

/-- A sum is made by the operations. -/
theorem plus_makes {x y : Expr α} (hx : x.Built) (hy : y.Built) :
    Makes (plus x y) b fun e _ => e.Built := .lift fun _ h => .arith hx hy h

/-- Asking for the quadrature weight registers it. -/
theorem quadratureWeight_makes : Makes (quadratureWeight : Building α (Expr α)) b fun e _ => e.Built :=
  registerScalar_makes (builtin_built _)

/-- Registering an input field adds it if it is accepted. -/
theorem inputFunction_makes {name : String} {function : Option (InputFunction α)} :
    Makes (inputFunction name function) b fun e _ => e.Built := registerScalar_makes fun _ h => nomatch h

/-- A registered field is handed out. -/
theorem field_makes {name : String} :
    Makes (do let b ← get; b.field name : Building α (Expr α)) b fun e _ => e.Built := by
  refine .get (.lift fun e he => ?_)
  unfold FormBuilder.field at he
  split at he
  · exact built_of_reference he
  · cases he

/-- Mass makes changes only. -/
theorem mass_sound : (mass : FormSpec α).Sound := by
  intro b
  refine quadratureWeight_makes.bind fun w _ hw => basisValue_makes.bind fun u _ hu => ?_
  refine basisValue_makes.bind fun v _ hv => (times_makes hw hu).bind fun wu _ hwu => ?_
  exact (times_makes hwu hv).bind fun _ _ h => addToSlot_makes (.some h)

/-- The product of two entries of a matrix is made by the operations. -/
theorem columnProduct_makes {matrix : Expr α} (hmatrix : matrix.Built) (r c k : Nat) :
    Makes (columnProduct matrix r c k) b fun e _ => e.Built := by
  refine (Makes.lift (P := fun x _ => x.Built) fun _ h => .entry hmatrix h).bind fun x _ hx => ?_
  refine (Makes.lift (P := fun y _ => y.Built) fun _ h => .entry hmatrix h).bind fun y _ hy => ?_
  exact times_makes hx hy

/-- The weighted product of two columns is made by the operations. -/
theorem weightedEntry_makes {weight matrix : Expr α} (hweight : weight.Built) (hmatrix : matrix.Built)
    (dim r c : Nat) : Makes (weightedEntry weight matrix dim r c) b fun e _ => e.Built := by
  refine (columnProduct_makes hmatrix r c 0).bind fun first _ hfirst => ?_
  refine (Makes.foldlM hfirst fun k _ sum _ hsum => ?_).bind fun sum _ hsum => times_makes hweight hsum
  exact (columnProduct_makes hmatrix r c k).bind fun _ _ h => plus_makes hsum h

/-- Stiffness makes changes only. -/
theorem stiffness_sound : (stiffness : FormSpec α).Sound := by
  intro b
  refine .get (inverseTransposed_makes.bind fun jacobian _ hjacobian => ?_)
  refine quadratureWeight_makes.bind fun w _ hw => ?_
  refine (Makes.mapM (I := fun _ => True) (R := Operand.Built) trivial ?_).bind ?_
  · rintro ⟨r, c⟩ _ b _
    show Makes (some <$> weightedEntry w jacobian _ r c) b _
    rw [map_eq_pure_bind]
    exact (weightedEntry_makes hw hjacobian _ r c).bind fun _ _ h => .pure ⟨trivial, .some h⟩
  rintro entries _ ⟨-, hentries⟩
  refine (Makes.lift (P := fun e _ => e.Built) fun _ h => .matrix hentries h).bind fun B _ hB => ?_
  refine (precompute_makes (.some hB)).bind fun _ _ _ => field_makes.bind fun coefficients _ hcoeff => ?_
  refine gradient_makes.bind fun gu _ hgu => gradient_makes.bind fun gv _ hgv => ?_
  refine (Makes.lift (P := fun e _ => e.Built) fun _ h => .matmul hcoeff hgu.2 h).bind fun flux _ hflux => ?_
  refine (Makes.lift (P := fun e _ => e.Built) fun _ h => .inner hflux hgv.2 h).bind fun _ _ h => ?_
  exact addToSlot_makes (.some h)

/-- A component of a vector is made by the operations. -/
theorem index_makes {x : Expr α} (hx : x.Built) (k : Int) :
    Makes (liftM (Operand.index (some x) k) : Building α (Expr α)) b fun e _ => e.Built :=
  .lift fun _ h => .index hx h

/-- The product of the space parts of two gradients is made by the operations. -/
theorem spaceProduct_makes {x y : Expr α} (hx : x.Built) (hy : y.Built) (d : Nat) :
    Makes (spaceProduct d x y) b fun e _ => e.Built := by
  refine (Makes.lift (P := fun e _ => e.Built) fun _ h => .slice hx h).bind fun _ _ hxs => ?_
  refine (Makes.lift (P := fun e _ => e.Built) fun _ h => .slice hy h).bind fun _ _ hys => ?_
  exact .lift fun _ h => .inner hxs hys h

/-- What a space-time form adds up is made by the operations and added to the first slot. -/
theorem spaceTime_makes {w rate x y : Expr α} (hw : w.Built) (hrate : rate.Built) (hx : x.Built)
    (hy : y.Built) (d : Nat) :
    Makes (do add (some (← times w (← plus rate (← spaceProduct d x y))))) b fun _ _ => True := by
  refine (spaceProduct_makes hx hy d).bind fun _ _ hspace => (plus_makes hrate hspace).bind fun _ _ hsum => ?_
  exact (times_makes hw hsum).bind fun _ _ h => addToSlot_makes (.some h)

/-- Heat makes changes only. -/
theorem heat_sound : (heat : FormSpec α).Sound := by
  intro b
  refine .get (.require fun _ => quadratureWeight_makes.bind fun w _ hw => ?_)
  refine physicalGradient_makes.bind fun gu _ hgu => physicalGradient_makes.bind fun gv _ hgv => ?_
  refine basisValue_makes.bind fun v _ hv => (index_makes hgu (-1)).bind fun ut _ hut => ?_
  exact (times_makes hut hv).bind fun rate _ hrate => spaceTime_makes hw hrate hgu hgv _

/-- Wave makes changes only. -/
theorem wave_sound : (wave : FormSpec α).Sound := by
  intro b
  refine .get (.require fun _ => ?_)
  refine (Makes.lift (P := fun _ _ => True) fun _ _ => trivial).bind fun time _ _ => ?_
  refine quadratureWeight_makes.bind fun w _ hw => ?_
  refine physicalGradient_makes.bind fun gut _ hgut => (index_makes hgut (-1)).bind fun utt _ hutt => ?_
  refine physicalGradient_makes.bind fun gv _ hgv => (index_makes hgv (-1)).bind fun vt _ hvt => ?_
  refine physicalGradient_makes.bind fun gu _ hgu => physicalGradient_makes.bind fun gvt _ hgvt => ?_
  refine (defineLocal_makes (.some hgvt)).bind fun gvt _ hgvt => ?_
  exact (times_makes hutt hvt).bind fun rate _ hrate => spaceTime_makes hw hrate hgu hgvt _

/-- Divergence times divergence makes changes only. -/
theorem divDiv_sound : (divDiv : FormSpec α).Sound := by
  intro b
  refine .get (quadratureWeight_makes.bind fun w _ hw => ?_)
  refine physicalGradient_makes.bind fun gu _ hgu => physicalGradient_makes.bind fun gv _ hgv => ?_
  refine Makes.forM fun p _ _ => (index_makes hgu p.2).bind fun uj _ huj => ?_
  refine (index_makes hgv p.1).bind fun vi _ hvi => (times_makes hw huj).bind fun _ _ h => ?_
  exact (times_makes h hvi).bind fun _ _ h => addToSlot_makes (.some h)

/-- The body of a load makes changes only. -/
theorem loadBody_makes (sources : List (String × Option (InputFunction α))) :
    Makes (loadBody sources) b fun _ _ => True := by
  refine (Makes.forM fun source _ _ => ?_).bind fun _ _ _ => ?_
  · show Makes ((fun _ => PUnit.unit) <$> FormBuilder.inputFunction source.1 source.2) _ _
    rw [map_eq_pure_bind]
    exact inputFunction_makes.bind fun _ _ _ => .pure trivial
  refine quadratureWeight_makes.bind fun w _ hw => basisValue_makes.bind fun v _ hv => ?_
  refine Makes.forM fun item _ _ => field_makes.bind fun source _ hsource => ?_
  refine (times_makes hw hsource).bind fun _ _ h => (times_makes h hv).bind fun _ _ h => ?_
  exact addToSlot_makes (.some h)

/-- A load makes changes only. -/
theorem load_sound {function : Option (InputFunction α)} {spec : FormSpec α}
    (h : load function = .ok spec) : spec.Sound := by
  obtain ⟨-, h⟩ := require_bind_eq_ok_iff.mp h
  obtain rfl := Except.ok.inj h
  exact fun b => loadBody_makes _

/-! ## (2) The forms that are built -/

/-- The quadrature weight, as forms refer to it. -/
def weight : Expr α := .field "weight" .scalar false

/-- A basis function in dimension `d`. -/
def basisFunction (basis : String) (d : Nat) : Expr α := .deriv basis (List.replicate d 0)

/-- The orders of the first derivative along axis `i`. -/
def firstOrders (d i : Nat) : List Nat := (List.range d).map fun k => if k = i then 1 else 0

/-- The parametric gradient of a basis function. -/
def parametricGradient (basis : String) (d : Nat) : Expr α :=
  .compose (.vector d) ((List.range d).map fun i => .deriv basis (firstOrders d i))

/-- **The form of mass** in dimension `d`. -/
def massForm (d : Nat) : Form α where
  name := "mass"
  dim := d
  arity := .bilinear
  components := 1
  symmetric := true
  fields := [⟨0, "weight", .scalar, false, .builtin .weight⟩]
  accumulations := [⟨0, some (.binary .mul
    (.binary .mul weight (basisFunction trialName d)) (basisFunction testName d))⟩]
  requirements := { basisValue := true, weight := true, jacobian := true }

/-- Entry `(r, c)` of the pulled-back coefficients: the product of two columns of the transposed inverse,
scaled by the quadrature weight. -/
def pulledBack (d r c : Nat) : Expr α :=
  let jacobian : Expr α := .field "JacInvT" (.matrix d d) false
  let product (k : Nat) : Expr α := .binary .mul (.entry jacobian k r) (.entry jacobian k c)
  .binary .mul weight
    ((List.range' 1 (d - 1)).foldl (fun sum k => .binary .add sum (product k)) (product 0))

/-- **The form of stiffness** in dimension `d`. -/
def stiffnessForm (d : Nat) : Form α where
  name := "stiffness"
  dim := d
  arity := .bilinear
  components := 1
  symmetric := true
  fields := [⟨0, "JacInvT", .matrix d d, false, .builtin .inverseTransposed⟩,
    ⟨1, "weight", .scalar, false, .builtin .weight⟩,
    ⟨2, "B", .matrix d d, true, .precomputed (some (.compose (.matrix d d)
      ((Shape.matrix d d).positions.map fun (r, c) => pulledBack d r c)))⟩]
  accumulations := [⟨0, some (Operand.innerSum
    (.matmul (.field "B" (.matrix d d) true) (parametricGradient trialName d))
    (parametricGradient testName d) (d - 1))⟩]
  requirements := { weight := true, jacobian := true, parametricGradient := true, maxDeriv := 1 }

/-- **The form of a load** with a source function in dimension `d`. -/
def loadForm (d : Nat) (source : InputFunction α) : Form α where
  name := "load"
  dim := d
  arity := .linear
  components := 1
  symmetric := false
  fields := [⟨0, "f", .scalar, false, .input (some source)⟩,
    ⟨1, "weight", .scalar, false, .builtin .weight⟩]
  accumulations := [⟨0, some (.binary .mul
    (.binary .mul weight (.field "f" .scalar false)) (basisFunction testName d))⟩]
  requirements := { basisValue := true, weight := true, jacobian := true }

/-- The form of mass is built in two and three dimensions. -/
theorem mass_build {d : Nat} (hd : d ∈ [2, 3]) : (mass : FormSpec α).build d = .ok (massForm d) := by
  rcases List.mem_pair.mp hd with rfl | rfl <;> cbv

set_option maxRecDepth 4000 in
/-- The form of stiffness is built in two and three dimensions. -/
theorem stiffness_build {d : Nat} (hd : d ∈ [2, 3]) :
    (stiffness : FormSpec α).build d = .ok (stiffnessForm d) := by
  rcases List.mem_pair.mp hd with rfl | rfl <;> cbv

/-- The form of a load is built in two and three dimensions. -/
theorem load_build {d : Nat} (hd : d ∈ [2, 3]) (source : InputFunction α) :
    ∃ spec, load (some source) = .ok spec ∧ spec.build d = .ok (loadForm d source) := by
  refine ⟨_, rfl, ?_⟩
  rcases List.mem_pair.mp hd with rfl | rfl <;> cbv

/-- The form of mass is valid. -/
theorem valid_massForm {d : Nat} (hd : d ∈ [2, 3]) : (massForm d : Form α).Valid :=
  mass_sound.valid (mass_build hd)

/-- The form of stiffness is valid. -/
theorem valid_stiffnessForm {d : Nat} (hd : d ∈ [2, 3]) : (stiffnessForm d : Form α).Valid :=
  stiffness_sound.valid (stiffness_build hd)

/-- The form of a load is valid. -/
theorem valid_loadForm {d : Nat} (hd : d ∈ [2, 3]) (source : InputFunction α) :
    (loadForm d source).Valid := by
  obtain ⟨spec, hspec, hbuild⟩ := load_build hd source
  exact (load_sound hspec).valid hbuild

end StandardForm

/-! ## (3) Points and trial functions -/

/-- The value of a basis function at a point. -/
def PointData.valueOf (point : PointData α) (role : BasisRole) (d : Nat) : α :=
  point.basis ⟨role, (List.replicate d 0).map Int.ofNat⟩

/-- A first derivative of a basis function at a point. -/
def PointData.slopeOf (point : PointData α) (role : BasisRole) (d i : Nat) : α :=
  point.basis ⟨role, (StandardForm.firstOrders d i).map Int.ofNat⟩

/-- **The point with another trial function,** given by its derivatives. -/
def PointData.withTrial (point : PointData α) (trial : List Int → α) : PointData α where
  basis load :=
    match load.role with
    | .trial => trial load.orders
    | .test => point.basis load
  field := point.field

namespace PointData

variable (point : PointData α) (u : List Int → α)

@[simp] theorem field_withTrial : (point.withTrial u).field = point.field := rfl

@[simp] theorem valueOf_trial_withTrial (d : Nat) :
    (point.withTrial u).valueOf .trial d = u ((List.replicate d 0).map Int.ofNat) := rfl

@[simp] theorem valueOf_test_withTrial (d : Nat) :
    (point.withTrial u).valueOf .test d = point.valueOf .test d := rfl

@[simp] theorem slopeOf_trial_withTrial (d i : Nat) :
    (point.withTrial u).slopeOf .trial d i = u ((StandardForm.firstOrders d i).map Int.ofNat) := rfl

@[simp] theorem slopeOf_test_withTrial (d i : Nat) :
    (point.withTrial u).slopeOf .test d i = point.slopeOf .test d i := rfl

end PointData

variable {K : Type} [Field K] [LinearOrder K]

namespace Form

variable {form : Form K} {slot : Nat}

/-- **A form whose value in a slot is additive in the trial function.** -/
structure AdditiveInTrial (form : Form K) (slot : Nat) : Prop where
  zero : ∀ point : PointData K, (form.accumulated (point.withTrial fun _ => 0) slot).sum = 0
  add : ∀ (point : PointData K) (u u' : List Int → K),
    (form.accumulated (point.withTrial fun orders => u orders + u' orders) slot).sum =
      (form.accumulated (point.withTrial u) slot).sum + (form.accumulated (point.withTrial u') slot).sum

/-- **Values for several trial functions** add up to the value for their sum. -/
theorem AdditiveInTrial.sum {ι : Type} (h : form.AdditiveInTrial slot) (point : PointData K)
    (trials : List ι) (u : ι → List Int → K) :
    (trials.map fun i => (form.accumulated (point.withTrial (u i)) slot).sum).sum =
      (form.accumulated (point.withTrial fun orders => (trials.map fun i => u i orders).sum) slot).sum := by
  induction trials with
  | nil => exact (h.zero point).symm
  | cons i trials ih =>
    rw [List.map_cons, List.sum_cons, ih, ← h.add]
    rfl

end Form

/-! ## (4) What they accumulate -/

namespace StandardForm

variable {d : Nat}

/-- **Mass accumulates** the product of weight, trial and test function. -/
theorem accumulated_massForm (point : PointData K) : (massForm d).accumulated point 0 =
    [point.field 0 0 * point.valueOf .trial d * point.valueOf .test d] := rfl

/-- **A load accumulates** the product of weight, source and test function. -/
theorem accumulated_loadForm (source : InputFunction K) (point : PointData K) :
    (loadForm d source).accumulated point 0 =
      [point.field 1 0 * point.field 0 0 * point.valueOf .test d] := rfl

/-- **Stiffness accumulates** the product of the gradients with the symmetric matrix of coefficients. -/
theorem accumulated_stiffnessForm (hd : d ∈ [2, 3]) (point : PointData K) :
    (stiffnessForm d).accumulated point 0 = [∑ r ∈ Finset.range d, (∑ c ∈ Finset.range d,
      point.field 2 (symmetricIndex r c d) * point.slopeOf .trial d c) * point.slopeOf .test d r] := by
  rcases List.mem_pair.mp hd with rfl | rfl
  · simp only [Finset.sum_range_succ, Finset.sum_range_zero, zero_add]
    rfl
  · simp only [Finset.sum_range_succ, Finset.sum_range_zero, zero_add]
    rfl

/-- Mass is additive in the trial function. -/
theorem additive_massForm : (massForm d : Form K).AdditiveInTrial 0 where
  zero point := by simp [accumulated_massForm]
  add point u u' := by
    simp only [accumulated_massForm, PointData.field_withTrial, PointData.valueOf_trial_withTrial,
      PointData.valueOf_test_withTrial, List.sum_singleton]
    ring

/-- Stiffness is additive in the trial function. -/
theorem additive_stiffnessForm (hd : d ∈ [2, 3]) : (stiffnessForm d : Form K).AdditiveInTrial 0 where
  zero point := by simp [accumulated_stiffnessForm hd]
  add point u u' := by
    simp only [accumulated_stiffnessForm hd, PointData.field_withTrial, PointData.slopeOf_trial_withTrial,
      PointData.slopeOf_test_withTrial, List.sum_singleton]
    simp only [mul_add, Finset.sum_add_distrib, add_mul]

end StandardForm

end Galerkin
