import Galerkin.Form.Standard
import Galerkin.Proofs.Expr.Operations
import Galerkin.Proofs.Form.Validity
import Mathlib.Algebra.Group.Pi.Basic
import Mathlib.Algebra.Ring.Nat

/-! # Calls that succeed

What a call on a builder hands out, and what it adds to the builder, as long as the checks are passed. No
check looks at the requirements that are noted on the way, so they are left open here.

* **`Runs`** — a step succeeds with a result, and with a builder after it up to requirements;
* **`Runs.bind`**, **`Runs.mapM`**, **`Runs.foldlM`**, **`Runs.forM`** — steps one after the other;
* **`FormBuilder.register_runs`**, **`register_again`** — fields;
* **`FormBuilder.gradient_runs`**, **`physicalGradient_runs`** — gradients, with the orders of their
  components;
* **`FormBuilder.addToSlot_runs`** — accumulations;
* **`FormSpec.exists_builds`** — a body that succeeds and adds something builds a form. -/

namespace Galerkin

variable {α β γ : Type}

/-! ## (1) Steps -/

/-- **A step that succeeds** with a result and a builder after it, whatever is required before; what is
required after it is left open. -/
def Runs (x : Building α β) (b : FormBuilder α) (r : β) (b' : FormBuilder α) : Prop :=
  ∀ before, ∃ after, x.run.run { b with requirements := before } = (.ok r, { b' with requirements := after })

namespace Runs

variable {b b' : FormBuilder α} {r : β}

/-- A result alone changes nothing. -/
theorem pure : Runs (pure r : Building α β) b r b := fun before => ⟨before, rfl⟩

/-- A step that does not look at the builder leaves it as it is. -/
theorem lift {e : Except Error β} (h : e = .ok r) : Runs (liftM e : Building α β) b r b := by
  subst h
  exact fun before => ⟨before, rfl⟩

/-- **One step after the other.** -/
theorem bind {x : Building α γ} {f : γ → Building α β} {c : γ} {b₁ : FormBuilder α} (hx : Runs x b c b₁)
    (hf : Runs (f c) b₁ r b') : Runs (x >>= f) b r b' := by
  intro before
  obtain ⟨between, hbetween⟩ := hx before
  obtain ⟨after, hafter⟩ := hf between
  exact ⟨after, (InPlace.run_bind_ok hbetween).trans hafter⟩

/-- A step behind a check that is passed. -/
theorem require {condition : Bool} {cause : Error} {f : Unit → Building α β} (h : condition = true)
    (hf : Runs (f ()) b r b') :
    Runs ((liftM (Galerkin.require condition cause) : Building α Unit) >>= f) b r b' :=
  bind (lift (require_eq_ok_iff.mpr h)) hf

/-- The current builder, whatever is required at that time. -/
theorem get {f : FormBuilder α → Building α β} (h : ∀ now, Runs (f { b with requirements := now }) b r b') :
    Runs ((MonadState.get : Building α (FormBuilder α)) >>= f) b r b' := fun before => h before before

/-- What is noted is left open. -/
theorem note {change : FormRequirements → FormRequirements} :
    Runs (FormBuilder.note change) b ⟨⟩ b := fun before => ⟨change before, rfl⟩

/-- **A traversal** whose steps leave the builder as it is. -/
theorem mapM {f : γ → Building α β} {g : γ → β} {xs : List γ} (h : ∀ x ∈ xs, Runs (f x) b (g x) b) :
    Runs (xs.mapM f) b (xs.map g) b := by
  induction xs with
  | nil =>
    rw [List.mapM_nil]
    exact pure
  | cons x xs ih =>
    rw [List.mapM_cons]
    refine (h x (List.mem_cons_self ..)).bind ?_
    exact (ih fun y hy => h y (List.mem_cons_of_mem _ hy)).bind pure

/-- **A fold** whose steps keep a property of the result and leave the builder as it is. -/
theorem foldlM {P : β → Prop} {f : β → γ → Building α β} {g : β → γ → β} {xs : List γ} (hr : P r)
    (hP : ∀ x ∈ xs, ∀ r, P r → P (g r x)) (h : ∀ x ∈ xs, ∀ r, P r → Runs (f r x) b (g r x) b) :
    Runs (xs.foldlM f r) b (xs.foldl g r) b := by
  induction xs generalizing r with
  | nil => exact pure
  | cons x xs ih =>
    rw [List.foldlM_cons]
    refine (h x (List.mem_cons_self ..) r hr).bind ?_
    exact ih (hP x (List.mem_cons_self ..) r hr) (fun y hy => hP y (List.mem_cons_of_mem _ hy))
      fun y hy => h y (List.mem_cons_of_mem _ hy)

/-- **A loop** each of whose steps adds an accumulation. -/
theorem forM {f : γ → Building α PUnit} {g : γ → Accumulation α} {xs : List γ}
    (h : ∀ x ∈ xs, ∀ sums, Runs (f x) { b with accumulations := sums } ⟨⟩
      { b with accumulations := sums ++ [g x] }) :
    Runs (xs.forM f) b ⟨⟩ { b with accumulations := b.accumulations ++ xs.map g } := by
  suffices hall : ∀ sums, Runs (xs.forM f) { b with accumulations := sums } ⟨⟩
      { b with accumulations := sums ++ xs.map g } from hall b.accumulations
  induction xs with
  | nil =>
    intro sums
    rw [List.map_nil, List.append_nil]
    exact pure
  | cons x xs ih =>
    intro sums
    rw [List.forM_eq_forM, List.forM_cons, ← List.forM_eq_forM]
    refine (h x (List.mem_cons_self ..) sums).bind ?_
    have hrest := ih (fun y hy => h y (List.mem_cons_of_mem _ hy)) (sums ++ [g x])
    rwa [List.append_assoc, List.singleton_append, ← List.map_cons] at hrest

end Runs

namespace FormBuilder

variable {b : FormBuilder α}

/-! ## (2) Fields -/

/-- **The names a field may have:** not empty, and not those of basis functions. -/
def AllowedName (name : String) : Prop :=
  name ≠ "" ∧ name ≠ BasisRole.trial.name ∧ name ≠ BasisRole.test.name

instance (name : String) : Decidable (AllowedName name) := inferInstanceAs (Decidable (_ ∧ _))

/-- **A field that passes the checks** is registered behind the others. -/
theorem register_runs {f : FieldVariable α} (hnumber : f.id = b.fields.length) (hname : AllowedName f.name)
    (hfresh : b.find? f.name = none) (hshape : f.shape.Declarable f.symmetric)
    (hdefinition : b.checkDefinition f.name f.shape f.definition = .ok ()) :
    Runs (register f.name f.shape f.symmetric f.definition) b (.field f.name f.shape f.symmetric)
      { b with fields := b.fields ++ [f] } := by
  obtain ⟨id, name, shape, symmetric, definition⟩ := f
  obtain rfl : id = b.fields.length := hnumber
  unfold register
  refine .require (by simpa using hname.1) (.require (by simpa using hname.2) (.get fun now => ?_))
  -- No check looks at what is required by now.
  have hnone : ({ b with requirements := now } : FormBuilder α).find? name = none := hfresh
  have hchecks : ({ b with requirements := now } : FormBuilder α).checkDefinition name shape definition =
      .ok () := by
    rw [← checkDefinition_before] at hdefinition ⊢
    exact hdefinition
  simp only [hnone]
  refine (Runs.lift hchecks).bind ?_
  have hset : Runs (MonadStateOf.set ({ b with
      fields := b.fields ++ [⟨b.fields.length, name, shape, symmetric, definition⟩]
      requirements := noteDefinition now definition } : FormBuilder α)) b ⟨⟩ { b with
        fields := b.fields ++ [⟨b.fields.length, name, shape, symmetric, definition⟩] } :=
    fun _ => ⟨_, rfl⟩
  exact hset.bind (.lift (Expr.ofField_ok hname.1 hshape))

/-- **A geometry field is registered once:** asking for it again hands out the same expression. -/
theorem register_again {f : FieldVariable α} {which : BuiltinField}
    (hdefinition : f.definition = .builtin which) (hname : AllowedName f.name)
    (hfound : b.find? f.name = some f) (hshape : f.shape.Declarable f.symmetric) :
    Runs (register f.name f.shape f.symmetric f.definition) b (.field f.name f.shape f.symmetric) b := by
  unfold register
  refine .require (by simpa using hname.1) (.require (by simpa using hname.2) (.get fun now => ?_))
  have hsome : ({ b with requirements := now } : FormBuilder α).find? f.name = some f := hfound
  simp only [hsome]
  refine .require ?_ (.lift (Expr.ofField_ok hname.1 hshape))
  simp [repeats, hdefinition]

/-- The quadrature weight, as a field with a number. -/
def weightVariable (id : Nat) : FieldVariable α := ⟨id, "weight", .scalar, false, .builtin .weight⟩

/-- The transposed inverse Jacobian, as a field with a number. -/
def jacobianVariable (id d : Nat) : FieldVariable α :=
  ⟨id, "JacInvT", .matrix d d, false, .builtin .inverseTransposed⟩

/-- A scalar can be declared. -/
theorem declarable_scalar : Shape.scalar.Declarable false :=
  ⟨Nat.one_pos, Nat.one_pos, fun h => nomatch h⟩

/-- A matrix with rows and columns can be declared, and as symmetric if it is square. -/
theorem declarable_matrix {d : Nat} (hd : 1 ≤ d) (symmetric : Bool) :
    (Shape.matrix d d).Declarable symmetric := ⟨hd, hd, fun _ => ⟨rfl, rfl⟩⟩

/-- A vector with components can be declared. -/
theorem declarable_vector {d : Nat} (hd : 1 ≤ d) : (Shape.vector d).Declarable false :=
  ⟨hd, Nat.one_pos, fun h => nomatch h⟩

/-- Asking for the weight registers it. -/
theorem quadratureWeight_runs (hfresh : b.find? "weight" = none) :
    Runs quadratureWeight b (.field "weight" .scalar false)
      { b with fields := b.fields ++ [weightVariable b.fields.length] } :=
  register_runs (f := weightVariable b.fields.length) rfl (by decide : AllowedName "weight") hfresh
    declarable_scalar rfl

/-- A matrix is registered as any field is. -/
theorem registerMatrix_runs {name : String} {d : Nat} {symmetric : Bool} {definition : FieldDefinition α}
    {r : Expr α} {b' : FormBuilder α} (hd : 1 ≤ d)
    (h : Runs (register name (.matrix d d) symmetric definition) b r b') :
    Runs (registerMatrix name d d symmetric definition) b r b' := by
  refine .require ?_ (.require ?_ h)
  · rw [decide_eq_true hd]
    rfl
  · rw [beq_self_eq_true, Bool.or_true]

/-- Asking for the transposed inverse Jacobian registers it. -/
theorem inverseTransposed_runs {d : Nat} (hdim : b.dim = d) (hd : 1 ≤ d) (hfresh : b.find? "JacInvT" = none) :
    Runs inverseTransposed b (.field "JacInvT" (.matrix d d) false)
      { b with fields := b.fields ++ [jacobianVariable b.fields.length d] } := by
  subst hdim
  refine .get fun _ => registerMatrix_runs hd ?_
  exact register_runs (f := jacobianVariable b.fields.length b.dim) rfl (by decide : AllowedName "JacInvT")
    hfresh (declarable_matrix hd false) rfl

/-- Asking for it again registers nothing. -/
theorem inverseTransposed_again {d id : Nat} (hdim : b.dim = d) (hd : 1 ≤ d)
    (hfound : b.find? "JacInvT" = some (jacobianVariable id d)) :
    Runs inverseTransposed b (.field "JacInvT" (.matrix d d) false) b := by
  subst hdim
  refine .get fun _ => registerMatrix_runs hd ?_
  exact register_again (f := jacobianVariable id b.dim) rfl (by decide : AllowedName "JacInvT") hfound
    (declarable_matrix hd false)

/-- **A symmetric matrix of expressions over array fields** is registered as a precomputed field. -/
theorem precompute_runs {name : String} {d : Nat} {e : Expr α} (hd : 1 ≤ d) (hshape : e.shape = .matrix d d)
    (hname : AllowedName name) (hfresh : b.find? name = none) (hrefs : b.checkReferences true e = .ok ()) :
    Runs (precompute name (some e) true) b (.field name (.matrix d d) true)
      { b with fields :=
          b.fields ++ [⟨b.fields.length, name, .matrix d d, true, .precomputed (some e)⟩] } := by
  have hregister := register_runs (f := ⟨b.fields.length, name, .matrix d d, true, .precomputed (some e)⟩) rfl
    hname hfresh (declarable_matrix hd true)
    (require_bind_eq_ok_iff.mpr ⟨beq_iff_eq.mpr hshape, hrefs⟩)
  refine (Runs.lift (r := e) rfl).bind ?_
  simp only [hshape]
  exact registerMatrix_runs hd hregister

/-- **A local field** is registered with the shape of its definition. -/
theorem defineLocal_runs {name : String} {e : Expr α} (hshape : e.shape.Declarable false)
    (hname : AllowedName name) (hfresh : b.find? name = none) (hrefs : b.checkReferences false e = .ok ()) :
    Runs (defineLocal name (some e)) b (.field name e.shape false)
      { b with fields := b.fields ++ [⟨b.fields.length, name, e.shape, false, .perEntry (some e)⟩] } := by
  refine (Runs.lift (r := e) rfl).bind ?_
  exact register_runs (f := ⟨b.fields.length, name, e.shape, false, .perEntry (some e)⟩) rfl hname hfresh
    hshape (require_bind_eq_ok_iff.mpr ⟨beq_self_eq_true _, hrefs⟩)

/-- **A function that is present** is registered as an input field. -/
theorem inputFunction_runs {name : String} {function : Option (InputFunction α)}
    (hfunction : function.isSome = true) (hname : AllowedName name) (hfresh : b.find? name = none) :
    Runs (inputFunction name function) b (.field name .scalar false)
      { b with fields := b.fields ++ [⟨b.fields.length, name, .scalar, false, .input function⟩] } :=
  register_runs (f := ⟨b.fields.length, name, .scalar, false, .input function⟩) rfl hname hfresh
    declarable_scalar (require_bind_eq_ok_iff.mpr ⟨hfunction, rfl⟩)

/-- A registered field is handed out. -/
theorem field_ok {f : FieldVariable α} (hname : f.name ≠ "") (hshape : f.shape.Declarable f.symmetric)
    (hfound : b.find? f.name = some f) : b.field f.name = .ok (.field f.name f.shape f.symmetric) := by
  unfold FormBuilder.field
  rw [hfound]
  exact Expr.ofField_ok hname hshape

/-! ## (3) Basis functions -/

end FormBuilder

/-- A derivative order for each axis of a space. -/
def multiIndex (d : Nat) (orders : Nat → Nat) : List Nat := (List.range d).map orders

/-- There is one order for each axis. -/
@[simp] theorem length_multiIndex (d : Nat) (orders : Nat → Nat) : (multiIndex d orders).length = d := by
  rw [multiIndex, List.length_map, List.length_range]

/-- Some orders are there if there is an axis. -/
theorem multiIndex_ne_nil {d : Nat} (hd : 1 ≤ d) (orders : Nat → Nat) : multiIndex d orders ≠ [] := by
  rw [← List.length_pos_iff, length_multiIndex]
  exact hd

/-- No derivative at all. -/
theorem multiIndex_zero (d : Nat) : multiIndex d 0 = List.replicate d 0 := by
  rw [multiIndex, List.eq_replicate_iff]
  refine ⟨length_multiIndex d 0, fun n hn => ?_⟩
  obtain ⟨k, -, rfl⟩ := List.mem_map.mp hn
  rfl

namespace FormBuilder

variable {b : FormBuilder α}

/-- Test functions are known in every form. -/
theorem checkBasis_test : b.checkBasis BasisRole.test.name = .ok () := rfl

/-- Trial functions are known in bilinear forms. -/
theorem checkBasis_trial (h : b.arity = .bilinear) : b.checkBasis BasisRole.trial.name = .ok () := by
  unfold checkBasis
  rw [if_neg (by decide), if_pos rfl, h]
  rfl

/-- Basis functions that are known have a name. -/
theorem ne_empty_of_checkBasis {basis : String} (h : b.checkBasis basis = .ok ()) : basis ≠ "" := by
  rcases checkBasis_eq_ok h with rfl | ⟨rfl, -⟩ <;> decide

/-- Asking for a basis function. -/
theorem basisValue_runs {basis : String} {d : Nat} (hdim : b.dim = d) (hd : 1 ≤ d)
    (hbasis : b.checkBasis basis = .ok ()) :
    Runs (basisValue basis) b (.deriv basis (multiIndex d 0)) b := by
  subst hdim
  refine .get fun _ => (Runs.lift hbasis).bind (Runs.note.bind (.lift ?_))
  have horders : List.replicate b.dim (0 : Int) = (multiIndex b.dim 0).map Int.ofNat := by
    rw [multiIndex_zero, List.map_replicate]
    rfl
  show Expr.ofDeriv basis (List.replicate b.dim 0) = _
  rw [horders]
  exact Expr.ofDeriv_ok (ne_empty_of_checkBasis hbasis) (multiIndex_ne_nil hd 0)

/-- The first derivative along an axis. -/
theorem unitOrder_ok {d i : Nat} {axis : Int} (hi : i < d)
    (haxis : (if axis < 0 then axis + d else axis) = (i : Int)) :
    unitOrder d axis = .ok (multiIndex d (Pi.single i 1)) := by
  unfold unitOrder
  rw [haxis, require_bind_eq_ok_iff]
  refine ⟨by simpa using hi, congrArg Except.ok (List.map_congr_left fun k _ => ?_)⟩
  by_cases hk : k = i
  · rw [hk, if_pos rfl, Pi.single_eq_same]
  · rw [if_neg (by omega), Pi.single_eq_of_ne hk]

/-- **Additional orders** as they are passed on: none at all, or one for each axis. -/
def PassesOrders (d : Nat) (extra : List Int) (orders : Nat → Nat) : Prop :=
  extra = [] ∧ orders = 0 ∨ extra = (multiIndex d orders).map Int.ofNat

namespace PassesOrders

variable {d : Nat} {extra : List Int} {orders : Nat → Nat} (h : PassesOrders d extra orders)

include h

/-- Additional orders are not negative. -/
theorem nonneg : (extra.all fun m => decide (0 ≤ m)) = true := by
  rcases h with ⟨rfl, -⟩ | rfl
  · rfl
  · simp

/-- If there are any, there is one for each axis. -/
theorem one_each : (extra.isEmpty || extra.length == d) = true := by
  rcases h with ⟨rfl, -⟩ | rfl
  · rfl
  · rw [List.length_map, length_multiIndex, beq_self_eq_true, Bool.or_true]

/-- They go on top of a first derivative. -/
theorem add_unit {i : Nat} (hi : i < d) :
    (if extra.isEmpty then multiIndex d (Pi.single i 1)
      else List.zipWith (fun (n : Nat) (m : Int) => n + m.toNat) (multiIndex d (Pi.single i 1)) extra) =
        multiIndex d (orders + Pi.single i 1) := by
  rcases h with ⟨rfl, rfl⟩ | rfl
  · exact List.map_congr_left fun k _ => (Nat.zero_add _).symm
  · have hne : ((multiIndex d orders).map Int.ofNat).isEmpty = false := by
      rw [List.isEmpty_eq_false_iff, Ne, List.map_eq_nil_iff]
      exact multiIndex_ne_nil (Nat.lt_of_le_of_lt (Nat.zero_le i) hi) orders
    rw [hne, if_neg (by decide), List.zipWith_map_right, multiIndex, multiIndex, List.zipWith_map,
      List.zipWith_self]
    exact List.map_congr_left fun k _ => Nat.add_comm _ _

end PassesOrders

/-- **A component of a gradient** has the additional orders and one more along its axis. -/
theorem gradientComponent_runs {basis : String} {d i : Nat} {extra : List Int} {orders : Nat → Nat}
    (hbasis : basis ≠ "") (hextra : PassesOrders d extra orders) (hi : i < d) :
    Runs (gradientComponent basis d extra i) b
      (some (.deriv basis (multiIndex d (orders + Pi.single i 1)))) b := by
  have hunit : unitOrder d i = .ok (multiIndex d (Pi.single i 1)) := by
    refine unitOrder_ok hi ?_
    rw [if_neg (by omega)]
  unfold gradientComponent
  refine (Runs.lift hunit).bind (.require hextra.nonneg (Runs.note.bind ?_))
  rw [hextra.add_unit hi]
  exact (Runs.lift (Expr.ofDeriv_ok hbasis (multiIndex_ne_nil (by omega) _))).bind .pure

/-- The parametric gradient of a derivative of a basis function. -/
def gradientOf (basis : String) (d : Nat) (orders : Nat → Nat) : Expr α :=
  .compose (.vector d) ((List.range d).map fun i => .deriv basis (multiIndex d (orders + Pi.single i 1)))

/-- **Asking for a parametric gradient** along all axes. -/
theorem gradient_runs {basis : String} {d : Nat} {extra : List Int} {orders : Nat → Nat} (hdim : b.dim = d)
    (hd : 1 ≤ d) (hbasis : b.checkBasis basis = .ok ()) (hextra : PassesOrders d extra orders) :
    Runs (gradient basis [] extra) b (gradientOf basis d orders) b := by
  subst hdim
  let component (i : Nat) : Expr α := .deriv basis (multiIndex b.dim (orders + Pi.single i 1))
  have hall : ∀ axis ∈ (List.range b.dim).map Int.ofNat,
      Runs (gradientComponent basis b.dim extra axis) b (some (component axis.toNat)) b := by
    intro axis haxis
    obtain ⟨i, hi, rfl⟩ := List.mem_map.mp haxis
    exact gradientComponent_runs (ne_empty_of_checkBasis hbasis) hextra (List.mem_range.mp hi)
  have hcomponents : Runs (((List.range b.dim).map Int.ofNat).mapM (gradientComponent basis b.dim extra)) b
      (((List.range b.dim).map component).map some) b := by
    have hmap := Runs.mapM hall
    rwa [List.map_map] at hmap ⊢
  have hvector : Expr.ofVector (((List.range b.dim).map component).map some) =
      .ok (gradientOf basis b.dim orders) := by
    have hne : (List.range b.dim).map component ≠ [] := by
      rw [Ne, List.map_eq_nil_iff, List.range_eq_nil]
      omega
    have hscalar : ∀ e ∈ (List.range b.dim).map component, e.shape.isScalar = true := by
      intro e he
      obtain ⟨i, -, rfl⟩ := List.mem_map.mp he
      rfl
    rw [Expr.ofVector_ok hne hscalar, List.length_map, List.length_range]
    rfl
  refine .get fun _ => (Runs.lift hbasis).bind (.require hextra.one_each (Runs.note.bind ?_))
  exact hcomponents.bind (.lift hvector)

/-- The physical gradient of a derivative of a basis function. -/
def physicalGradientOf (basis : String) (d : Nat) (orders : Nat → Nat) : Expr α :=
  .matmul (.field "JacInvT" (.matrix d d) false) (gradientOf basis d orders)

/-- **Asking for a physical gradient** asks for the transposed inverse Jacobian first. -/
theorem physicalGradient_runs {basis : String} {d : Nat} {extra : List Int} {orders : Nat → Nat}
    {b' : FormBuilder α}
    (hjacobian : Runs inverseTransposed b (.field "JacInvT" (.matrix d d) false) b') (hdim : b'.dim = d)
    (hd : 1 ≤ d) (hbasis : b'.checkBasis basis = .ok ()) (hextra : PassesOrders d extra orders) :
    Runs (physicalGradient basis extra) b (physicalGradientOf basis d orders) b' :=
  hjacobian.bind ((gradient_runs hdim hd hbasis hextra).bind
    (Runs.note.bind (.lift (Operand.matmul_ok rfl rfl rfl))))

/-! ## (4) Accumulations -/

/-- **A scalar that refers to what is registered** is added to a slot of the form. -/
theorem addToSlot_runs {slot : Nat} {e : Expr α} (hscalar : e.shape.isScalar = true)
    (hslot : slot < b.outputSlots) (hrefs : b.checkReferences false e = .ok ()) :
    Runs (addToSlot slot (some e)) b ⟨⟩
      { b with accumulations := b.accumulations ++ [⟨slot, some e⟩] } := by
  refine .get fun now => .require hscalar ?_
  refine (Runs.lift (checkIndex_eq_ok_iff.mpr ⟨Int.natCast_nonneg slot, Int.ofNat_lt.mpr hslot⟩)).bind ?_
  refine (Runs.lift hrefs).bind fun _ => ⟨now, rfl⟩

/-- A scalar is added to the first slot. -/
theorem add_runs {e : Expr α} (hscalar : e.shape.isScalar = true) (hslots : 0 < b.outputSlots)
    (hrefs : b.checkReferences false e = .ok ()) :
    Runs (add (some e)) b ⟨⟩ { b with accumulations := b.accumulations ++ [⟨0, some e⟩] } :=
  addToSlot_runs hscalar hslots hrefs

end FormBuilder

/-! ## (5) Specifications -/

/-- **What a specification builds in dimension `d`:** a form with given fields and accumulations. -/
structure FormSpec.Builds (spec : FormSpec α) (d : Nat) (fields : List (FieldVariable α))
    (sums : List (Accumulation α)) (form : Form α) : Prop where
  build : spec.build d = .ok form
  fields : form.fields = fields
  accumulations : form.accumulations = sums
  slots : form.outputSlots = outputSlotCount spec.arity (spec.components d).toNat

/-- The builder that a specification starts with. -/
def FormSpec.start (spec : FormSpec α) (d : Nat) : FormBuilder α where
  name := spec.name
  dim := d
  arity := spec.arity
  components := (spec.components d).toNat
  symmetric := spec.symmetric

/-- **A body that succeeds and adds something builds a form.** -/
theorem FormSpec.exists_builds {spec : FormSpec α} {d : Nat} {fields : List (FieldVariable α)}
    {sums : List (Accumulation α)} (hd : 1 ≤ d) (hcomponents : 1 ≤ spec.components d)
    (h : Runs spec.body (spec.start d) ⟨⟩ { spec.start d with fields := fields, accumulations := sums })
    (hne : sums ≠ []) : ∃ form, spec.Builds d fields sums form := by
  obtain ⟨after, hafter⟩ := h {}
  set b : FormBuilder α :=
    { spec.start d with fields := fields, accumulations := sums, requirements := after } with hb
  have hmake : FormBuilder.make spec.name d spec.arity (spec.components (d : Int).toNat) spec.symmetric =
      .ok (spec.start d) :=
    require_bind_eq_ok_iff.mpr ⟨decide_eq_true (by omega), require_bind_eq_ok_iff.mpr
      ⟨decide_eq_true hcomponents, rfl⟩⟩
  have hrun : spec.body.run.run (spec.start d) = (.ok ⟨⟩, b) := hafter
  obtain ⟨form, hform⟩ : ∃ form, b.finalize = .ok form :=
    ⟨_, require_bind_eq_ok_iff.mpr ⟨by simpa [hb] using hne, rfl⟩⟩
  have hbuild : spec.build d = .ok form := by
    refine require_bind_eq_ok_iff.mpr ⟨decide_eq_true (by omega), bind_eq_ok_iff.mpr ⟨_, hmake, ?_⟩⟩
    rw [hrun]
    exact hform
  obtain ⟨-, rfl⟩ := FormBuilder.finalize_eq_ok hform
  exact ⟨_, hbuild, rfl, rfl, rfl⟩

end Galerkin
