import Galerkin.Form.Standard
import Galerkin.Proofs.Exact
import Galerkin.Proofs.Form.Meaning
import Mathlib

/-! # Forms that vanish with their functions

A bilinear form vanishes where its test function or its trial function does, together with all
derivatives. Whether it does can be read off its expressions: a product vanishes with either factor, a
sum if both summands do.

* **`Form.VanishesWithout`** — a form that vanishes with the functions of a role;
* **`Form.vanishes`** — whether this can be read off the expressions, and **`vanishesWithout_of_vanishes`**;
* **`StandardForm.vanishesWithout`** — the bilinear standard forms are of this kind. -/

namespace Galerkin

variable {α : Type}

/-! ## (1) Reading it off the expressions -/

namespace Expr

mutual

/-- **Whether all components vanish** with the derivatives of a basis function and some fields, as far as
the outermost operations tell. -/
def vanishes (zeros : List String) (basis : String) : Expr α → Bool
  | const _ => false
  | field name _ _ => zeros.contains name
  | binary .add lhs rhs => lhs.vanishes zeros basis && rhs.vanishes zeros basis
  | binary .sub lhs rhs => lhs.vanishes zeros basis && rhs.vanishes zeros basis
  | binary .mul lhs rhs => lhs.vanishes zeros basis || rhs.vanishes zeros basis
  | binary .div lhs _ => lhs.vanishes zeros basis
  | index vector _ => vector.vanishes zeros basis
  | entry matrix _ _ => matrix.vanishes zeros basis
  | slice vector _ => vector.vanishes zeros basis
  | matmul matrix vector => matrix.vanishes zeros basis || vector.vanishes zeros basis
  | deriv name _ => name == basis
  | compose _ components => allVanish zeros basis components

/-- Whether all of some expressions vanish. -/
def allVanish (zeros : List String) (basis : String) : List (Expr α) → Bool
  | [] => true
  | e :: es => e.vanishes zeros basis && allVanish zeros basis es

end

/-- Expressions vanish one by one. -/
theorem allVanish_iff {zeros : List String} {basis : String} {es : List (Expr α)} :
    allVanish zeros basis es = true ↔ ∀ e ∈ es, e.vanishes zeros basis = true := by
  induction es with
  | nil => simp [allVanish]
  | cons e es ih => rw [allVanish, Bool.and_eq_true, ih, List.forall_mem_cons]

end Expr

/-- Whether a field vanishes with a basis function and some earlier fields: a local field does if its
definition does. -/
def FieldVariable.vanishes (zeros : List String) (basis : String) (f : FieldVariable α) : Bool :=
  match f.definition with
  | .perEntry (some e) => e.vanishes zeros basis
  | _ => false

/-- The fields that vanish with a basis function, from those known to vanish before. -/
def zeroFields (basis : String) (zeros : List String) : List (FieldVariable α) → List String
  | [] => zeros
  | f :: fs => zeroFields basis
      (if f.vanishes zeros basis then f.name :: zeros else zeros.filter (· != f.name)) fs

/-- **Whether everything that is accumulated vanishes** with the functions of a role. -/
def Form.vanishes (form : Form α) (role : BasisRole) : Bool :=
  form.accumulations.all fun a =>
    match a.expression with
    | some e => e.vanishes (zeroFields role.name [] form.fields) role.name
    | none => true

/-! ## (2) What is read off is the case -/

variable {K : Type} [Field K] [LinearOrder K]

omit [LinearOrder K] in
/-- Values that are all zero, by position. -/
theorem getD_eq_zero {xs : List K} (h : ∀ x ∈ xs, x = 0) (k : Nat) : xs.getD k 0 = 0 := by
  rw [List.getD_eq_getElem?_getD]
  cases hx : xs[k]? with
  | none => rfl
  | some x => exact h x (List.mem_of_getElem? hx)

namespace Expr

/-- A row of a product is zero if one of the factors is. -/
theorem rowValue_eq_zero {matrix vector : List K}
    (h : (∀ x ∈ matrix, x = 0) ∨ ∀ x ∈ vector, x = 0) (cols r : Nat) :
    rowValue matrix vector cols r = 0 := by
  have hterm : ∀ c, termValue matrix vector cols r c = 0 := by
    intro c
    rw [termValue, Scalar.zero_exact]
    rcases h with h | h
    · rw [getD_eq_zero h, zero_mul]
    · rw [getD_eq_zero h, mul_zero]
  rw [rowValue, hterm]
  simp only [hterm, add_zero, List.foldl_fixed]

omit [LinearOrder K] in
/-- Componentwise values are zero if the operation has zero for all pairs of components. -/
theorem zipWith_eq_zero {op : K → K → K} {xs ys : List K} (h : ∀ x ∈ xs, ∀ y ∈ ys, op x y = 0) :
    ∀ z ∈ List.zipWith op xs ys, z = 0 := by
  intro z hz
  obtain ⟨k, hk, rfl⟩ := List.getElem_of_mem hz
  rw [List.getElem_zipWith]
  exact h _ (List.getElem_mem _) _ (List.getElem_mem _)

/-- **Components that are seen to vanish are zero.** -/
theorem values_eq_zero {zeros : List String} {basis : String} {fields : String → List K}
    {derivs : String → List Nat → K} (hfields : ∀ name ∈ zeros, ∀ x ∈ fields name, x = 0)
    (hderivs : ∀ orders, derivs basis orders = 0) {e : Expr K} (h : e.vanishes zeros basis = true) :
    ∀ x ∈ e.values fields derivs, x = 0 := by
  induction e using structural_induction with
  | const c => cases h
  | field name shape symmetric =>
    rw [vanishes, List.contains_iff_mem] at h
    exact hfields name h
  | binary op lhs rhs hl hr =>
    rw [values]
    refine zipWith_eq_zero fun x hx y hy => ?_
    cases op with
    | add =>
      rw [vanishes, Bool.and_eq_true] at h
      rw [hl h.1 x hx, hr h.2 y hy]
      exact add_zero 0
    | sub =>
      rw [vanishes, Bool.and_eq_true] at h
      rw [hl h.1 x hx, hr h.2 y hy]
      exact sub_zero 0
    | mul =>
      rw [vanishes, Bool.or_eq_true] at h
      rcases h with h | h
      · rw [hl h x hx]
        exact zero_mul y
      · rw [hr h y hy]
        exact mul_zero x
    | div =>
      rw [vanishes] at h
      rw [hl h x hx]
      exact zero_div y
  | index vector k hv =>
    rw [vanishes] at h
    rw [values, Scalar.zero_exact, getD_eq_zero (hv h)]
    exact List.forall_mem_singleton.mpr rfl
  | entry matrix i j hm =>
    rw [vanishes] at h
    rw [values, Scalar.zero_exact, getD_eq_zero (hm h)]
    exact List.forall_mem_singleton.mpr rfl
  | slice vector ks hv =>
    rw [vanishes] at h
    intro x hx
    rw [values] at hx
    obtain ⟨k, -, rfl⟩ := List.mem_map.mp hx
    rw [Scalar.zero_exact, getD_eq_zero (hv h)]
  | matmul matrix vector hm hv =>
    rw [vanishes, Bool.or_eq_true] at h
    intro x hx
    rw [values] at hx
    obtain ⟨r, -, rfl⟩ := List.mem_map.mp hx
    exact rowValue_eq_zero (h.imp hm hv) _ r
  | deriv name orders =>
    rw [vanishes, beq_iff_eq] at h
    rw [values, h, hderivs orders]
    exact List.forall_mem_singleton.mpr rfl
  | compose shape components hcomponents =>
    rw [vanishes, allVanish_iff] at h
    intro x hx
    rw [values, firstValues_eq_map] at hx
    obtain ⟨e, he, rfl⟩ := List.mem_map.mp hx
    rw [Scalar.zero_exact, getD_eq_zero (hcomponents e he (h e he))]

end Expr

/-- **Fields that are seen to vanish are zero.** -/
theorem valuesByName_eq_zero {basis : String} {point : PointData K}
    (hpoint : ∀ orders, point.deriv basis orders = 0) {fs : List (FieldVariable K)} :
    ∀ {zeros : List String} {known : String → List K},
      (∀ name ∈ zeros, ∀ x ∈ known name, x = 0) →
        ∀ name ∈ zeroFields basis zeros fs, ∀ x ∈ valuesByName point known fs name, x = 0 := by
  induction fs with
  | nil => exact fun h => h
  | cons f fs ih =>
    intro zeros known hknown
    rw [zeroFields, valuesByName]
    refine ih fun name hname => ?_
    by_cases hf : f.vanishes zeros basis = true
    · rw [if_pos hf, List.mem_cons] at hname
      by_cases heq : name = f.name
      · -- The field is local and its definition vanishes.
        rw [if_pos heq]
        unfold FieldVariable.vanishes at hf
        split at hf
        · rename_i e hdef
          rw [f.values_of_perEntry hdef]
          exact Expr.values_eq_zero hknown hpoint hf
        · cases hf
      · rw [if_neg heq]
        exact hknown name (hname.resolve_left heq)
    · rw [if_neg hf, List.mem_filter, bne_iff_ne] at hname
      rw [if_neg hname.2]
      exact hknown name hname.1

namespace Form

/-- **A form that vanishes with the functions of a role:** if all derivatives of these functions are zero
at a point, everything that is accumulated is zero there. -/
def VanishesWithout (form : Form K) (role : BasisRole) : Prop :=
  ∀ point : PointData K, (∀ orders, point.basis ⟨role, orders⟩ = 0) →
    ∀ a ∈ form.accumulations, form.scalarOf point a.expression = 0

/-- **A form that is seen to vanish does.** -/
theorem vanishesWithout_of_vanishes {form : Form K} {role : BasisRole} (h : form.vanishes role = true) :
    form.VanishesWithout role := by
  intro point hpoint a ha
  have hderiv : ∀ orders, point.deriv role.name orders = 0 := by
    intro orders
    rw [PointData.deriv]
    cases role with
    | trial => exact hpoint _
    | test => exact hpoint _
  have hsum := List.all_eq_true.mp h a ha
  obtain ⟨slot, o⟩ := a
  cases o with
  | none => exact Scalar.zero_exact
  | some e =>
    rw [scalarOf, Scalar.zero_exact]
    exact getD_eq_zero (Expr.values_eq_zero
      (valuesByName_eq_zero hderiv fun name hname => absurd hname List.not_mem_nil) hderiv hsum) 0

/-- Where the form vanishes nothing is accumulated. -/
theorem VanishesWithout.sum_accumulated {form : Form K} {role : BasisRole}
    (h : form.VanishesWithout role) {point : PointData K}
    (hpoint : ∀ orders, point.basis ⟨role, orders⟩ = 0) (slot : Nat) :
    (form.accumulated point slot).sum = 0 := by
  refine List.sum_eq_zero fun x hx => ?_
  obtain ⟨a, ha, rfl⟩ := List.mem_map.mp hx
  exact h point hpoint a (List.mem_filter.mp ha).1

end Form

/-! ## (3) Standard forms -/

namespace StandardForm

/-- Whether a form can be built, is bilinear, and is seen to vanish with the functions of either role. -/
def vanishesInBoth (built : Except Error (Form α)) : Bool :=
  match built with
  | .ok form => form.arity == .bilinear && form.vanishes .trial && form.vanishes .test
  | .error _ => false

set_option maxRecDepth 4000 in
/-- The bilinear standard forms in two and three dimensions, one by one. -/
theorem all_vanishesInBoth : (bilinearForms : List (String × FormSpec α)).all (fun spec =>
    [2, 3].all fun dim => vanishesInBoth (spec.2.build dim)) = true := by
  cbv

/-- **The bilinear standard forms vanish without trial and without test functions** in two and three
dimensions. -/
theorem vanishesWithout {spec : String × FormSpec K} (hspec : spec ∈ bilinearForms) {dim : Int}
    (hdim : dim ∈ [2, 3]) :
    ∃ form, spec.2.build dim = .ok form ∧ form.arity = .bilinear ∧
      ∀ role, form.VanishesWithout role := by
  have hall := List.all_eq_true.mp (List.all_eq_true.mp all_vanishesInBoth spec hspec) dim hdim
  unfold vanishesInBoth at hall
  split at hall
  · rename_i form hform
    rw [Bool.and_eq_true, Bool.and_eq_true, beq_iff_eq] at hall
    refine ⟨form, hform, hall.1.1, fun role => Form.vanishesWithout_of_vanishes ?_⟩
    cases role with
    | trial => exact hall.1.2
    | test => exact hall.2
  · cases hall

end StandardForm

end Galerkin
