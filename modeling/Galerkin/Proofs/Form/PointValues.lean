import Galerkin.Proofs.Form.Bodies
import Galerkin.Proofs.Index.Linear
import Mathlib.Algebra.BigOperators.Group.Finset.Basic

/-! # Values at a point

In exact arithmetic the values of the expressions that forms are made of are sums of products: rows of a
product, inner products, physical gradients. At a point they are those of the stored components of the fields
and of the derivatives of the basis functions.

* **`Expr.rowValue_eq_sum`**, **`Expr.values_innerSum`**, **`Expr.values_physicalGradientOf`** — values of
  expressions as sums;
* **`PointData.gradient`**, **`Form.Valid.valuesOf_physicalGradient`** — the physical gradient at a point;
* **`PointValues`**, **`PointValues.gradient`** — values at a point with fields by their names, and the
  physical gradient there;
* **`PointValues.pointOf`** — what a form reads of them. -/

namespace Galerkin

variable {K : Type} [Field K] [LinearOrder K]

/-! ## (1) Values of expressions -/

omit [LinearOrder K] in
/-- A sum from left to right that starts with its first term. -/
theorem foldl_range'_eq_sum (g : Nat → K) (n : Nat) :
    (List.range' 1 n).foldl (fun sum k => sum + g k) (g 0) = ∑ k ∈ Finset.range (n + 1), g k := by
  induction n with
  | zero => rw [Finset.sum_range_one]; rfl
  | succ n ih =>
    rw [List.range'_concat, List.foldl_append, ih, Finset.sum_range_succ _ (n + 1), Nat.one_mul,
      Nat.add_comm 1 n]
    rfl

omit [LinearOrder K] in
/-- An entry of a list of function values. -/
theorem getD_map_range (g : Nat → K) {n k : Nat} (hk : k < n) : ((List.range n).map g).getD k 0 = g k := by
  rw [List.getD_eq_getElem?_getD, List.getElem?_map, List.getElem?_range hk]
  rfl

/-- The entries of a square matrix, row by row. -/
theorem map_positions {β : Type} (g : Nat × Nat → β) (d : Nat) :
    (Shape.matrix d d).positions.map g = (List.range (d * d)).map fun k => g (k / d, k % d) := by
  rw [Shape.positions, List.map_flatMap]
  simp only [List.map_map]
  exact flatMap_range_map d d fun i j => g (i, j)

omit [LinearOrder K] in
/-- An entry of a square matrix that is listed row by row. -/
theorem getD_map_positions (g : Nat × Nat → K) {d i j : Nat} (hi : i < d) (hj : j < d) :
    ((Shape.matrix d d).positions.map g).getD (i * d + j) 0 = g (i, j) := by
  have hget : (Shape.matrix d d).positions[i * d + j]? = some (i, j) :=
    Shape.getElem?_positions (s := .matrix d d) hi hj
  rw [List.getD_eq_getElem?_getD, List.getElem?_map, hget]
  rfl

namespace Expr

variable {fields : String → List K} {derivs : String → List Nat → K}

/-- **A row of a product is a sum** of products. -/
theorem rowValue_eq_sum (matrix vector : List K) {cols : Nat} (hcols : 1 ≤ cols) (r : Nat) :
    rowValue matrix vector cols r =
      ∑ c ∈ Finset.range cols, matrix.getD (r * cols + c) 0 * vector.getD c 0 := by
  obtain ⟨n, rfl⟩ := Nat.exists_eq_add_of_le' hcols
  rw [rowValue, Nat.add_sub_cancel, foldl_range'_eq_sum]
  simp only [termValue, Scalar.zero_exact]

/-- **An inner product is a sum** of products. -/
theorem values_innerSum (x y : Expr K) (n : Nat) : (Operand.innerSum x y n).values fields derivs =
    [∑ k ∈ Finset.range (n + 1), (x.values fields derivs).getD k 0 * (y.values fields derivs).getD k 0] := by
  have hproduct : ∀ k, (Operand.componentProduct x y k).values fields derivs =
      [(x.values fields derivs).getD k 0 * (y.values fields derivs).getD k 0] := by
    intro k
    simp only [Operand.componentProduct, values, Scalar.zero_exact]
    rfl
  induction n with
  | zero => rw [Operand.innerSum, hproduct, Finset.sum_range_one]
  | succ n ih =>
    rw [Operand.innerSum, values, ih, hproduct, Finset.sum_range_succ _ (n + 1)]
    rfl

/-- The values of a parametric gradient are derivatives along the axes. -/
theorem values_gradientOf (basis : String) (d : Nat) (orders : Nat → Nat) :
    (FormBuilder.gradientOf basis d orders).values fields derivs =
      (List.range d).map fun i => derivs basis (multiIndex d (orders + Pi.single i 1)) := by
  rw [FormBuilder.gradientOf, values, firstValues_eq_map, List.map_map]
  refine List.map_congr_left fun i _ => ?_
  rw [Function.comp_apply, values]
  rfl

/-- **The values of a physical gradient:** the transposed inverse Jacobian times the derivatives. -/
theorem values_physicalGradientOf (basis : String) {d : Nat} (hd : 1 ≤ d) (orders : Nat → Nat) :
    (FormBuilder.physicalGradientOf basis d orders).values fields derivs =
      (List.range d).map fun i => ∑ k ∈ Finset.range d,
        (fields "JacInvT").getD (i * d + k) 0 * derivs basis (multiIndex d (orders + Pi.single k 1)) := by
  have hrows : (Expr.field "JacInvT" (.matrix d d) false : Expr K).shape.rows = d := rfl
  have hcols : (Expr.field "JacInvT" (.matrix d d) false : Expr K).shape.cols = d := rfl
  rw [FormBuilder.physicalGradientOf, values, hrows, hcols]
  refine List.map_congr_left fun i _ => ?_
  rw [rowValue_eq_sum _ _ hd, values_gradientOf, values]
  exact Finset.sum_congr rfl fun k hk => by rw [getD_map_range _ (Finset.mem_range.mp hk)]

end Expr

/-! ## (2) Values at a point -/

/-- **A component of the physical gradient** of a derivative of a basis function: a row of the transposed
inverse Jacobian, which is the field of the given number, times the derivatives of one order more. -/
def PointData.gradient (point : PointData K) (jacobian : Nat) (role : BasisRole) (d : Nat)
    (orders : Nat → Nat) (i : Nat) : K :=
  ∑ k ∈ Finset.range d, point.field jacobian (i * d + k) *
    point.basis ⟨role, (multiIndex d (orders + Pi.single k 1)).map Int.ofNat⟩

namespace Form

variable {form : Form K} {point : PointData K} {x y : Expr K} {d : Nat}

/-- An operation on two scalars. -/
theorem valuesOf_binary {op : ArithOp} {a b : K} (hx : form.valuesOf point x = [a])
    (hy : form.valuesOf point y = [b]) : form.valuesOf point (.binary op x y) = [op.apply a b] := by
  rw [valuesOf] at hx hy ⊢
  rw [Expr.values, hx, hy]
  rfl

/-- A component of a vector. -/
theorem valuesOf_index (k : Nat) :
    form.valuesOf point (.index x k) = [(form.valuesOf point x).getD k 0] := by
  rw [valuesOf, Expr.values, Scalar.zero_exact]
  rfl

/-- **The values of an array field** are its components, entry by entry. -/
theorem Valid.fieldValues_array (hform : form.Valid) {f : FieldVariable K} (hf : f ∈ form.fields)
    (harray : f.isArray = true) : form.fieldValues point f.name =
      f.shape.positions.map fun p => point.field f.id (f.backingIndex p.1 p.2) :=
  (hform.fieldValues_eq _ hf).trans (f.values_of_isArray harray _ _)

/-- The value of the weight. -/
theorem Valid.valuesOf_weight (hform : form.Valid) {id : Nat}
    (hf : FormBuilder.weightVariable id ∈ form.fields) :
    form.valuesOf point StandardForm.weight = [point.field id 0] := by
  rw [valuesOf, StandardForm.weight, Expr.values]
  exact hform.fieldValues_array hf rfl

/-- An entry of the transposed inverse Jacobian. -/
theorem Valid.getD_inverseJacobian (hform : form.Valid) {id : Nat}
    (hf : FormBuilder.jacobianVariable id d ∈ form.fields) {i k : Nat} (hi : i < d) (hk : k < d) :
    (form.fieldValues point "JacInvT").getD (i * d + k) 0 = point.field id (i * d + k) := by
  rw [show form.fieldValues point "JacInvT" = _ from hform.fieldValues_array hf rfl]
  exact getD_map_positions _ hi hk

/-- **The values of a physical gradient.** -/
theorem Valid.valuesOf_physicalGradient (hform : form.Valid) (hd : 1 ≤ d) {id : Nat}
    (hf : FormBuilder.jacobianVariable id d ∈ form.fields) (role : BasisRole) (orders : Nat → Nat) :
    form.valuesOf point (FormBuilder.physicalGradientOf role.name d orders) =
      (List.range d).map (point.gradient id role d orders) := by
  rw [valuesOf, Expr.values_physicalGradientOf _ hd]
  refine List.map_congr_left fun i hi => Finset.sum_congr rfl fun k hk => ?_
  rw [hform.getD_inverseJacobian hf (List.mem_range.mp hi) (Finset.mem_range.mp hk)]
  cases role <;> rfl

/-- A component of a physical gradient. -/
theorem Valid.valuesOf_component (hform : form.Valid) {id k : Nat} (hk : k < d)
    (hf : FormBuilder.jacobianVariable id d ∈ form.fields) (role : BasisRole) (orders : Nat → Nat) :
    form.valuesOf point (.index (FormBuilder.physicalGradientOf role.name d orders) k) =
      [point.gradient id role d orders k] := by
  rw [valuesOf_index, hform.valuesOf_physicalGradient (by omega) hf, getD_map_range _ hk]

end Form

namespace StandardForm

variable {form : Form K} {point : PointData K} {x y : Expr K} {d : Nat}

/-- **The product of the space parts** of two gradients. -/
theorem valuesOf_spaceProductOf (hd : 2 ≤ d) {gx gy : Nat → K}
    (hx : form.valuesOf point x = (List.range d).map gx)
    (hy : form.valuesOf point y = (List.range d).map gy) :
    form.valuesOf point (spaceProductOf d x y) = [∑ i ∈ Finset.range (d - 1), gx i * gy i] := by
  -- An inner product has one term that starts it and a count of further ones.
  have hcount : d - 1 - 1 + 1 = d - 1 := by omega
  have hslice : ∀ (z : Expr K) (gz : Nat → K), form.valuesOf point z = (List.range d).map gz → ∀ k < d - 1,
      ((Expr.slice z (List.range (d - 1))).values (form.fieldValues point) point.deriv).getD k 0 = gz k := by
    intro z gz hz k hk
    rw [Form.valuesOf] at hz
    rw [Expr.values, getD_map_range _ hk, Scalar.zero_exact, hz, getD_map_range _ (by omega)]
  rw [Form.valuesOf, spaceProductOf, Expr.values_innerSum, hcount]
  refine congrArg (fun sum => [sum]) (Finset.sum_congr rfl fun k hk => ?_)
  rw [hslice x gx hx k (Finset.mem_range.mp hk), hslice y gy hy k (Finset.mem_range.mp hk)]

end StandardForm

/-- **Values at a point:** the stored components of the fields, by name, and the derivatives of the basis
functions. -/
structure PointValues (K : Type) where
  field : (name : String) → (component : Nat) → K
  basis : BasisLoad → K

namespace PointValues

variable (v : PointValues K)

/-- The quadrature weight. -/
def weight : K := v.field "weight" 0

/-- A derivative of a basis function, by its orders. -/
def derivative (role : BasisRole) (d : Nat) (orders : Nat → Nat) : K :=
  v.basis ⟨role, (multiIndex d orders).map Int.ofNat⟩

/-- **A component of the physical gradient** of a derivative of a basis function: a row of the transposed
inverse Jacobian times the derivatives of one order more. -/
def gradient (role : BasisRole) (d : Nat) (orders : Nat → Nat) (i : Nat) : K :=
  ∑ k ∈ Finset.range d, v.field "JacInvT" (i * d + k) * v.derivative role d (orders + Pi.single k 1)

/-- The values with other components of a field. -/
def set (name : String) (components : Array K) : PointValues K :=
  { v with field := Function.update v.field name fun c => components.getD c 0 }

/-- **What a form reads at the point:** fields go by their numbers there. -/
def pointOf (form : Form K) : PointData K where
  basis := v.basis
  field id component :=
    match form.fields[id]? with
    | some f => v.field f.name component
    | none => 0

variable {form : Form K} {d : Nat}

omit [LinearOrder K] in
/-- A field of a form is read by its name. -/
theorem field_pointOf (hform : form.Valid) {f : FieldVariable K} (hf : f ∈ form.fields) (component : Nat) :
    (v.pointOf form).field f.id component = v.field f.name component := by
  simp only [pointOf, hform.getElem?_id hf]

/-- The value of the weight. -/
theorem valuesOf_weight (hform : form.Valid) {id : Nat} (hf : FormBuilder.weightVariable id ∈ form.fields) :
    form.valuesOf (v.pointOf form) StandardForm.weight = [v.weight] :=
  (hform.valuesOf_weight hf).trans (congrArg (fun w => [w]) (v.field_pointOf hform hf 0))

/-- The value of a derivative of a basis function. -/
theorem valuesOf_derivative (role : BasisRole) (orders : Nat → Nat) :
    form.valuesOf (v.pointOf form) (StandardForm.derivativeOf role.name d orders) =
      [v.derivative role d orders] := by
  rw [Form.valuesOf, StandardForm.derivativeOf, Expr.values]
  cases role <;> rfl

omit [LinearOrder K] in
/-- A component of a physical gradient. -/
theorem gradient_pointOf (hform : form.Valid) {id : Nat}
    (hf : FormBuilder.jacobianVariable id d ∈ form.fields) (role : BasisRole) (orders : Nat → Nat) (i : Nat) :
    (v.pointOf form).gradient id role d orders i = v.gradient role d orders i :=
  Finset.sum_congr rfl fun k _ => congrArg (· * _) (v.field_pointOf hform hf (i * d + k))

/-- **The values of a physical gradient.** -/
theorem valuesOf_physicalGradient (hform : form.Valid) (hd : 1 ≤ d) {id : Nat}
    (hf : FormBuilder.jacobianVariable id d ∈ form.fields) (role : BasisRole) (orders : Nat → Nat) :
    form.valuesOf (v.pointOf form) (FormBuilder.physicalGradientOf role.name d orders) =
      (List.range d).map (v.gradient role d orders) :=
  (hform.valuesOf_physicalGradient hd hf role orders).trans
    (List.map_congr_left fun i _ => v.gradient_pointOf hform hf role orders i)

/-- A component of it. -/
theorem valuesOf_component (hform : form.Valid) {id k : Nat} (hk : k < d)
    (hf : FormBuilder.jacobianVariable id d ∈ form.fields) (role : BasisRole) (orders : Nat → Nat) :
    form.valuesOf (v.pointOf form) (.index (FormBuilder.physicalGradientOf role.name d orders) k) =
      [v.gradient role d orders k] :=
  (hform.valuesOf_component hk hf role orders).trans
    (congrArg (fun g => [g]) (v.gradient_pointOf hform hf role orders k))

end PointValues

end Galerkin
