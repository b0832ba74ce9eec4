import Galerkin.Proofs.Expr.Construction

/-! # The value of an expression

An expression has one value for each component, row by row. Fields and derivatives of basis functions
are looked up; everything else is computed from the values of the subexpressions, and sums are taken
from left to right.

* **`Expr.structural_induction`** — induction on subexpressions, the components of a composed value
  included;
* **`Expr.operands`**, **`Expr.nodes_subset`** — the operands of an operation, and their nodes;
* **`Expr.values`** — the values of the components;
* **`Expr.values_congr`** — they depend on the fields and derivatives that occur only;
* **`Expr.length_values`** — a well-shaped expression has as many as its shape says. -/

namespace Galerkin

variable {α : Type}

namespace Expr

/-! ## (1) Subexpressions -/

/-- **Induction on subexpressions.** -/
@[elab_as_elim]
theorem structural_induction {motive : Expr α → Prop} (const : ∀ c, motive (.const c))
    (field : ∀ name shape symmetric, motive (.field name shape symmetric))
    (binary : ∀ op lhs rhs, motive lhs → motive rhs → motive (.binary op lhs rhs))
    (index : ∀ vector k, motive vector → motive (.index vector k))
    (entry : ∀ matrix i j, motive matrix → motive (.entry matrix i j))
    (slice : ∀ vector ks, motive vector → motive (.slice vector ks))
    (matmul : ∀ matrix vector, motive matrix → motive vector → motive (.matmul matrix vector))
    (deriv : ∀ basis orders, motive (.deriv basis orders))
    (compose : ∀ shape components, (∀ e ∈ components, motive e) →
      motive (.compose shape components)) (e : Expr α) : motive e :=
  @Expr.rec α motive (fun es => ∀ e ∈ es, motive e) const field binary index entry slice matmul
    deriv compose (fun _ h => nomatch h) (fun _ _ he hes => List.forall_mem_cons.mpr ⟨he, hes⟩) e

/-- The nodes of some expressions, one expression after the other. -/
theorem nodesOfAll_eq_flatMap (es : List (Expr α)) : nodesOfAll es = es.flatMap nodes := by
  induction es with
  | nil => simp [nodesOfAll]
  | cons e es ih => rw [nodesOfAll, ih, List.flatMap_cons]

/-- The operands of the outermost operation. -/
def operands : Expr α → List (Expr α)
  | binary _ lhs rhs => [lhs, rhs]
  | index vector _ => [vector]
  | entry matrix _ _ => [matrix]
  | slice vector _ => [vector]
  | matmul matrix vector => [matrix, vector]
  | compose _ components => components
  | _ => []

/-- **The nodes of an expression** are the expression itself and the nodes of its operands. -/
theorem nodes_eq (e : Expr α) : e.nodes = e :: e.operands.flatMap nodes := by
  cases e <;> simp [nodes, operands, nodesOfAll_eq_flatMap]

/-- The nodes of an operand are nodes of the expression. -/
theorem nodes_of_operand {e x : Expr α} (hx : x ∈ e.operands) : ∀ node ∈ x.nodes, node ∈ e.nodes := by
  intro node hnode
  rw [nodes_eq e]
  exact List.mem_cons_of_mem _ (List.mem_flatMap_of_mem hx hnode)

/-- An expression is one of its nodes. -/
theorem mem_nodes_self (e : Expr α) : e ∈ e.nodes := by
  rw [nodes_eq]
  exact List.mem_cons_self ..

/-- The operands of a well-shaped operation are well shaped. -/
theorem WellShaped.operand {e x : Expr α} (h : e.WellShaped) (hx : x ∈ e.operands) : x.WellShaped := by
  cases e with
  | binary op lhs rhs =>
    rw [WellShaped] at h
    rcases List.mem_pair.mp hx with rfl | rfl
    · exact h.1
    · exact h.2.1
  | matmul matrix vector =>
    rw [WellShaped] at h
    rcases List.mem_pair.mp hx with rfl | rfl
    · exact h.1
    · exact h.2.1
  | index vector k =>
    rw [WellShaped] at h
    obtain rfl := List.mem_singleton.mp hx
    exact h.1
  | entry matrix i j =>
    rw [WellShaped] at h
    obtain rfl := List.mem_singleton.mp hx
    exact h.1
  | slice vector ks =>
    rw [WellShaped] at h
    obtain rfl := List.mem_singleton.mp hx
    exact h.1
  | compose shape components =>
    rw [WellShaped, allScalars_iff] at h
    exact (h.1 x hx).1
  | _ => cases hx

/-- **Induction on operands,** for what does not depend on the operation. -/
@[elab_as_elim]
theorem operand_induction {motive : Expr α → Prop}
    (step : ∀ e, (∀ x ∈ e.operands, motive x) → motive e) (e : Expr α) : motive e := by
  induction e using structural_induction with
  | binary op lhs rhs hl hr => exact step _ (by simp [operands, hl, hr])
  | matmul matrix vector hm hv => exact step _ (by simp [operands, hm, hv])
  | index vector k hv => exact step _ (List.forall_mem_singleton.mpr hv)
  | entry matrix i j hm => exact step _ (List.forall_mem_singleton.mpr hm)
  | slice vector ks hv => exact step _ (List.forall_mem_singleton.mpr hv)
  | compose shape components hc => exact step _ hc
  | _ => exact step _ fun _ h => nomatch h

/-- **The nodes of a node** are nodes of the expression, and a node is well shaped if the expression
is. -/
theorem nodes_subset {e x : Expr α} (hx : x ∈ e.nodes) :
    (∀ node ∈ x.nodes, node ∈ e.nodes) ∧ (e.WellShaped → x.WellShaped) := by
  induction e using operand_induction with
  | step e ih =>
    rw [nodes_eq e, List.mem_cons, List.mem_flatMap] at hx
    rcases hx with rfl | ⟨y, hy, hx⟩
    · exact ⟨fun _ h => h, fun h => h⟩
    · obtain ⟨hsub, hshaped⟩ := ih y hy hx
      exact ⟨fun node h => nodes_of_operand hy node (hsub node h), fun h => hshaped (h.operand hy)⟩

/-! ## (2) Values -/

variable [Scalar α]

/-- The product of entry `(r, c)` of a matrix with `cols` columns and component `c` of a vector. -/
def termValue (matrix vector : List α) (cols r c : Nat) : α :=
  matrix.getD (r * cols + c) Scalar.zero * vector.getD c Scalar.zero

/-- Row `r` of a matrix times a vector: the products added up from left to right. -/
def rowValue (matrix vector : List α) (cols r : Nat) : α :=
  (List.range' 1 (cols - 1)).foldl (fun sum c => sum + termValue matrix vector cols r c)
    (termValue matrix vector cols r 0)

mutual

/-- **The values of the components,** row by row, from those of the fields and of the derivatives of
basis functions. -/
def values (fields : String → List α) (derivs : String → List Nat → α) : Expr α → List α
  | const value => [value]
  | field name _ _ => fields name
  | binary op lhs rhs => List.zipWith op.apply (lhs.values fields derivs) (rhs.values fields derivs)
  | index vector position => [(vector.values fields derivs).getD position Scalar.zero]
  | entry matrix row col =>
    [(matrix.values fields derivs).getD (row * matrix.shape.cols + col) Scalar.zero]
  | slice vector positions =>
    positions.map fun k => (vector.values fields derivs).getD k Scalar.zero
  | matmul matrix vector => (List.range matrix.shape.rows).map fun r =>
    rowValue (matrix.values fields derivs) (vector.values fields derivs) matrix.shape.cols r
  | deriv basis orders => [derivs basis orders]
  | compose _ components => firstValues fields derivs components

/-- The first value of each of some expressions. -/
def firstValues (fields : String → List α) (derivs : String → List Nat → α) :
    List (Expr α) → List α
  | [] => []
  | e :: es => (e.values fields derivs).getD 0 Scalar.zero :: firstValues fields derivs es

end

/-- The first values one by one. -/
theorem firstValues_eq_map (fields : String → List α) (derivs : String → List Nat → α)
    (es : List (Expr α)) :
    firstValues fields derivs es = es.map fun e => (e.values fields derivs).getD 0 Scalar.zero := by
  induction es with
  | nil => simp [firstValues]
  | cons e es ih => rw [firstValues, ih, List.map_cons]

/-- **Values depend on what occurs in the expression only.** -/
theorem values_congr {fields fields' : String → List α} {derivs derivs' : String → List Nat → α}
    {e : Expr α}
    (hfields : ∀ name shape symmetric, .field name shape symmetric ∈ e.nodes →
      fields name = fields' name)
    (hderivs : ∀ basis orders, .deriv basis orders ∈ e.nodes →
      derivs basis orders = derivs' basis orders) :
    e.values fields derivs = e.values fields' derivs' := by
  induction e using structural_induction with
  | const c => simp only [values]
  | field name shape symmetric =>
    simp only [values]
    exact hfields name shape symmetric (by simp [nodes])
  | binary op lhs rhs hl hr =>
    simp only [nodes, List.mem_cons, List.mem_append] at hfields hderivs
    simp only [values]
    rw [hl (fun n s y h => hfields n s y (.inr (.inl h))) fun b o h => hderivs b o (.inr (.inl h)),
      hr (fun n s y h => hfields n s y (.inr (.inr h))) fun b o h => hderivs b o (.inr (.inr h))]
  | index vector k hv =>
    simp only [nodes, List.mem_cons] at hfields hderivs
    simp only [values]
    rw [hv (fun n s y h => hfields n s y (.inr h)) fun b o h => hderivs b o (.inr h)]
  | entry matrix i j hm =>
    simp only [nodes, List.mem_cons] at hfields hderivs
    simp only [values]
    rw [hm (fun n s y h => hfields n s y (.inr h)) fun b o h => hderivs b o (.inr h)]
  | slice vector ks hv =>
    simp only [nodes, List.mem_cons] at hfields hderivs
    simp only [values]
    rw [hv (fun n s y h => hfields n s y (.inr h)) fun b o h => hderivs b o (.inr h)]
  | matmul matrix vector hm hv =>
    simp only [nodes, List.mem_cons, List.mem_append] at hfields hderivs
    simp only [values]
    rw [hm (fun n s y h => hfields n s y (.inr (.inl h))) fun b o h => hderivs b o (.inr (.inl h)),
      hv (fun n s y h => hfields n s y (.inr (.inr h))) fun b o h => hderivs b o (.inr (.inr h))]
  | deriv basis orders =>
    simp only [values]
    rw [hderivs basis orders (by simp [nodes])]
  | compose shape components h =>
    simp only [nodes, List.mem_cons, nodesOfAll_eq_flatMap, List.mem_flatMap] at hfields hderivs
    simp only [values, firstValues_eq_map]
    refine List.map_congr_left fun x hx => ?_
    rw [h x hx (fun n s y hn => hfields n s y (.inr ⟨x, hx, hn⟩))
      fun b o hn => hderivs b o (.inr ⟨x, hx, hn⟩)]

/-- **A well-shaped expression has as many values as its shape says** if the fields that occur in it
do. -/
theorem length_values {fields : String → List α} {derivs : String → List Nat → α} {e : Expr α}
    (he : e.WellShaped)
    (hfields : ∀ name shape symmetric, .field name shape symmetric ∈ e.nodes →
      (fields name).length = shape.size) :
    (e.values fields derivs).length = e.shape.size := by
  induction e using structural_induction with
  | const c => simp only [values, shape, List.length_singleton, Shape.size_scalar]
  | field name shape symmetric =>
    simp only [values]
    exact hfields name shape symmetric (by simp [nodes])
  | binary op lhs rhs hl hr =>
    rw [WellShaped] at he
    simp only [nodes, List.mem_cons, List.mem_append] at hfields
    simp only [values, List.length_zipWith, shape]
    rw [hl he.1 fun n s y h => hfields n s y (.inr (.inl h)),
      hr he.2.1 fun n s y h => hfields n s y (.inr (.inr h)), he.2.2, Nat.min_self]
  | index vector k hv => simp only [values, shape, List.length_singleton, Shape.size_scalar]
  | entry matrix i j hm => simp only [values, shape, List.length_singleton, Shape.size_scalar]
  | slice vector ks hv => simp only [values, shape, List.length_map, Shape.size_vector]
  | matmul matrix vector hm hv =>
    simp only [values, shape, List.length_map, List.length_range, Shape.size_vector]
  | deriv basis orders => simp only [values, shape, List.length_singleton, Shape.size_scalar]
  | compose shape components h =>
    rw [WellShaped] at he
    simp only [values, firstValues_eq_map, List.length_map]
    exact he.2.1

end Expr

end Galerkin
