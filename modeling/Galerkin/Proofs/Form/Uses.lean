import Galerkin.Proofs.Expr.Values
import Galerkin.Proofs.Form.Meaning
import Galerkin.Proofs.Form.Runs

/-! # What an expression refers to

An expression refers to fields and to derivatives of basis functions at its leaves. If these are registered
fields, referred to as they are registered, and basis functions of the form, then the checks of a builder are
passed, and the references of the finished form match.

* **`Expr.Uses`** — an expression over some fields and basis functions, with a lemma for each operation;
* **`FormBuilder.checkReferences_of_uses`** — builders accept it;
* **`Form.Valid.matches_of_uses`** — the references match. -/

namespace Galerkin

variable {α : Type}

/-! ## (1) Fields and basis functions of an expression -/

namespace Expr

variable {d : Nat} {fs : List (FieldVariable α)} {bases : List String} {x y : Expr α}

/-- A node refers to one of some fields, with its shape and symmetry, or to a derivative of one of some basis
functions, with an order for each of `d` axes, if it refers to anything. -/
def UsesAt (d : Nat) (fs : List (FieldVariable α)) (bases : List String) : Expr α → Prop
  | .field name shape symmetric => ∃ f ∈ fs, name = f.name ∧ shape = f.shape ∧ symmetric = f.symmetric
  | .deriv basis orders => basis ∈ bases ∧ orders.length = d
  | _ => True

/-- **An expression over some fields and basis functions.** -/
def Uses (d : Nat) (fs : List (FieldVariable α)) (bases : List String) (e : Expr α) : Prop :=
  ∀ node ∈ e.nodes, node.UsesAt d fs bases

/-- What an expression refers to is seen operand by operand. -/
theorem uses_iff {e : Expr α} :
    e.Uses d fs bases ↔ e.UsesAt d fs bases ∧ ∀ x ∈ e.operands, x.Uses d fs bases := by
  unfold Uses
  rw [nodes_eq, List.forall_mem_cons]
  refine and_congr_right fun _ => ?_
  simp only [List.mem_flatMap]
  constructor
  · exact fun h x hx node hnode => h node ⟨x, hx, hnode⟩
  · rintro h node ⟨x, hx, hnode⟩
    exact h x hx node hnode

namespace Uses

/-- More fields and basis functions may be there. -/
theorem mono {fs' : List (FieldVariable α)} {bases' : List String} (hfs : fs ⊆ fs') (hbases : bases ⊆ bases')
    (hx : x.Uses d fs bases) : x.Uses d fs' bases' := by
  intro node hnode
  have h := hx node hnode
  cases node with
  | field name shape symmetric =>
    obtain ⟨f, hf, h⟩ := h
    exact ⟨f, hfs hf, h⟩
  | deriv basis orders => exact ⟨hbases h.1, h.2⟩
  | _ => exact h

/-- A field. -/
theorem field {f : FieldVariable α} (hf : f ∈ fs) :
    (Expr.field f.name f.shape f.symmetric).Uses d fs bases :=
  uses_iff.mpr ⟨⟨f, hf, rfl, rfl, rfl⟩, fun _ h => nomatch h⟩

/-- A derivative of a basis function. -/
theorem deriv {basis : String} (hbasis : basis ∈ bases) (orders : Nat → Nat) :
    (Expr.deriv basis (multiIndex d orders) : Expr α).Uses d fs bases :=
  uses_iff.mpr ⟨⟨hbasis, length_multiIndex d orders⟩, fun _ h => nomatch h⟩

/-- An operation on two values. -/
theorem binary {op : ArithOp} (hx : x.Uses d fs bases) (hy : y.Uses d fs bases) :
    (Expr.binary op x y).Uses d fs bases :=
  uses_iff.mpr ⟨trivial, List.forall_mem_cons.mpr ⟨hx, List.forall_mem_singleton.mpr hy⟩⟩

/-- A component of a vector. -/
theorem index {k : Nat} (hx : x.Uses d fs bases) : (Expr.index x k).Uses d fs bases :=
  uses_iff.mpr ⟨trivial, List.forall_mem_singleton.mpr hx⟩

/-- An entry of a matrix. -/
theorem entry {i j : Nat} (hx : x.Uses d fs bases) : (Expr.entry x i j).Uses d fs bases :=
  uses_iff.mpr ⟨trivial, List.forall_mem_singleton.mpr hx⟩

/-- Some components of a vector. -/
theorem slice {ks : List Nat} (hx : x.Uses d fs bases) : (Expr.slice x ks).Uses d fs bases :=
  uses_iff.mpr ⟨trivial, List.forall_mem_singleton.mpr hx⟩

/-- A matrix times a vector. -/
theorem matmul (hx : x.Uses d fs bases) (hy : y.Uses d fs bases) : (Expr.matmul x y).Uses d fs bases :=
  uses_iff.mpr ⟨trivial, List.forall_mem_cons.mpr ⟨hx, List.forall_mem_singleton.mpr hy⟩⟩

/-- A composed value. -/
theorem compose {shape : Shape} {es : List (Expr α)} (h : ∀ e ∈ es, e.Uses d fs bases) :
    (Expr.compose shape es).Uses d fs bases := uses_iff.mpr ⟨trivial, h⟩

/-- An inner product. -/
theorem innerSum (hx : x.Uses d fs bases) (hy : y.Uses d fs bases) (n : Nat) :
    (Operand.innerSum x y n).Uses d fs bases := by
  induction n with
  | zero => exact hx.index.binary hy.index
  | succ n ih => exact ih.binary (hx.index.binary hy.index)

/-- A parametric gradient. -/
theorem gradientOf {basis : String} (hbasis : basis ∈ bases) (orders : Nat → Nat) :
    (FormBuilder.gradientOf basis d orders : Expr α).Uses d fs bases := by
  refine compose fun e he => ?_
  obtain ⟨i, -, rfl⟩ := List.mem_map.mp he
  exact deriv hbasis _

/-- A physical gradient. -/
theorem physicalGradientOf {basis : String} {id : Nat} (hbasis : basis ∈ bases)
    (hjacobian : FormBuilder.jacobianVariable id d ∈ fs) (orders : Nat → Nat) :
    (FormBuilder.physicalGradientOf basis d orders : Expr α).Uses d fs bases :=
  matmul (field hjacobian) (gradientOf hbasis orders)

end Uses

end Expr

/-! ## (2) References that are accepted -/

namespace FormBuilder

variable {b : FormBuilder α}

/-- **Expressions over the registered fields** and known basis functions pass the check of references; where
only arrays may be referred to, these must be arrays, and there must be no basis function. -/
theorem checkReferences_of_uses {arraysOnly : Bool} {e : Expr α} {bases : List String}
    (hnodup : (b.fields.map (·.name)).Nodup) (he : e.Uses b.dim b.fields bases)
    (harrays : arraysOnly = true → bases = [] ∧ ∀ f ∈ b.fields, f.isArray = true)
    (hbases : ∀ basis ∈ bases, b.checkBasis basis = .ok ()) : b.checkReferences arraysOnly e = .ok () := by
  refine forM_eq_ok_iff.mpr fun node hnode => ?_
  have huses := he node hnode
  cases node with
  | field name shape symmetric =>
    obtain ⟨f, hf, rfl, -⟩ := huses
    have hfound : b.find? f.name = some f := find?_of_nodup hnodup hf
    simp only [checkNode, hfound, require_eq_ok_iff]
    cases arraysOnly with
    | false => rfl
    | true => exact (harrays rfl).2 f hf
  | deriv basis orders =>
    obtain ⟨hbasis, hlength⟩ := huses
    cases arraysOnly with
    | true =>
      rw [(harrays rfl).1] at hbasis
      cases hbasis
    | false =>
      rw [checkNode, hbases basis hbasis, hlength, beq_self_eq_true]
      rfl
  | _ => rfl

end FormBuilder

/-- **References to fields of a form match** if shape and symmetry are those of a field of that name. -/
theorem Form.Valid.matches_of_uses {form : Form α} (hform : form.Valid) {d : Nat} {bases : List String}
    {e : Expr α} (he : e.Uses d form.fields bases) : form.Matches e := by
  intro name shape symmetric hnode f hf hname
  obtain ⟨g, hg, hname', hshape, hsymmetric⟩ := he _ hnode
  obtain rfl := hform.eq_of_name hg hf (hname'.symm.trans hname.symm)
  exact ⟨hshape, hsymmetric⟩

end Galerkin
