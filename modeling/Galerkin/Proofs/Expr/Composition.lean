import Galerkin.Proofs.Expr.Operations
import Galerkin.Proofs.Expr.Values

/-! # Compositions of operations

What calls of building blocks and operations make, one after the other, has one of three kinds of shape at each
node, and every node fits its operands.

* **`Operand.wrapPosition_add`** — a position from the end is the position from the start;
* **`Shape.Made`** — the shapes of a scalar, of a vector and of a matrix;
* **`Expr.Composed`** — the expressions made by calls;
* **`Expr.composed_wellFormed`** — every node of such an expression is well formed, a call refuses exactly
  what breaks its rule, and positions count from the end. -/

namespace Galerkin

variable {α : Type}

/-! ## (1) Positions from the end -/

/-- The integers between two shifted bounds. -/
theorem integersFrom_add (first last shift : Int) :
    integersFrom (first + shift) (last + shift) = (integersFrom first last).map (· + shift) := by
  rw [integersFrom, integersFrom, List.map_map, Int.add_sub_add_right]
  refine List.map_congr_left fun k _ => ?_
  rw [Function.comp_apply]
  omega

namespace Operand

variable {operation : String} {length : Nat} {k : Int} {x : Expr α}

/-- A position from the end is the position from the start. -/
theorem wrapPosition_add (hlow : -(length : Int) ≤ k) (hneg : k < 0) :
    wrapPosition operation length (k + length) = wrapPosition operation length k := by
  have hsame : wrapped length (k + length) = wrapped length k := by
    unfold wrapped
    split <;> omega
  have hk : InRange length k := ⟨hlow, by omega⟩
  have hsum : InRange length (k + length) := ⟨by omega, by omega⟩
  rw [wrapPosition_checked.ok trivial hk, wrapPosition_checked.ok trivial hsum, hsame]

/-- **A component at a position from the end.** -/
theorem index_add (hlow : -(x.shape.rows : Int) ≤ k) (hneg : k < 0) :
    index (some x) (k + x.shape.rows) = index (some x) k := by
  rw [index, index, getVector_bind, getVector_bind, wrapPosition_add hlow hneg]

/-- **An entry in a row from the end.** -/
theorem entry_add_row {j : Int} (hlow : -(x.shape.rows : Int) ≤ k) (hneg : k < 0) :
    entry (some x) (k + x.shape.rows) j = entry (some x) k j := by
  simp only [entry, get, Bind.bind, Except.bind, wrapPosition_add hlow hneg]

/-- **An entry in a column from the end.** -/
theorem entry_add_col {i : Int} (hlow : -(x.shape.cols : Int) ≤ k) (hneg : k < 0) :
    entry (some x) i (k + x.shape.cols) = entry (some x) i k := by
  simp only [entry, get, Bind.bind, Except.bind, wrapPosition_add hlow hneg]

/-- Slices at positions that mean the same. -/
theorem slice_congr {ks ks' : List Int} (hempty : ks.isEmpty = ks'.isEmpty)
    (h : ks.mapM (wrapPosition "slice" x.shape.rows) = ks'.mapM (wrapPosition "slice" x.shape.rows)) :
    slice (some x) ks = slice (some x) ks' := by
  rw [slice, slice, getVector_bind, getVector_bind, hempty, h]

/-- **A slice with one of its positions from the end.** -/
theorem slice_add (before after : List Int) (hlow : -(x.shape.rows : Int) ≤ k) (hneg : k < 0) :
    slice (some x) (before ++ (k + x.shape.rows) :: after) = slice (some x) (before ++ k :: after) := by
  refine slice_congr ?_ ?_
  · cases before <;> rfl
  · rw [List.mapM_append, List.mapM_append, List.mapM_cons, List.mapM_cons, wrapPosition_add hlow hneg]

/-- **A range of positions from the end.** -/
theorem sliceRange_add {first last : Int} (hlow : -(x.shape.rows : Int) ≤ first) (hhigh : last ≤ 0) :
    sliceRange (some x) (first + x.shape.rows) (last + x.shape.rows) = sliceRange (some x) first last := by
  show slice (some x) (integersFrom _ _) = slice (some x) (integersFrom first last)
  rw [integersFrom_add]
  refine slice_congr List.isEmpty_map ?_
  rw [List.mapM_map]
  refine mapM_congr fun k hk => ?_
  obtain ⟨hfirst, hlast⟩ := mem_integersFrom.mp hk
  exact wrapPosition_add (by omega) (by omega)

end Operand

/-! ## (2) The three kinds of shape -/

/-- **The shapes that a scalar, a vector and a matrix have.** -/
def Shape.Made (s : Shape) : Prop := s = .scalar ∨ (∃ n, s = .vector n) ∨ ∃ rows cols, s = .matrix rows cols

/-- The extents are those of a scalar, of a column or of a matrix, and none is zero. -/
structure Shape.Canonical (s : Shape) : Prop where
  made : s.Made
  rows_pos : 0 < s.rows
  cols_pos : 0 < s.cols

namespace Shape.Made

variable {s : Shape} (h : s.Made)

include h

/-- The only scalar. -/
theorem eq_scalar (hs : s.isScalar = true) : s = .scalar := by
  rcases h with rfl | ⟨n, rfl⟩ | ⟨r, c, rfl⟩
  · rfl
  · cases hs
  · cases hs

/-- A vector has one column. -/
theorem eq_vector (hs : s.isVector = true) : s = .vector s.rows := by
  rcases h with rfl | ⟨n, rfl⟩ | ⟨r, c, rfl⟩
  · cases hs
  · rfl
  · cases hs

/-- A matrix is given by its extents. -/
theorem eq_matrix (hs : s.isMatrix = true) : s = .matrix s.rows s.cols := by
  rcases h with rfl | ⟨n, rfl⟩ | ⟨r, c, rfl⟩
  · cases hs
  · cases hs
  · rfl

end Shape.Made

namespace Expr

/-- The shape of a declared field is one of the three. -/
def Call.DeclaresMade : Call α → Prop
  | .field _ shape _ => shape.Made
  | _ => True

/-! ## (3) Expressions made by calls -/

/-- **A finite composition of calls.** -/
inductive Composed : Expr α → Prop
  | call (c : Call α) {e : Expr α} (made : c.DeclaresMade) (operands : ∀ x ∈ c.operands, Composed x)
      (h : c.run = .ok e) : Composed e

/-- A finite composition is made by the operations, where a range of positions is a slice. -/
theorem Composed.built {e : Expr α} (h : e.Composed) : e.Built := by
  induction h with
  | call c made operands h ih =>
    have hsome {es : List (Expr α)} (hes : ∀ x ∈ es, x.Built) :
        ∀ o ∈ es.map some, ∀ x, o = some x → x.Built := by
      rintro o ho x rfl
      exact hes x (by simpa using ho)
    cases c with
    | const value => exact Except.ok.inj h ▸ .const value
    | field name shape symmetric => exact .field h
    | deriv basis orders => exact .deriv h
    | vector components => exact .vector (hsome ih) h
    | matrix rows cols components => exact .matrix (hsome ih) h
    | arith op lhs rhs => exact .arith (ih lhs (by simp [Call.operands])) (ih rhs (by simp [Call.operands])) h
    | index x position => exact .index (ih x (by simp [Call.operands])) h
    | entry m row col => exact .entry (ih m (by simp [Call.operands])) h
    | slice x positions => exact .slice (ih x (by simp [Call.operands])) h
    | range x first last => exact .slice (ih x (by simp [Call.operands])) h
    | matmul m x => exact .matmul (ih m (by simp [Call.operands])) (ih x (by simp [Call.operands])) h
    | inner x y => exact .inner (ih x (by simp [Call.operands])) (ih y (by simp [Call.operands])) h

/-- What holds of all nodes holds of the expression and of all nodes of its operands. -/
theorem forall_nodes_iff {P : Expr α → Prop} {e : Expr α} :
    (∀ node ∈ e.nodes, P node) ↔ P e ∧ ∀ x ∈ e.operands, ∀ node ∈ x.nodes, P node := by
  simp only [nodes_eq e, List.forall_mem_cons, List.mem_flatMap]
  exact and_congr_right fun _ => ⟨fun h x hx node hnode => h node ⟨x, hx, hnode⟩,
    fun h node ⟨x, hx, hnode⟩ => h x hx node hnode⟩

/-- A sum of products adds only scalars to the nodes of the two vectors. -/
theorem forall_nodes_innerSum {P : Expr α → Prop} {x y : Expr α} (hscalar : ∀ e : Expr α, e.shape = .scalar → P e)
    (hx : ∀ node ∈ x.nodes, P node) (hy : ∀ node ∈ y.nodes, P node) (n : Nat) :
    ∀ node ∈ (Operand.innerSum x y n).nodes, P node := by
  have hcomponent {z : Expr α} (hz : ∀ node ∈ z.nodes, P node) (k : Nat) : ∀ node ∈ (Expr.index z k).nodes, P node :=
    forall_nodes_iff.mpr ⟨hscalar _ rfl, List.forall_mem_singleton.mpr hz⟩
  have hproduct (k : Nat) : ∀ node ∈ (Operand.componentProduct x y k).nodes, P node :=
    forall_nodes_iff.mpr ⟨hscalar _ rfl, List.forall_mem_cons.mpr ⟨hcomponent hx k,
      List.forall_mem_singleton.mpr (hcomponent hy k)⟩⟩
  induction n with
  | zero => exact hproduct 0
  | succ n ih =>
    rw [Operand.innerSum, forall_nodes_iff, operands, List.forall_mem_cons, List.forall_mem_singleton]
    exact ⟨hscalar _ (Operand.shape_innerSum x y n), ih, hproduct (n + 1)⟩

/-- **A call keeps to the three kinds of shape.** -/
theorem Call.made_nodes {c : Call α} (made : c.DeclaresMade)
    (h : ∀ x ∈ c.operands, ∀ node ∈ x.nodes, node.shape.Made) : ∀ node ∈ c.result.nodes, node.shape.Made := by
  have hscalar : Shape.scalar.Made := .inl rfl
  have hvector (n : Nat) : (Shape.vector n).Made := .inr (.inl ⟨n, rfl⟩)
  cases c with
  | const value => exact forall_nodes_iff.mpr ⟨hscalar, h⟩
  | field name shape symmetric => exact forall_nodes_iff.mpr ⟨made, h⟩
  | deriv basis orders => exact forall_nodes_iff.mpr ⟨hscalar, h⟩
  | vector components => exact forall_nodes_iff.mpr ⟨hvector _, h⟩
  | matrix rows cols components => exact forall_nodes_iff.mpr ⟨.inr (.inr ⟨rows, cols, rfl⟩), h⟩
  | arith op lhs rhs =>
    -- The only shape that is taken over from an operand.
    exact forall_nodes_iff.mpr ⟨h lhs (List.mem_cons_self ..) lhs (mem_nodes_self lhs), h⟩
  | index x position => exact forall_nodes_iff.mpr ⟨hscalar, h⟩
  | entry m row col => exact forall_nodes_iff.mpr ⟨hscalar, h⟩
  | slice x positions => exact forall_nodes_iff.mpr ⟨hvector _, h⟩
  | range x first last => exact forall_nodes_iff.mpr ⟨hvector _, h⟩
  | matmul m x => exact forall_nodes_iff.mpr ⟨hvector _, h⟩
  | inner x y =>
    obtain ⟨hx, hy⟩ := List.forall_mem_cons.mp h
    refine forall_nodes_innerSum (fun e he => ?_) hx (hy y (List.mem_cons_self ..)) _
    rw [he]
    exact hscalar

/-- **Each node of a finite composition has one of the three kinds of shape.** -/
theorem Composed.made_nodes {e : Expr α} (h : e.Composed) : ∀ node ∈ e.nodes, node.shape.Made := by
  induction h with
  | call c made operands h ih =>
    -- The call has succeeded, so the expression is its result.
    obtain ⟨-, -, rfl⟩ := c.checked.of_ok h
    exact Call.made_nodes made ih

/-! ## (4) Nodes that fit their operands -/

/-- **What a node promises,** in terms of its operands and its own shape. Orders and positions are counted
from zero. -/
def Proper : Expr α → Prop
  | const _ => True
  | field _ shape symmetric => symmetric = true → ∃ n, shape = .matrix n n
  | binary op lhs rhs => lhs.shape = (binary op lhs rhs).shape ∧ rhs.shape = (binary op lhs rhs).shape
  | index x position => ∃ n, x.shape = .vector n ∧ position < n
  | entry m row col => ∃ rows cols, m.shape = .matrix rows cols ∧ row < rows ∧ col < cols
  | slice x positions => positions ≠ [] ∧ ∃ n, x.shape = .vector n ∧ ∀ k ∈ positions, k < n
  | matmul m x => ∃ rows cols, m.shape = .matrix rows cols ∧ x.shape = .vector cols ∧
      (matmul m x).shape = .vector rows
  | deriv _ orders => orders ≠ []
  | compose shape components => components.length = shape.size ∧ ∀ e ∈ components, e.shape = .scalar

/-- **A well-shaped expression is proper** if its operands have one of the three kinds of shape. -/
theorem WellShaped.proper {e : Expr α} (h : e.WellShaped) (hmade : e.shape.Made)
    (hoperands : ∀ x ∈ e.operands, x.shape.Made) : e.Proper := by
  cases e with
  | const value => trivial
  | field name shape symmetric =>
    rw [WellShaped] at h
    intro hs
    obtain ⟨hmatrix, hsquare⟩ := h.square hs
    have hshape : shape = .matrix shape.rows shape.cols := hmade.eq_matrix hmatrix
    rw [← hsquare] at hshape
    exact ⟨_, hshape⟩
  | binary op lhs rhs =>
    rw [WellShaped] at h
    exact ⟨rfl, h.2.2.symm⟩
  | index x position =>
    rw [WellShaped] at h
    exact ⟨_, (hoperands x (List.mem_cons_self ..)).eq_vector h.2.1, h.2.2⟩
  | entry m row col =>
    rw [WellShaped] at h
    exact ⟨_, _, (hoperands m (List.mem_cons_self ..)).eq_matrix h.2.1, h.2.2⟩
  | slice x positions =>
    rw [WellShaped] at h
    exact ⟨h.2.2.1, _, (hoperands x (List.mem_cons_self ..)).eq_vector h.2.1, h.2.2.2⟩
  | matmul m x =>
    rw [WellShaped] at h
    obtain ⟨-, -, hmatrix, hvector, hinner⟩ := h
    refine ⟨_, _, (hoperands m (List.mem_cons_self ..)).eq_matrix hmatrix, ?_, rfl⟩
    rw [hinner]
    exact (hoperands x (List.mem_cons_of_mem _ (List.mem_cons_self ..))).eq_vector hvector
  | deriv basis orders =>
    rw [WellShaped] at h
    exact h
  | compose shape components =>
    rw [WellShaped, allScalars_iff] at h
    exact ⟨h.2.1, fun x hx => (hoperands x hx).eq_scalar (h.1 x hx).2⟩

/-- **Every node of a finite composition has a canonical shape and fits its operands.** -/
theorem Composed.nodes_wellFormed {e : Expr α} (h : e.Composed) :
    ∀ node ∈ e.nodes, node.shape.Canonical ∧ node.Proper := by
  intro node hnode
  -- A node is well shaped with the expression, and its operands are nodes as well.
  obtain ⟨hsub, hshaped⟩ := nodes_subset hnode
  have hnodeShaped : node.WellShaped := hshaped h.built.wellShaped
  have hmade := h.made_nodes
  have hoperands (x : Expr α) (hx : x ∈ node.operands) : x.shape.Made :=
    hmade x (hsub x (nodes_of_operand hx x (mem_nodes_self x)))
  exact ⟨⟨hmade node hnode, hnodeShaped.shape_pos.1, hnodeShaped.shape_pos.2⟩,
    hnodeShaped.proper (hmade node hnode) hoperands⟩

/-- The orders of a derivative are kept as they are given. -/
theorem Call.deriv_run_eq_ok {basis : String} {orders : List Int} {e : Expr α}
    (h : (Call.deriv basis orders).run = .ok e) :
    ∃ ks, e = .deriv basis ks ∧ ks ≠ [] ∧ ks.map Int.ofNat = orders := by
  obtain ⟨⟨-, hne, hnonneg⟩, -, rfl⟩ := (Call.checked _).of_ok h
  have hback : orders.map (Int.ofNat ∘ Int.toNat) = orders.map id :=
    List.map_congr_left fun d hd => Int.toNat_of_nonneg (hnonneg d hd)
  refine ⟨orders.map Int.toNat, rfl, mt List.map_eq_nil_iff.mp hne, ?_⟩
  rw [List.map_map, hback, List.map_id]

/-- **Expressions are well formed by construction.** Every node of a finite composition of calls has a canonical
shape and fits its operands. A call makes its result exactly if its arguments are admissible and its rule holds;
it is refused as a mismatch of shapes exactly if the rule alone is broken, and orders are never changed. A position
`k` from the end of a vector or matrix, in any place of an operation, means what `k` plus the extent means. -/
theorem composed_wellFormed :
    (∀ e : Expr α, e.Composed → ∀ node ∈ e.nodes, node.shape.Canonical ∧ node.Proper) ∧
    (∀ c : Call α,
      (c.Admissible ∧ c.Fits → c.run = .ok c.result) ∧
      (FailsWith .shapeMismatch c.run ↔ c.Admissible ∧ ¬c.Fits) ∧
      (FailsWith .invalidArgument c.run ↔ ¬c.Admissible)) ∧
    (∀ (basis : String) (orders : List Int) (e : Expr α), (Call.deriv basis orders).run = .ok e →
      ∃ ks, e = .deriv basis ks ∧ ks ≠ [] ∧ ks.map Int.ofNat = orders) ∧
    (∀ (x : Expr α) (k : Int), -(x.shape.rows : Int) ≤ k → k < 0 →
      (Call.index x k).run = (Call.index x (k + x.shape.rows)).run ∧
      (∀ j, (Call.entry x k j).run = (Call.entry x (k + x.shape.rows) j).run) ∧
      (∀ before after, (Call.slice x (before ++ k :: after)).run =
        (Call.slice x (before ++ (k + x.shape.rows) :: after)).run) ∧
      ∀ last ≤ 0, (Call.range x k last).run = (Call.range x (k + x.shape.rows) (last + x.shape.rows)).run) ∧
    ∀ (x : Expr α) (k i : Int), -(x.shape.cols : Int) ≤ k → k < 0 →
      (Call.entry x i k).run = (Call.entry x i (k + x.shape.cols)).run := by
  refine ⟨fun e he => he.nodes_wellFormed, fun c => c.checked.outcome,
    fun basis orders e h => Call.deriv_run_eq_ok h, fun x k hlow hneg => ⟨?_, ?_, ?_, ?_⟩, ?_⟩
  · exact (Operand.index_add hlow hneg).symm
  · exact fun j => (Operand.entry_add_row hlow hneg).symm
  · exact fun before after => (Operand.slice_add before after hlow hneg).symm
  · exact fun last hlast => (Operand.sliceRange_add hlow hlast).symm
  · exact fun x k i hlow hneg => (Operand.entry_add_col hlow hneg).symm

/-- The inner product of `M . g` and the last and first component of `g`, for a matrix `M` with two rows, is
composed of calls; `g` itself is too long for it, and its last component has two names. -/
theorem composed_wellFormed_innerProduct :
    let g : Expr Int := .field "g" (.vector 3) false
    let m : Expr Int := .field "M" (.matrix 2 3) false
    let product := Operand.innerSum (.matmul m g) (.slice g [2, 0]) 1
    product.Composed ∧ (∀ node ∈ product.nodes, node.shape.Canonical ∧ node.Proper) ∧
      FailsWith .shapeMismatch (Call.inner (.matmul m g) g).run ∧
      (Call.index g (-1)).run = (Call.index g 2).run := by
  intro g m product
  obtain ⟨hnodes, hcalls, -, hwrap, -⟩ := composed_wellFormed (α := Int)
  have hg : g.Composed := .call (.field "g" (.vector 3) false) (.inr (.inl ⟨3, rfl⟩)) nofun rfl
  have hm : m.Composed := .call (.field "M" (.matrix 2 3) false) (.inr (.inr ⟨2, 3, rfl⟩)) nofun rfl
  have hmul : (matmul m g).Composed := .call (.matmul m g) trivial (by simp [Call.operands, hm, hg]) rfl
  have hslice : (slice g [2, 0]).Composed :=
    .call (.slice g [-1, 0]) trivial (by simp [Call.operands, hg]) rfl
  have hproduct : product.Composed :=
    .call (.inner (.matmul m g) (.slice g [2, 0])) trivial (by simp [Call.operands, hmul, hslice]) rfl
  refine ⟨hproduct, hnodes product hproduct, (hcalls _).2.1.mpr ⟨trivial, ?_⟩, ?_⟩
  · rintro ⟨-, hlengths⟩
    cases hlengths
  · exact (hwrap g (-1) (by decide) (by decide)).1

end Expr

end Galerkin
