import Galerkin.Proofs.Expr.Calls

/-! # Expressions that the operations make

The operations check the shapes of their operands once, where an expression is made. What they check
is then a property of the whole expression, subexpressions included.

* **`Expr.WellShaped`** — every operation in an expression has operands of fitting shapes;
* **`Expr.Built`** — the expressions that the operations make from nothing;
* **`Expr.Call.wellShaped`** — a call of well-shaped operands makes a well-shaped expression;
* **`Expr.Built.wellShaped`** — expressions that the operations make are well shaped. -/

namespace Galerkin

variable {α : Type}

/-- A shape with at least one component; only a square matrix can be symmetric. -/
structure Shape.Declarable (s : Shape) (symmetric : Bool) : Prop where
  rows_pos : 0 < s.rows
  cols_pos : 0 < s.cols
  square : symmetric = true → s.isMatrix = true ∧ s.rows = s.cols

/-- A declarable shape has a first component. -/
theorem Shape.Declarable.size_pos {s : Shape} {symmetric : Bool} (h : s.Declarable symmetric) :
    0 < s.size := Nat.mul_pos h.rows_pos h.cols_pos

/-- The position of an entry, row by row. -/
theorem Shape.entry_lt_size {s : Shape} {i j : Nat} (hi : i < s.rows) (hj : j < s.cols) :
    i * s.cols + j < s.size :=
  calc i * s.cols + j < i * s.cols + s.cols := Nat.add_lt_add_left hj _
    _ = (i + 1) * s.cols := (Nat.succ_mul i s.cols).symm
    _ ≤ s.size := Nat.mul_le_mul_right _ hi

namespace Expr

/-! ## (1) Well-shaped expressions -/

mutual

/-- **Every operation has operands of fitting shapes.** -/
def WellShaped : Expr α → Prop
  | const _ => True
  | field _ shape symmetric => shape.Declarable symmetric
  | binary _ lhs rhs => lhs.WellShaped ∧ rhs.WellShaped ∧ lhs.shape = rhs.shape
  | index vector position =>
    vector.WellShaped ∧ vector.shape.isVector = true ∧ position < vector.shape.rows
  | entry matrix row col =>
    matrix.WellShaped ∧ matrix.shape.isMatrix = true ∧ row < matrix.shape.rows ∧
      col < matrix.shape.cols
  | slice vector positions =>
    vector.WellShaped ∧ vector.shape.isVector = true ∧ positions ≠ [] ∧
      ∀ k ∈ positions, k < vector.shape.rows
  | matmul matrix vector =>
    matrix.WellShaped ∧ vector.WellShaped ∧ matrix.shape.isMatrix = true ∧
      vector.shape.isVector = true ∧ matrix.shape.cols = vector.shape.rows
  | deriv _ orders => orders ≠ []
  | compose shape components =>
    AllScalars components ∧ components.length = shape.size ∧ shape.Declarable false

/-- The expressions are well-shaped scalars. -/
def AllScalars : List (Expr α) → Prop
  | [] => True
  | e :: es => e.WellShaped ∧ e.shape.isScalar = true ∧ AllScalars es

end

/-- Well-shaped scalars one by one. -/
theorem allScalars_iff {es : List (Expr α)} :
    AllScalars es ↔ ∀ e ∈ es, e.WellShaped ∧ e.shape.isScalar = true := by
  induction es with
  | nil => simp [AllScalars]
  | cons e es ih => simp only [AllScalars, List.forall_mem_cons, ih, and_assoc]

/-- **A well-shaped expression has at least one component.** -/
theorem WellShaped.shape_pos : ∀ {e : Expr α}, e.WellShaped → 0 < e.shape.rows ∧ 0 < e.shape.cols
  | const _, _ => ⟨Nat.one_pos, Nat.one_pos⟩
  | field _ _ _, h => by
    rw [WellShaped] at h
    exact ⟨h.rows_pos, h.cols_pos⟩
  | binary _ lhs _, h => by
    rw [WellShaped] at h
    exact shape_pos (e := lhs) h.1
  | index _ _, _ => ⟨Nat.one_pos, Nat.one_pos⟩
  | entry _ _ _, _ => ⟨Nat.one_pos, Nat.one_pos⟩
  | slice _ _, h => by
    rw [WellShaped] at h
    exact ⟨List.length_pos_iff.mpr h.2.2.1, Nat.one_pos⟩
  | matmul matrix _, h => by
    rw [WellShaped] at h
    exact ⟨(shape_pos (e := matrix) h.1).1, Nat.one_pos⟩
  | deriv _ _, _ => ⟨Nat.one_pos, Nat.one_pos⟩
  | compose _ _, h => by
    rw [WellShaped] at h
    exact ⟨h.2.2.rows_pos, h.2.2.cols_pos⟩

/-- A well-shaped expression has a first component. -/
theorem WellShaped.size_pos {e : Expr α} (h : e.WellShaped) : 0 < e.shape.size :=
  Nat.mul_pos h.shape_pos.1 h.shape_pos.2

/-- Every row has a component at its position. -/
theorem WellShaped.lt_size {e : Expr α} (h : e.WellShaped) {k : Nat} (hk : k < e.shape.rows) :
    k < e.shape.size := Nat.lt_of_lt_of_le hk (Nat.le_mul_of_pos_right _ h.shape_pos.2)

/-- The declared shape of a value that is computed without symmetry. -/
theorem WellShaped.declarable {e : Expr α} (h : e.WellShaped) : e.shape.Declarable false :=
  ⟨h.shape_pos.1, h.shape_pos.2, fun h => nomatch h⟩

/-! ## (2) Expressions made by operations -/

/-- **An expression that the operations make.** Operands are expressions made before; what an operation
refuses is no expression. -/
inductive Built : Expr α → Prop
  | const (value : α) : Built (.const value)
  | field {name : String} {shape : Shape} {symmetric : Bool} {e : Expr α}
      (h : ofField name shape symmetric = .ok e) : Built e
  | deriv {basis : String} {orders : List Int} {e : Expr α} (h : ofDeriv basis orders = .ok e) :
      Built e
  | vector {components : List (Operand α)} {e : Expr α}
      (operands : ∀ o ∈ components, ∀ x, o = some x → Built x)
      (h : ofVector components = .ok e) : Built e
  | matrix {rows cols : Nat} {components : List (Operand α)} {e : Expr α}
      (operands : ∀ o ∈ components, ∀ x, o = some x → Built x)
      (h : ofMatrix rows cols components = .ok e) : Built e
  | arith {op : ArithOp} {x y e : Expr α} (hx : Built x) (hy : Built y)
      (h : Operand.arith op (some x) (some y) = .ok e) : Built e
  | index {x e : Expr α} {k : Int} (hx : Built x) (h : Operand.index (some x) k = .ok e) : Built e
  | entry {x e : Expr α} {i j : Int} (hx : Built x) (h : Operand.entry (some x) i j = .ok e) :
      Built e
  | slice {x e : Expr α} {positions : List Int} (hx : Built x)
      (h : Operand.slice (some x) positions = .ok e) : Built e
  | matmul {x y e : Expr α} (hx : Built x) (hy : Built y)
      (h : Operand.matmul (some x) (some y) = .ok e) : Built e
  | inner {x y e : Expr α} (hx : Built x) (hy : Built y)
      (h : Operand.inner (some x) (some y) = .ok e) : Built e

end Expr

/-- An operand that is missing or that the operations make. -/
def Operand.Built (o : Operand α) : Prop := ∀ e, o = some e → e.Built

/-! ## (3) What they make is well shaped -/

namespace Expr

/-- A sum of products of components is a well-shaped scalar. -/
theorem wellShaped_innerSum {x y : Expr α} (hx : x.WellShaped) (hy : y.WellShaped)
    (hvx : x.shape.isVector = true) (hvy : y.shape.isVector = true)
    (hlen : x.shape.rows = y.shape.rows) {n : Nat} (hn : n < x.shape.rows) :
    (Operand.innerSum x y n).WellShaped ∧ (Operand.innerSum x y n).shape = .scalar := by
  have hproduct : ∀ k < x.shape.rows, (Operand.componentProduct x y k).WellShaped := by
    intro k hk
    simp only [Operand.componentProduct, WellShaped]
    exact ⟨⟨hx, hvx, hk⟩, ⟨hy, hvy, hlen ▸ hk⟩, rfl⟩
  induction n with
  | zero => exact ⟨hproduct 0 hn, rfl⟩
  | succ n ih =>
    obtain ⟨hsum, hshape⟩ := ih (Nat.lt_of_succ_lt hn)
    simp only [Operand.innerSum, WellShaped]
    exact ⟨⟨hsum, hproduct (n + 1) hn, hshape⟩, hshape⟩

/-- A slice of a vector at positions in range. -/
theorem wellShaped_slice {x : Expr α} {ks : List Int} (hx : x.WellShaped) (hvector : x.shape.isVector = true)
    (hne : ks ≠ []) (hks : ∀ k ∈ ks, InRange x.shape.rows k) :
    (slice x (ks.map (wrapped x.shape.rows))).WellShaped := by
  rw [WellShaped, List.forall_mem_map]
  exact ⟨hx, hvector, mt List.map_eq_nil_iff.mp hne, fun k hk => wrapped_lt (hks k hk)⟩

/-- **What a call makes is well shaped** if its operands are. -/
theorem Call.wellShaped_result {c : Call α} (ha : c.Admissible) (hf : c.Fits)
    (h : ∀ x ∈ c.operands, x.WellShaped) : c.result.WellShaped := by
  cases c with
  | const value => trivial
  | field name shape symmetric =>
    rw [result, WellShaped]
    exact ⟨ha.2.1, ha.2.2, hf⟩
  | deriv basis orders =>
    rw [result, WellShaped]
    exact mt List.map_eq_nil_iff.mp ha.2.1
  | vector components =>
    rw [result, WellShaped, allScalars_iff, Shape.size_vector]
    exact ⟨fun e he => ⟨h e he, hf e he⟩, rfl, List.length_pos_iff.mpr ha, Nat.one_pos, nofun⟩
  | matrix rows cols components =>
    rw [result, WellShaped, allScalars_iff, Shape.size_matrix]
    exact ⟨fun e he => ⟨h e he, hf.2 e he⟩, hf.1, ha.1, ha.2, nofun⟩
  | arith op lhs rhs =>
    obtain ⟨hlhs, hrhs⟩ : lhs.WellShaped ∧ rhs.WellShaped := by simpa [operands] using h
    rw [result, WellShaped]
    exact ⟨hlhs, hrhs, hf⟩
  | index x position =>
    rw [result, WellShaped]
    exact ⟨List.forall_mem_singleton.mp h, hf.1, wrapped_lt hf.2⟩
  | entry m row col =>
    rw [result, WellShaped]
    exact ⟨List.forall_mem_singleton.mp h, hf.1, wrapped_lt hf.2.1, wrapped_lt hf.2.2⟩
  | slice x positions => exact wellShaped_slice (List.forall_mem_singleton.mp h) hf.1 hf.2.1 hf.2.2
  | range x first last =>
    exact wellShaped_slice (List.forall_mem_singleton.mp h) hf.1 (integersFrom_ne_nil_iff.mpr hf.2.1)
      ((forall_integersFrom_inRange hf.2.1).mpr hf.2.2)
  | matmul m x =>
    obtain ⟨hm, hx⟩ : m.WellShaped ∧ x.WellShaped := by simpa [operands] using h
    rw [result, WellShaped]
    exact ⟨hm, hx, hf⟩
  | inner x y =>
    obtain ⟨hx, hy⟩ : x.WellShaped ∧ y.WellShaped := by simpa [operands] using h
    exact (wellShaped_innerSum hx hy hf.1.1 hf.1.2 hf.2 (Nat.sub_one_lt_of_lt hx.shape_pos.1)).1

/-- **A call of well-shaped operands** makes a well-shaped expression, if any. -/
theorem Call.wellShaped {c : Call α} {e : Expr α} (h : c.run = .ok e) (hoperands : ∀ x ∈ c.operands, x.WellShaped) :
    e.WellShaped := by
  obtain ⟨ha, hf, rfl⟩ := c.checked.of_ok h
  exact wellShaped_result ha hf hoperands

/-- The operands of a composed value are present. -/
theorem scalars_eq_ok {operation : String} {refusal : Shape → ExprError} {operands : List (Operand α)}
    {es : List (Expr α)} (h : scalars operation refusal operands = .ok es) : operands = es.map some := by
  have hpresent : ∀ (o : Operand α) (e : Expr α),
      (do let e ← o.get operation
          require e.shape.isScalar (.expr (refusal e.shape))
          pure e) = .ok e → o = some e := by
    intro o e ho
    cases o with
    | none => cases ho
    | some x => exact congrArg some (Except.ok.inj (require_bind_eq_ok_iff.mp ho).2)
  have hall : List.Forall₂ (· = ·) operands (es.map some) :=
    List.forall₂_map_right_iff.mpr ((mapM_eq_ok_iff.mp h).imp hpresent)
  rwa [List.forall₂_eq_eq_eq] at hall

/-- A vector is composed of expressions. -/
theorem ofVector_eq_ok {components : List (Operand α)} {e : Expr α} (h : ofVector components = .ok e) :
    ∃ es : List (Expr α), components = es.map some := by
  obtain ⟨-, h⟩ := require_bind_eq_ok_iff.mp h
  obtain ⟨es, hes, -⟩ := bind_eq_ok_iff.mp h
  exact ⟨es, scalars_eq_ok hes⟩

/-- A matrix is composed of expressions. -/
theorem ofMatrix_eq_ok {rows cols : Nat} {components : List (Operand α)} {e : Expr α}
    (h : ofMatrix rows cols components = .ok e) : ∃ es : List (Expr α), components = es.map some := by
  obtain ⟨-, h⟩ := require_bind_eq_ok_iff.mp h
  obtain ⟨-, h⟩ := require_bind_eq_ok_iff.mp h
  obtain ⟨es, hes, -⟩ := bind_eq_ok_iff.mp h
  exact ⟨es, scalars_eq_ok hes⟩

/-- **Expressions that the operations make are well shaped.** -/
theorem Built.wellShaped {e : Expr α} (h : e.Built) : e.WellShaped := by
  induction h with
  | const value => trivial
  | field h => exact Call.wellShaped (c := .field _ _ _) h nofun
  | deriv h => exact Call.wellShaped (c := .deriv _ _) h nofun
  | vector operands h ih =>
    obtain ⟨es, rfl⟩ := ofVector_eq_ok h
    exact Call.wellShaped (c := .vector es) h fun e he => ih (some e) (List.mem_map_of_mem he) e rfl
  | matrix operands h ih =>
    obtain ⟨es, rfl⟩ := ofMatrix_eq_ok h
    exact Call.wellShaped (c := .matrix _ _ es) h fun e he => ih (some e) (List.mem_map_of_mem he) e rfl
  | arith _ _ h hx hy => exact Call.wellShaped (c := .arith _ _ _) h (by simp [Call.operands, hx, hy])
  | index _ h hx => exact Call.wellShaped (c := .index _ _) h (by simpa [Call.operands] using hx)
  | entry _ h hx => exact Call.wellShaped (c := .entry _ _ _) h (by simpa [Call.operands] using hx)
  | slice _ h hx => exact Call.wellShaped (c := .slice _ _) h (by simpa [Call.operands] using hx)
  | matmul _ _ h hx hy => exact Call.wellShaped (c := .matmul _ _) h (by simp [Call.operands, hx, hy])
  | inner _ _ h hx hy => exact Call.wellShaped (c := .inner _ _) h (by simp [Call.operands, hx, hy])

end Expr

end Galerkin
