import Galerkin.Proofs.Expr.Construction

/-! # Operations that succeed

What a call makes is known once its rule holds. Here are the operations on operands that keep to it, in the form in
which they are used.

* **`Operand.arith_ok`**, **`Operand.index_ok`**, **`Operand.entry_ok`**, **`Operand.sliceRange_ok`**,
  **`Operand.matmul_ok`**, **`Operand.inner_ok`** — operations;
* **`Expr.ofField_ok`**, **`Expr.ofDeriv_ok`**, **`Expr.ofVector_ok`**, **`Expr.ofMatrix_ok`** — building
  blocks. -/

namespace Galerkin

variable {α : Type}

/-- A position that counts from the start. -/
theorem inRange_natCast {length k : Nat} (h : k < length) : InRange length k := ⟨by omega, by omega⟩

/-- Such a position means itself. -/
@[simp] theorem wrapped_natCast (length k : Nat) : wrapped length k = k := by
  unfold wrapped
  split <;> omega

namespace Operand

variable {x y : Expr α}

/-- Operands of one shape can be combined. -/
theorem arith_ok {op : ArithOp} (h : x.shape = y.shape) :
    arith op (some x) (some y) = .ok (.binary op x y) :=
  (Expr.Call.arith op x y).checked.ok trivial h

/-- A position below the length is that position. -/
theorem wrapPosition_natCast {operation : String} {length k : Nat} (h : k < length) :
    wrapPosition operation length k = .ok k := by
  rw [wrapPosition_checked.ok trivial (inRange_natCast h), wrapped_natCast]

/-- Position `-1` is the last one. -/
theorem wrapPosition_last {operation : String} {length : Nat} (h : 0 < length) :
    wrapPosition operation length (-1) = .ok (length - 1) := by
  have hlast : wrapped length (-1) = length - 1 := by
    unfold wrapped
    split <;> omega
  rw [wrapPosition_checked.ok trivial ⟨by omega, by omega⟩, hlast]

/-- A component of a vector. -/
theorem index_ok {k : Int} {p : Nat} (hvector : x.shape.isVector = true)
    (hk : wrapPosition "index" x.shape.rows k = .ok p) : index (some x) k = .ok (.index x p) := by
  obtain ⟨-, hrange, rfl⟩ := wrapPosition_checked.of_ok hk
  exact (Expr.Call.index x k).checked.ok trivial ⟨hvector, hrange⟩

/-- An entry of a matrix. -/
theorem entry_ok {i j : Nat} (hmatrix : x.shape.isMatrix = true) (hi : i < x.shape.rows)
    (hj : j < x.shape.cols) : entry (some x) i j = .ok (.entry x i j) := by
  have hentry := (Expr.Call.entry x i j).checked.ok trivial ⟨hmatrix, inRange_natCast hi, inRange_natCast hj⟩
  rwa [Expr.Call.result, wrapped_natCast, wrapped_natCast] at hentry

/-- The first components of a vector. -/
theorem sliceRange_ok {n : Nat} (hvector : x.shape.isVector = true) (hn : 0 < n) (hle : n ≤ x.shape.rows) :
    sliceRange (some x) 0 n = .ok (.slice x (List.range n)) := by
  have hpositions : (integersFrom 0 n).map (wrapped x.shape.rows) = List.range n := by
    simp [integersFrom, Function.comp_def]
  have hslice := (Expr.Call.range x 0 n).checked.ok trivial ⟨hvector, by omega, by omega, by omega⟩
  rwa [Expr.Call.result, hpositions] at hslice

/-- A matrix and a vector whose extents fit. -/
theorem matmul_ok (hmatrix : x.shape.isMatrix = true) (hvector : y.shape.isVector = true)
    (h : x.shape.cols = y.shape.rows) : matmul (some x) (some y) = .ok (.matmul x y) :=
  (Expr.Call.matmul x y).checked.ok trivial ⟨hmatrix, hvector, h⟩

/-- Two vectors of one length. -/
theorem inner_ok (hx : x.shape.isVector = true) (hy : y.shape.isVector = true)
    (h : x.shape.rows = y.shape.rows) :
    inner (some x) (some y) = .ok (innerSum x y (x.shape.rows - 1)) :=
  (Expr.Call.inner x y).checked.ok trivial ⟨⟨hx, hy⟩, h⟩

/-- A sum of products is a scalar. -/
theorem shape_innerSum (x y : Expr α) (n : Nat) : (innerSum x y n).shape = .scalar := by
  induction n with
  | zero => rfl
  | succ n ih => exact ih

end Operand

namespace Expr

/-- A field with a name and a shape that can be declared. -/
theorem ofField_ok {name : String} {shape : Shape} {symmetric : Bool} (hname : name ≠ "")
    (hshape : shape.Declarable symmetric) :
    (ofField name shape symmetric : Except Error (Expr α)) = .ok (.field name shape symmetric) :=
  (Call.field name shape symmetric).checked.ok ⟨hname, hshape.rows_pos, hshape.cols_pos⟩ hshape.square

/-- A derivative with some orders. -/
theorem ofDeriv_ok {basis : String} {orders : List Nat} (hbasis : basis ≠ "") (horders : orders ≠ []) :
    (ofDeriv basis (orders.map Int.ofNat) : Except Error (Expr α)) = .ok (.deriv basis orders) := by
  have hback : (orders.map Int.ofNat).map Int.toNat = orders := by
    rw [List.map_map]
    exact List.map_id' orders
  have hderiv := (Call.deriv (α := α) basis (orders.map Int.ofNat)).checked.ok
    ⟨hbasis, mt List.map_eq_nil_iff.mp horders, by simp⟩ trivial
  rwa [Call.result, hback] at hderiv

/-- A vector of some scalars. -/
theorem ofVector_ok {es : List (Expr α)} (hne : es ≠ []) (h : ∀ e ∈ es, e.shape.isScalar = true) :
    ofVector (es.map some) = .ok (.compose (.vector es.length) es) :=
  (Call.vector es).checked.ok hne h

/-- A matrix of as many scalars as it has positions. -/
theorem ofMatrix_ok {rows cols : Nat} {es : List (Expr α)} (hrows : 0 < rows) (hcols : 0 < cols)
    (hcount : es.length = rows * cols) (h : ∀ e ∈ es, e.shape.isScalar = true) :
    ofMatrix rows cols (es.map some) = .ok (.compose (.matrix rows cols) es) :=
  (Call.matrix rows cols es).checked.ok ⟨hrows, hcols⟩ ⟨hcount, h⟩

end Expr

end Galerkin
