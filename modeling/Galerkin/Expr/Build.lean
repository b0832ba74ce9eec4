import Galerkin.Error
import Galerkin.Expr.Basic

/-! # Building expressions

The operations here check the shapes of their operands, so that every expression they make has a
value. An operand may be missing, for example because the operation that was to make it failed; each
operation refuses a missing operand. Negative positions count from the end.

* **`Operand`** — an expression that may be missing;
* **`Expr.ofField`**, **`Expr.ofDeriv`**, **`Expr.ofVector`**, **`Expr.ofMatrix`** — building blocks;
* **`Operand.arith`**, **`Operand.index`**, **`Operand.entry`**, **`Operand.slice`**,
  **`Operand.matmul`**, **`Operand.inner`** — operations. -/

namespace Galerkin

variable {α : Type}

/-- An expression that may be missing. -/
abbrev Operand (α : Type) := Option (Expr α)

namespace Expr

/-! ## (1) Building blocks -/

/-- A field with a name and a shape that is not empty. Only a square matrix can be symmetric. -/
def ofField (name : String) (shape : Shape) (symmetric : Bool) : Except Error (Expr α) := do
  require (!name.isEmpty) (.expr .emptyFieldName)
  require (decide (0 < shape.rows) && decide (0 < shape.cols)) (.expr .emptyFieldShape)
  require (!symmetric || (shape.isMatrix && shape.rows == shape.cols))
    (.expr (.symmetricNotSquare name))
  pure (.field name shape symmetric)

/-- A partial derivative of a basis function. -/
def ofDeriv (basis : String) (orders : List Int) : Except Error (Expr α) := do
  require (!basis.isEmpty) (.expr .emptyBasisName)
  require (!orders.isEmpty) (.expr .emptyOrders)
  require (orders.all fun d => decide (0 ≤ d)) (.expr .negativeOrder)
  pure (.deriv basis (orders.map Int.toNat))

end Expr

/-- The expression of an operand, or a failure that names the operation. -/
def Operand.get (operation : String) : Operand α → Except Error (Expr α)
  | some e => .ok e
  | none => .error (.expr (.emptyOperand operation))

/-- The expression of an operand that is only looked at. -/
def Operand.look : Operand α → Except Error (Expr α)
  | some e => .ok e
  | none => .error (.expr .empty)

/-- The written form of an operand. -/
def Operand.text [ScalarText α] : Operand α → String
  | some e => e.text
  | none => "<empty>"

/-- The subexpressions of an operand, parents first. -/
def Operand.nodes : Operand α → List (Expr α)
  | some e => e.nodes
  | none => []

namespace Expr

/-- The scalars among the operands of `operation`; the first that is missing or no scalar is
refused. -/
def scalars (operation : String) (refusal : Shape → ExprError) (operands : List (Operand α)) :
    Except Error (List (Expr α)) :=
  operands.mapM fun operand => do
    let e ← operand.get operation
    require e.shape.isScalar (.expr (refusal e.shape))
    pure e

/-- The vector of some scalars. -/
def ofVector (components : List (Operand α)) : Except Error (Expr α) := do
  require (!components.isEmpty) (.expr .noComponents)
  let es ← scalars "Expr::vector" .vectorComponent components
  pure (.compose (.vector components.length) es)

/-- The matrix of some scalars, given row by row. -/
def ofMatrix (rows cols : Nat) (components : List (Operand α)) : Except Error (Expr α) := do
  require (decide (0 < rows) && decide (0 < cols)) (.expr .emptyMatrix)
  require (components.length == rows * cols) (.expr (.matrixCount components.length rows cols))
  let es ← scalars "Expr::matrix" .matrixComponent components
  pure (.compose (.matrix rows cols) es)

end Expr

namespace Operand

/-! ## (2) Operations -/

/-- **Arithmetic component by component,** on operands of one shape. -/
def arith (op : ArithOp) (a b : Operand α) : Except Error (Expr α) := do
  let x ← a.get op.symbol
  let y ← b.get op.symbol
  require (x.shape == y.shape) (.expr (.shapesDiffer op.symbol x.shape y.shape))
  pure (.binary op x y)

/-- The position below `length` that `k` means; a negative one counts from the end. -/
def wrapPosition (operation : String) (length : Nat) (k : Int) : Except Error Nat := do
  let w := if k < 0 then k + length else k
  require (decide (0 ≤ w) && decide (w < length)) (.expr (.indexRange operation k length))
  pure w.toNat

/-- The operand of `operation`, which must be a vector. -/
def getVector (operation : String) (a : Operand α) : Except Error (Expr α) := do
  let v ← a.get operation
  require v.shape.isVector (.expr (.notVector operation v.shape))
  pure v

/-- **A component of a vector.** -/
def index (a : Operand α) (k : Int) : Except Error (Expr α) := do
  let v ← a.getVector "index"
  pure (.index v (← wrapPosition "index" v.shape.rows k))

/-- **An entry of a matrix.** -/
def entry (a : Operand α) (i j : Int) : Except Error (Expr α) := do
  let m ← a.get "entry"
  require m.shape.isMatrix (.expr (.notMatrix "entry" m.shape))
  let row ← wrapPosition "entry" m.shape.rows i
  let col ← wrapPosition "entry" m.shape.cols j
  pure (.entry m row col)

/-- **Some components of a vector,** at least one. -/
def slice (a : Operand α) (positions : List Int) : Except Error (Expr α) := do
  let v ← a.getVector "slice"
  require (!positions.isEmpty) (.expr .emptySlice)
  pure (.slice v (← positions.mapM (wrapPosition "slice" v.shape.rows)))

/-- The components of a vector from position `first` to before position `last`. -/
def sliceRange (a : Operand α) (first last : Int) : Except Error (Expr α) :=
  a.slice ((List.range (last - first).toNat).map fun (k : Nat) => first + k)

/-- **The product of a matrix and a vector.** -/
def matmul (a b : Operand α) : Except Error (Expr α) := do
  let m ← a.get "matmul"
  let x ← b.get "matmul"
  require m.shape.isMatrix (.expr (.matmulLeft m.shape))
  require x.shape.isVector (.expr (.matmulRight x.shape))
  require (m.shape.cols == x.shape.rows) (.expr (.matmulInner m.shape.cols x.shape.rows))
  pure (.matmul m x)

/-- The product of the components at one position of two vectors. -/
def componentProduct (x y : Expr α) (k : Nat) : Expr α :=
  .binary .mul (.index x k) (.index y k)

/-- The sum of the products of the first `n + 1` components of two vectors, from left to right. -/
def innerSum (x y : Expr α) : (n : Nat) → Expr α
  | 0 => componentProduct x y 0
  | n + 1 => .binary .add (innerSum x y n) (componentProduct x y (n + 1))

/-- **The inner product of two vectors of one length,** as a sum of products. -/
def inner (a b : Operand α) : Except Error (Expr α) := do
  let x ← a.get "inner"
  let y ← b.get "inner"
  require (x.shape.isVector && y.shape.isVector) (.expr (.innerOperands x.shape y.shape))
  require (x.shape.rows == y.shape.rows) (.expr (.innerLengths x.shape.rows y.shape.rows))
  pure (innerSum x y (x.shape.rows - 1))

end Operand

end Galerkin
