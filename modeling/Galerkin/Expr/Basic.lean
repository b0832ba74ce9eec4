import Galerkin.Expr.Shape
import Galerkin.Scalar

/-! # Expressions

Expressions describe what a form adds up at every quadrature point: numbers, fields, derivatives of
basis functions, and combinations of these.

* **`Expr`** — expressions;
* **`ExprKind`** — the node types, with their names;
* **`Expr.shape`** — rank and extents of the value;
* **`Expr.nodes`** — all subexpressions, parents first;
* **`Expr.text`** — the written form. -/

namespace Galerkin

/-- **An expression.** Positions are counted from zero. The expressions that the operations of
`Galerkin.Expr.Build` make have operands of fitting shapes. -/
inductive Expr (α : Type) where
  /-- A number. -/
  | const (value : α)
  /-- A field of a form, by name. A symmetric field is a square matrix. -/
  | field (name : String) (shape : Shape) (symmetric : Bool)
  /-- An operation on each pair of components of two values of one shape. -/
  | binary (op : ArithOp) (lhs rhs : Expr α)
  /-- A component of a vector. -/
  | index (vector : Expr α) (position : Nat)
  /-- An entry of a matrix. -/
  | entry (matrix : Expr α) (row col : Nat)
  /-- The vector of some components of a vector. -/
  | slice (vector : Expr α) (positions : List Nat)
  /-- The product of a matrix and a vector. -/
  | matmul (matrix vector : Expr α)
  /-- A partial derivative of a basis function, with one order per axis. -/
  | deriv (basis : String) (orders : List Nat)
  /-- A vector or matrix made of scalars, row by row. -/
  | compose (shape : Shape) (components : List (Expr α))
  deriving Repr, Inhabited

/-- The type of the outermost node of an expression. -/
inductive ExprKind where
  | constant
  | field
  | binaryOp
  | index
  | entry
  | slice
  | matMul
  | partialDeriv
  | compose
  deriving Repr, DecidableEq, Inhabited

/-- The name of a node type. -/
def ExprKind.name : ExprKind → String
  | constant => "Constant"
  | field => "Field"
  | binaryOp => "BinaryOp"
  | index => "Index"
  | entry => "Entry"
  | slice => "Slice"
  | matMul => "MatMul"
  | partialDeriv => "PartialDeriv"
  | compose => "Compose"

namespace Expr

variable {α : Type}

/-- The type of the outermost node. -/
def kind : Expr α → ExprKind
  | const _ => .constant
  | field _ _ _ => .field
  | binary _ _ _ => .binaryOp
  | index _ _ => .index
  | entry _ _ _ => .entry
  | slice _ _ => .slice
  | matmul _ _ => .matMul
  | deriv _ _ => .partialDeriv
  | compose _ _ => .compose

/-- **Rank and extents of the value.** -/
def shape : Expr α → Shape
  | const _ => .scalar
  | field _ shape _ => shape
  | binary _ lhs _ => lhs.shape
  | index _ _ => .scalar
  | entry _ _ _ => .scalar
  | slice _ positions => .vector positions.length
  | matmul matrix _ => .vector matrix.shape.rows
  | deriv _ _ => .scalar
  | compose shape _ => shape

/-- Whether the expression is a field that is declared symmetric. -/
def isSymmetric : Expr α → Bool
  | field _ _ symmetric => symmetric
  | _ => false

mutual

/-- **The expression and all its subexpressions,** parents first, operands from left to right. -/
def nodes : Expr α → List (Expr α)
  | const value => [const value]
  | field name shape symmetric => [field name shape symmetric]
  | binary op lhs rhs => binary op lhs rhs :: (lhs.nodes ++ rhs.nodes)
  | index vector position => index vector position :: vector.nodes
  | entry matrix row col => entry matrix row col :: matrix.nodes
  | slice vector positions => slice vector positions :: vector.nodes
  | matmul matrix vector => matmul matrix vector :: (matrix.nodes ++ vector.nodes)
  | deriv basis orders => [deriv basis orders]
  | compose shape components => compose shape components :: nodesOfAll components

/-- The nodes of some expressions one after the other. -/
def nodesOfAll : List (Expr α) → List (Expr α)
  | [] => []
  | e :: es => e.nodes ++ nodesOfAll es

end

/-- Natural numbers with commas between them. -/
def commaText (numbers : List Nat) : String := ",".intercalate (numbers.map toString)

mutual

/-- **The written form.** -/
def text [ScalarText α] : Expr α → String
  | const value => ScalarText.brief value
  | field name _ _ => name
  | binary op lhs rhs => "(" ++ lhs.text ++ " " ++ op.symbol ++ " " ++ rhs.text ++ ")"
  | index vector position => vector.text ++ "[" ++ toString position ++ "]"
  | entry matrix row col => matrix.text ++ "[" ++ commaText [row, col] ++ "]"
  | slice vector positions => vector.text ++ "[" ++ commaText positions ++ "]"
  | matmul matrix vector => "(" ++ matrix.text ++ " . " ++ vector.text ++ ")"
  | deriv basis orders => "D[" ++ commaText orders ++ "](" ++ basis ++ ")"
  | compose _ components => "\x7b" ++ ", ".intercalate (textsOfAll components) ++ "\x7d"

/-- The written forms of some expressions. -/
def textsOfAll [ScalarText α] : List (Expr α) → List String
  | [] => []
  | e :: es => e.text :: textsOfAll es

end

/-- The highest derivative order in an expression, at least `start`. -/
def maxOrder (start : Nat) (e : Expr α) : Nat :=
  e.nodes.foldl (fun highest node =>
    match node with
    | deriv _ orders => orders.foldl max highest
    | _ => highest) start

end Expr

end Galerkin
