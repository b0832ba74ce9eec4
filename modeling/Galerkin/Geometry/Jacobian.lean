import Galerkin.Error
import Galerkin.Scalar
import Galerkin.Index.Grid

/-! # Determinants and inverses of Jacobians

* **`determinant`** — expansion along the first row;
* **`inverse?`** — the matrix of cofactors over the determinant, for a determinant that is a finite
  number other than zero;
* **`invertJacobians`** — both at every node of a grid. -/

namespace Galerkin

variable {α : Type} [Scalar α]

/-- A list of rows without column `j`. -/
def dropColumn (j : Nat) (rows : List (List α)) : List (List α) := rows.map (·.eraseIdx j)

/-- Adds the terms with alternating signs, the first one positive. -/
def alternatingSum : List α → α
  | [] => Scalar.zero
  | [x] => x
  | x :: xs => x - alternatingSum xs

/-- The determinant of `size` rows, by expansion along the first one. -/
def expand : (size : Nat) → List (List α) → α
  | 0, _ => Scalar.one
  | _ + 1, [] => Scalar.one
  | size + 1, row :: rows =>
    alternatingSum (row.zipIdx.map fun (x, j) => x * expand size (dropColumn j rows))

/-- **The determinant.** -/
def determinant (rows : List (List α)) : α := expand rows.length rows

/-- The cofactor of row `i` and column `j`. -/
def cofactor (rows : List (List α)) (i j : Nat) : α :=
  let minor := determinant (dropColumn j (rows.eraseIdx i))
  if (i + j) % 2 = 0 then minor else -minor

/-- **The inverse,** entry by entry, if the determinant is finite and not zero. -/
def inverse? (rows : List (List α)) : Option (List (List α)) :=
  let det := determinant rows
  if Scalar.eq det Scalar.zero || !Scalar.isFinite det then none
  else
    some ((List.range rows.length).map fun i =>
      (List.range rows.length).map fun j => cofactor rows j i / det)

/-- The rows of a square matrix that is kept row by row. -/
def squareRows (dim : Nat) (entries : Array α) : List (List α) :=
  (List.range dim).map fun i => (entries.extract (i * dim) (i * dim + dim)).toList

/-- **Determinant and inverse at every node.** Fails at the first node whose Jacobian is singular. -/
def invertJacobians (jacobians : GridArray α) (dim : Int) :
    Except Error (GridArray α × GridArray α) := do
  require (decide (1 ≤ dim)) (.geometry .jacobianDimension)
  let d := dim.toNat
  require (jacobians.components == d * d) (.geometry .jacobianComponents)
  let nodes ← (List.range jacobians.nodes).mapM fun n =>
    let rows := squareRows d (jacobians.nodeData n)
    match inverse? rows with
    | some inv => pure (determinant rows, inv.flatten.toArray)
    | none => throw (.geometry (.singularJacobian n))
  pure (GridArray.ofNodes jacobians.shape 1 (nodes.map fun (det, _) => #[det]),
    GridArray.ofNodes jacobians.shape (d * d) (nodes.map fun (_, inv) => inv))

end Galerkin
