/-! # Shapes of expression values

* **`Shape`** — rank and extents of a value: a scalar, a vector or a matrix;
* **`symmetricIndex`** — where entry `(i, j)` of a symmetric matrix sits in its packed upper triangle;
* **`symmetricStorageSize`** — how many entries that triangle has.

Extents and what is computed from them are numbers without a bound. They stand for 32-bit integers, and agree
with those as long as the products `rows * cols` and `n * (n + 1)` are below `2 ^ 31`. -/

namespace Galerkin

/-- Rank and extents of a value. A scalar has one row and one column, a vector one column. -/
structure Shape where
  rank : Int
  rows : Nat
  cols : Nat
  deriving Repr, DecidableEq, Inhabited

namespace Shape

/-- The shape of a number. -/
def scalar : Shape := ⟨0, 1, 1⟩

/-- The shape of a vector with `n` components. -/
def vector (n : Nat) : Shape := ⟨1, n, 1⟩

/-- The shape of a matrix. -/
def matrix (rows cols : Nat) : Shape := ⟨2, rows, cols⟩

/-- The number of scalar components, which are kept row by row; as a 32-bit integer, if it is below
`2 ^ 31`. -/
def size (s : Shape) : Nat := s.rows * s.cols

/-- The row and column of every component, row by row. -/
def positions (s : Shape) : List (Nat × Nat) :=
  (List.range s.rows).flatMap fun i => (List.range s.cols).map fun j => (i, j)

/-- Whether the rank is that of a scalar. -/
def isScalar (s : Shape) : Bool := s.rank == 0

/-- Whether the rank is that of a vector. -/
def isVector (s : Shape) : Bool := s.rank == 1

/-- Whether the rank is that of a matrix. -/
def isMatrix (s : Shape) : Bool := s.rank == 2

/-- The text of a shape; a rank above one shows both extents. -/
def text (s : Shape) : String :=
  if s.rank = 0 then "scalar"
  else if s.rank = 1 then s!"vector[{s.rows}]"
  else s!"matrix[{s.rows},{s.cols}]"

@[simp] theorem size_scalar : scalar.size = 1 := rfl

@[simp] theorem size_vector (n : Nat) : (vector n).size = n := by simp [size, vector]

/-- Every component has a position. -/
theorem length_positions (s : Shape) : s.positions.length = s.size := by
  simp [positions, size, List.length_flatMap, List.map_const']

@[simp] theorem size_matrix (r c : Nat) : (matrix r c).size = r * c := rfl

end Shape

/-- **Packed position of entry `(i, j)`** of a symmetric `n × n` matrix whose upper triangle is kept
row by row. The order of `i` and `j` does not matter. -/
def symmetricIndex (i j n : Nat) : Nat :=
  let row := min i j
  let col := max i j
  row * n - row * (row - 1) / 2 + (col - row)

/-- The number of entries on and above the diagonal of an `n × n` matrix, the triangular number of `n`.
Of two neighbouring integers the product is never negative, so the formula has a count for every `n`. -/
def symmetricStorageSize (n : Int) : Nat :=
  (n * (n + 1) / 2).toNat

/-- For an extent the count is taken in natural numbers. -/
@[simp] theorem symmetricStorageSize_natCast (n : Nat) :
    symmetricStorageSize n = n * (n + 1) / 2 := by
  unfold symmetricStorageSize
  have h : ((n : Int) * ((n : Int) + 1) / 2) = ((n * (n + 1) / 2 : Nat) : Int) := by simp
  rw [h, Int.toNat_natCast]

/-- Entries mirrored at the diagonal share their position. -/
theorem symmetricIndex_comm (i j n : Nat) : symmetricIndex i j n = symmetricIndex j i n := by
  simp [symmetricIndex, Nat.min_comm i j, Nat.max_comm i j]

end Galerkin
