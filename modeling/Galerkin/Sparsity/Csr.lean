import Galerkin.Error

/-! # Sparse matrices as lists of entries

A sparse matrix is given by its size and a list of entries; entries at the same position add up.

* **`Triplet`** — one entry with its global row and column, which are 64-bit words;
* **`SparseMatrix`** — size and entries;
* **`SparseMatrix.ofTriplets`** — checks the size against the range of storage indices and each
  position against the size. -/

namespace Galerkin

/-- A row or column number of an assembled matrix. -/
abbrev GlobalIndex := UInt64

/-- An entry of a sparse matrix. -/
structure Triplet (α : Type) where
  row : GlobalIndex
  col : GlobalIndex
  value : α
  deriving Repr, DecidableEq

/-- A matrix given by its size and the entries added to it, in the order of their addition. -/
structure SparseMatrix (α : Type) where
  rows : GlobalIndex
  cols : GlobalIndex
  entries : Array (Triplet α)
  deriving Repr, DecidableEq

namespace SparseMatrix

variable {α : Type}

/-- The largest row or column count a compressed matrix can have: its indices are signed and 32 bits
wide. -/
def storageLimit : GlobalIndex := 2147483647

/-- Whether an entry lies inside the matrix; the row is looked at first. -/
def checkPosition (rows cols : GlobalIndex) (t : Triplet α) : Except Error Unit := do
  checkWord .csrRow t.row rows
  checkWord .csrColumn t.col cols

/-- **The matrix of a list of entries.** -/
def ofTriplets (entries : Array (Triplet α)) (rows cols : GlobalIndex) :
    Except Error (SparseMatrix α) := do
  require (decide (rows ≤ storageLimit) && decide (cols ≤ storageLimit))
    (.sparsity .csrDimensions)
  entries.toList.forM (checkPosition rows cols)
  pure ⟨rows, cols, entries⟩

/-- The matrix of three parallel lists, which must have the same length. -/
def ofLists (values : List α) (rowIndex colIndex : List GlobalIndex) (rows cols : GlobalIndex) :
    Except Error (SparseMatrix α) := do
  require (values.length == rowIndex.length && values.length == colIndex.length)
    (.sparsity (.csrLengths values.length rowIndex.length colIndex.length))
  ofTriplets (List.zipWith (fun v (r, c) => (⟨r, c, v⟩ : Triplet α)) values
    (List.zip rowIndex colIndex)).toArray rows cols

/-- The entries row by row, and by column within a row; entries at the same position stay in the order
of their addition. -/
def sortedEntries (m : SparseMatrix α) : List (Triplet α) :=
  m.entries.toList.mergeSort fun s t =>
    decide (s.row < t.row) || (s.row == t.row && decide (s.col ≤ t.col))

/-- The number of positions after the first that differ from the one before. -/
def changes : List (Triplet α) → Nat
  | s :: t :: rest =>
    (if s.row == t.row && s.col == t.col then 0 else 1) + changes (t :: rest)
  | _ => 0

/-- The number of distinct positions that entries were added to. -/
def storedPositions (m : SparseMatrix α) : Nat :=
  match m.sortedEntries with
  | [] => 0
  | t :: rest => 1 + changes (t :: rest)

end SparseMatrix

end Galerkin
