import Galerkin.Index.MultiIndex
import Galerkin.Scalar
import Galerkin.Sparsity.Candidates
import Galerkin.Sparsity.Csr

/-! # Multi-level banded matrices

The entries of a tensor-product matrix are kept over the product of the candidate pairs of all axes.
A position is a multi-index of candidate positions, numbered with the last axis fastest; each position
holds a block of row components by column components, row by row.

* **`BandedMatrix`** — candidates, numbers of basis functions and entries;
* **`BandedMatrix.make`** — checks candidates against the bases and the number of entries;
* **`BandedMatrix.globalIndex`** — row and column of a component at a position;
* **`BandedMatrix.toSparse`** — all entries with their global positions. -/

namespace Galerkin

/-- Entries over the product of candidate pairs. Counts and global numbers are 64-bit words. -/
structure BandedMatrix (α : Type) where
  candidates : List AxisCandidates
  rowDofs : List UInt64
  colDofs : List UInt64
  entries : Array α
  rowComponents : Nat
  colComponents : Nat
  deriving Repr, DecidableEq

namespace BandedMatrix

variable {α : Type}

/-- The number of candidate pairs on each axis. -/
def positionExtents (m : BandedMatrix α) : List UInt64 :=
  m.candidates.map fun c => UInt64.ofNat c.size

/-- The number of positions. -/
def positions (m : BandedMatrix α) : UInt64 := MultiIndex.product m.positionExtents

/-- The number of entries at each position. -/
def blockSize (m : BandedMatrix α) : Nat := m.rowComponents * m.colComponents

/-- The number of rows, components included. -/
def rows (m : BandedMatrix α) : GlobalIndex :=
  MultiIndex.product m.rowDofs * UInt64.ofNat m.rowComponents

/-- The number of columns, components included. -/
def cols (m : BandedMatrix α) : GlobalIndex :=
  MultiIndex.product m.colDofs * UInt64.ofNat m.colComponents

/-- The candidates of an axis must pair up and name functions of the bases. -/
def checkAxis (axis : Nat) (c : AxisCandidates) (rowDofs colDofs : UInt64) :
    Except Error Unit := do
  require (c.test.size == c.trial.size) (.sparsity (.candidateLengths axis))
  c.pairs.forM fun (i, j) => do
    checkWord .bandedTestCandidate (UInt64.ofNat i) rowDofs
    checkWord .bandedTrialCandidate (UInt64.ofNat j) colDofs

/-- **A banded matrix from its parts.** Both component counts must be positive, the candidates of
every axis valid, and there must be one block of entries for each position. -/
def make (candidates : List AxisCandidates) (rowDofs colDofs : List UInt64) (entries : Array α)
    (rowComponents colComponents : Int) : Except Error (BandedMatrix α) := do
  require (decide (1 ≤ rowComponents) && decide (1 ≤ colComponents)) (.sparsity .components)
  (candidates.zip (rowDofs.zip colDofs)).zipIdx.forM fun ((c, r, k), axis) => checkAxis axis c r k
  let m : BandedMatrix α :=
    ⟨candidates, rowDofs, colDofs, entries, rowComponents.toNat, colComponents.toNat⟩
  require (UInt64.ofNat entries.size ==
      m.positions * UInt64.ofNat m.rowComponents * UInt64.ofNat m.colComponents)
    (.sparsity (.entryCount entries.size m.positions.toNat))
  pure m

/-- **The block at a position,** row by row. -/
def entry (m : BandedMatrix α) (position : UInt64) : Except Error (Array α) := do
  checkWord .bandedPosition position m.positions
  let first := position.toNat * m.blockSize
  pure (m.entries.extract first (first + m.blockSize))

/-- The candidate pairs that a position stands for, one per axis. -/
def pairsAt (m : BandedMatrix α) (position : UInt64) : List (Nat × Nat) :=
  List.zipWith (fun (c : AxisCandidates) i => c.pair i.toNat) m.candidates
    (MultiIndex.multiIndex position m.positionExtents)

/-- **Global row and column** of row component `r` and column component `c` at a position. -/
def globalIndex (m : BandedMatrix α) (position : UInt64) (r c : Int) :
    GlobalIndex × GlobalIndex :=
  let pairs := m.pairsAt position
  let row := MultiIndex.linearIndex (pairs.map fun p => UInt64.ofNat p.1) m.rowDofs
  let col := MultiIndex.linearIndex (pairs.map fun p => UInt64.ofNat p.2) m.colDofs
  (row * UInt64.ofNat m.rowComponents + UInt64.ofInt r,
    col * UInt64.ofNat m.colComponents + UInt64.ofInt c)

/-- The entries of one position with their global positions. -/
def blockTriplets [Scalar α] (m : BandedMatrix α) (position : Nat) : List (Triplet α) :=
  (List.range m.rowComponents).flatMap fun (r : Nat) =>
    (List.range m.colComponents).map fun (c : Nat) =>
      let (row, col) := m.globalIndex (UInt64.ofNat position) r c
      ⟨row, col,
        m.entries.getD (position * m.blockSize + r * m.colComponents + c) Scalar.zero⟩

/-- **The sparse matrix** with one entry for each position, row component and column component. -/
def toSparse [Scalar α] (m : BandedMatrix α) : Except Error (SparseMatrix α) :=
  SparseMatrix.ofTriplets ((List.range m.positions.toNat).flatMap m.blockTriplets).toArray
    m.rows m.cols

end BandedMatrix

end Galerkin
