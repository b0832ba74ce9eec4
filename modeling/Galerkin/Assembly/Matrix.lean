import Galerkin.Assembly.Assembler
import Galerkin.Sparsity.Banded
import Galerkin.Sparsity.Candidates

/-! # Assembling matrices

Two drivers, which split the first axis into chunks for the workers of a pool. Both evaluate a block of
components for each pair of basis functions whose supports can meet; for a symmetric form they
evaluate one of two mirrored pairs and transpose its block.

* **`assembleSparse`** — walks over the neighbours of each test function;
* **`assembleBanded`** — walks over the products of candidate pairs;
* **`mirrored`** — the transposed block. -/

namespace Galerkin

variable {α : Type} [Scalar α]

namespace Assembler

/-- A matrix driver needs a bilinear form. -/
def requireBilinear (a : Assembler α) (driver : String) : Except Error Unit :=
  require (a.arity == .bilinear) (.assembly (.matrixOfLinear driver a.name))

/-- Whether a run evaluates one of two mirrored pairs only. -/
def usesSymmetry (a : Assembler α) (pool : WorkerPool) : Bool :=
  pool.options.symmetric && a.symmetric

/-- The boxes that make up the box with the given extents, one for each chunk of its first axis. -/
def firstAxisBoxes (extents : List Nat) (chunks : Nat) : List (List Nat × List Nat) :=
  match extents with
  | [] => []
  | n :: rest =>
    (chunkRanges n chunks).map fun s => (s.first :: rest.map fun _ => 0, s.last :: rest)

/-! ## (1) Sparse matrices -/

/-- The entries of a block at basis functions `i` and `j`, given by number; with `mirror` each of them
also at the mirrored position. -/
def blockTriplets (a : Assembler α) (i j : Nat) (mirror : Bool) (block : Array α) :
    List (Triplet α) :=
  let nr := a.test.components
  let nc := a.trial.components
  (List.range nr).flatMap fun r =>
    (List.range nc).flatMap fun c =>
      let value := block.getD (r * nc + c) Scalar.zero
      let row := UInt64.ofNat (i * nr + r)
      let col := UInt64.ofNat (j * nc + c)
      ⟨row, col, value⟩ :: (if mirror then [⟨col, row, value⟩] else [])

/-- The pairs of axis ranges that hold the neighbours of a test function. -/
def neighborRanges (a : Assembler α) (test : List Nat) : Except Error (List Interval) :=
  test.zipIdx.mapM fun (i, axis) => a.neighborRange (axis : Int) i

/-- The trial functions that are paired with test function number `i`: its neighbours, and with
`symmetric` only those before the first with a number above `i`. -/
def partners (a : Assembler α) (symmetric : Bool) (i : Nat) (ranges : List Interval) :
    List (List Nat) :=
  let all := MultiIndex.walk (ranges.map (·.first)) (ranges.map (·.last))
  if symmetric then
    all.takeWhile fun trial => decide (MultiIndex.linearIndex trial a.trial.dofs ≤ i)
  else all

/-- The entries that a test function gives rise to. -/
def rowTriplets (a : Assembler α) (e : Evaluator α) (symmetric : Bool) (test : List Nat) :
    Except Error (List (Triplet α)) := do
  let i := MultiIndex.linearIndex test a.test.dofs
  let ranges ← a.neighborRanges test
  let parts ← (a.partners symmetric i ranges).mapM fun trial => do
    let j := MultiIndex.linearIndex trial a.trial.dofs
    let block ← a.blockBy e test trial
    pure (a.blockTriplets i j (symmetric && i != j) block)
  pure parts.flatten

/-- The entries that the test functions of a box give rise to. -/
def boxTriplets (a : Assembler α) (e : Evaluator α) (symmetric : Bool)
    (box : List Nat × List Nat) : Except Error (Array (Triplet α)) :=
  (MultiIndex.walk box.1 box.2).foldlM
    (fun triplets test => do return triplets ++ (← a.rowTriplets e symmetric test).toArray) #[]

/-- The entries that all test functions give rise to, chunk after chunk of the first axis. -/
def sparseTriplets (a : Assembler α) (pool : WorkerPool) : Outcome (Array (Triplet α)) := do
  let boxes := (firstAxisBoxes a.test.dofs pool.chunkCount).toArray
  let parts ← runChunks boxes.size fun c => do
    let e ← a.workerEvaluator
    a.boxTriplets e (a.usesSymmetry pool) (boxes.getD c ([], []))
  pure (parts.foldl (· ++ ·) #[])

/-- **The matrix of a bilinear form as a sparse matrix.** -/
def assembleSparse (a : Assembler α) (pool : WorkerPool) : Outcome (SparseMatrix α) := do
  a.requireBilinear "assembleSparse"
  let triplets ← a.sparseTriplets pool
  let matrix ← SparseMatrix.ofTriplets triplets a.rows a.cols
  if pool.options.verbose then
    Outcome.report (.sparseAssembled a.name a.rows.toNat a.cols.toNat matrix.storedPositions
      pool.workers (a.usesSymmetry pool))
  pure matrix

/-! ## (2) Banded matrices -/

/-- The transpose of a block with `nr` rows and `nc` columns. -/
def mirrored (nr nc : Nat) (block : Array α) : Array α :=
  ((List.range nc).flatMap fun c => (List.range nr).map fun r =>
    block.getD (r * nc + c) Scalar.zero).toArray

/-- The candidates of an axis: not empty, pairs, and inside the bases. -/
def checkCandidates (a : Assembler α) (axis : Nat) (c : AxisCandidates) : Except Error Unit := do
  require (decide (0 < c.size) && c.test.size == c.trial.size) (.assembly (.emptyCandidates axis))
  c.pairs.forM fun (i, j) => do
    checkIndex .assembleTestCandidate i (a.test.dofs.getD axis 0)
    checkIndex .assembleTrialCandidate j (a.trial.dofs.getD axis 0)

/-- The candidates of an axis are checked; with `symmetric` the result holds the positions of the
mirrored pairs. -/
def prepareAxis (a : Assembler α) (symmetric : Bool) (axis : Nat) (c : AxisCandidates) :
    Except Error (Array Nat) := do
  a.checkCandidates axis c
  if symmetric then return (← transposeIndex c).toArray else return #[]

/-- How the trial function of a pair compares with the test function: on the first axis on which they
differ. -/
def compareAxes (pairs : List (Nat × Nat)) : Ordering :=
  match pairs.find? fun (i, j) => i != j with
  | some (i, j) => compare j i
  | none => .eq

/-- A block of entries and the position it belongs to. -/
abbrev BlockWrite (α : Type) := Nat × Array α

/-- The blocks that a position of the candidates gives rise to: its own and, for a symmetric form, the
mirrored one. A position above the diagonal of a symmetric form is left to its mirror. -/
def positionWrites (a : Assembler α) (e : Evaluator α) (candidates : List AxisCandidates)
    (mirrors : List (Array Nat)) (symmetric : Bool) (position : List Nat) :
    Except Error (List (BlockWrite α)) := do
  let sizes := candidates.map (·.size)
  let pairs := List.zipWith (fun (c : AxisCandidates) p => c.pair p) candidates position
  let order := compareAxes pairs
  if symmetric && order == .gt then return []
  let block ← a.blockBy e (pairs.map (·.1)) (pairs.map (·.2))
  let own := (MultiIndex.linearIndex position sizes, block)
  if symmetric && order == .lt then
    let mirror := List.zipWith (fun (m : Array Nat) p => m.getD p 0) mirrors position
    return [own, (MultiIndex.linearIndex mirror sizes,
      mirrored a.test.components a.trial.components block)]
  else return [own]

/-- Puts the values of a block to its position. -/
def writeBlock (blockSize : Nat) (entries : Array α) (w : BlockWrite α) : Array α :=
  w.2.toList.zipIdx.foldl (fun entries (x, s) => entries.setIfInBounds (w.1 * blockSize + s) x)
    entries

/-- **The matrix of a bilinear form as a banded matrix** over the given candidates. -/
def assembleBandedOver (a : Assembler α) (pool : WorkerPool) (candidates : List AxisCandidates) :
    Outcome (BandedMatrix α) := do
  a.requireBilinear "assembleBanded"
  let symmetric := a.usesSymmetry pool
  let mirrors ← (candidates.zipIdx.mapM fun (c, axis) => a.prepareAxis symmetric axis c :
    Except Error (List (Array Nat)))
  let sizes := candidates.map (·.size)
  let boxes := (firstAxisBoxes sizes pool.chunkCount).toArray
  let parts ← runChunks boxes.size fun c => do
    let e ← a.workerEvaluator
    let box := boxes.getD c ([], [])
    let writes ← ((MultiIndex.walk box.1 box.2).mapM fun position =>
      a.positionWrites e candidates mirrors symmetric position : Except Error _)
    pure writes.flatten
  let positions := MultiIndex.product sizes
  let blockSize := a.test.components * a.trial.components
  let entries := parts.foldl (fun entries writes => writes.foldl (writeBlock blockSize) entries)
    (Array.replicate (positions * blockSize) Scalar.zero)
  if pool.options.verbose then
    Outcome.report (.bandedAssembled a.name positions pool.workers symmetric)
  BandedMatrix.make candidates a.test.words a.trial.words entries a.test.components
    a.trial.components

/-- The pairs of functions on each of `dim` axes whose supports meet. -/
def supportCandidates (a : Assembler α) : Except Error (List AxisCandidates) :=
  (List.range a.test.dofs.length).mapM fun (axis : Nat) => do
    let test ← a.meshSupport axis .test
    let trial ← a.meshSupport axis .trial
    pure (candidatesOfSupport test.toList trial.toList)

/-- **The matrix of a bilinear form as a banded matrix** over all pairs whose supports meet. -/
def assembleBanded (a : Assembler α) (pool : WorkerPool) : Outcome (BandedMatrix α) := do
  let candidates ← a.supportCandidates
  a.assembleBandedOver pool candidates

end Assembler

end Galerkin
