import Galerkin.Assembly.WorkerPool
import Galerkin.Form.Basic
import Galerkin.Index.MultiIndex
import Galerkin.Index.Search
import Galerkin.Sparsity.Csr

/-! # Assemblers

An assembler answers for the entries of a matrix or a vector over tensor-product bases. Rows belong to
test functions and columns to trial functions. A basis function is a multi-index; together with a
component it has a global index, in which the last axis varies faster than the others and the
component fastest of all. Global indices are 64-bit words.

* **`Assembler`** — the two spaces and the evaluation of entries;
* **`Assembler.checked`** — the conditions on the spaces;
* **`toLinearIndex`**, **`fromLinearIndex`** — global indices;
* **`entry`**, **`entry1`**, **`entryBlock`**, **`entry1Block`** — single queries;
* **`multiEntries`**, **`assembleVector`** — batches, by several workers. -/

namespace Galerkin

variable {α : Type}

/-! ## (1) The interface -/

/-- The space of the rows or that of the columns. -/
inductive Space where
  | trial
  | test
  deriving Repr, DecidableEq, Inhabited

/-- Numbers of basis functions on each axis, and of components. -/
structure Layout where
  dofs : List Nat
  components : Nat
  deriving Repr, DecidableEq, Inhabited

namespace Layout

/-- The numbers of basis functions as words. -/
def words (l : Layout) : List GlobalIndex := l.dofs.map UInt64.ofNat

/-- The number of components as a word. -/
def componentWord (l : Layout) : GlobalIndex := UInt64.ofNat l.components

/-- The number of basis functions. -/
def functions (l : Layout) : GlobalIndex := MultiIndex.product l.words

/-- The number of unknowns. -/
def unknowns (l : Layout) : GlobalIndex := l.functions * l.componentWord

end Layout

/-- **The evaluation of entries:** the block of components for a test and a trial function, and the
components for a test function. Indices are checked before. -/
structure Evaluator (α : Type) where
  block : (test trial : List Nat) → Except Error (Array α)
  components : (test : List Nat) → Except Error (Array α)

/-- What the workers of a pool evaluate entries with. -/
inductive WorkerAccess (α : Type) where
  /-- All with the assembler itself. -/
  | shared
  /-- Each with a copy. -/
  | copied (copy : Evaluator α)
  /-- The assembler can neither be shared nor copied. -/
  | unavailable
  /-- The copy is missing. -/
  | missing

/-- **An assembler.** -/
structure Assembler (α : Type) where
  name : String
  arity : Arity
  test : Layout
  trial : Layout
  symmetric : Bool
  /-- The supports of the basis functions on an axis. -/
  meshSupport : (axis : Int) → Space → Except Error (Array Interval)
  /-- The trial functions on an axis whose support meets that of a test function. -/
  neighborRange : (axis : Int) → (i : Nat) → Except Error Interval
  evaluator : Evaluator α
  access : WorkerAccess α := .shared

namespace Assembler

/-- The layout of a space. -/
def layout (a : Assembler α) : Space → Layout
  | .trial => a.trial
  | .test => a.test

/-- The number of rows. -/
def rows (a : Assembler α) : GlobalIndex := a.test.unknowns

/-- The number of columns. -/
def cols (a : Assembler α) : GlobalIndex := a.trial.unknowns

/-- The number of values of a query: a block of components, or the components of a vector. -/
def slots (a : Assembler α) : Nat :=
  match a.arity with
  | .bilinear => a.test.components * a.trial.components
  | .linear => a.test.components

/-- **The conditions on the two spaces:** components and functions on every axis, and the same spaces
for a symmetric form. -/
def checkSpaces (test trial : Layout) (symmetric : Bool) : Except Error Unit := do
  require (decide (1 ≤ test.components) && decide (1 ≤ trial.components)) (.assembly .components)
  require ((test.dofs.zip trial.dofs).all fun (m, n) => decide (0 < m) && decide (0 < n))
    (.assembly .emptyBasis)
  require (!symmetric || test == trial) (.assembly .symmetricSpaces)

/-- An assembler, if its spaces satisfy the conditions. -/
def checked (a : Assembler α) : Except Error (Assembler α) := do
  checkSpaces a.test a.trial a.symmetric
  pure a

/-- **The neighbours of test function `i` on an axis,** by searching the supports, which are sorted in
both ends. -/
def searchNeighbors (dim : Nat) (meshSupport : (axis : Int) → Space → Except Error (Array Interval))
    (axis : Int) (i : Nat) : Except Error Interval := do
  checkIndex .neighborAxis axis dim
  let testSupport ← meshSupport axis .test
  checkIndex .neighborFunction i testSupport.size
  let s := testSupport.getD i ⟨0, 0⟩
  let support ← meshSupport axis .trial
  let first := partitionPoint (fun j => decide ((support.getD j ⟨0, 0⟩).last ≤ s.first)) 0
    support.size
  let last := partitionPoint (fun j => decide ((support.getD j ⟨0, 0⟩).first < s.last)) first
    (support.size - first)
  pure ⟨first, last⟩

/-! ## (2) Global indices -/

/-- Every index must name a basis function of its axis. -/
def checkAxes (a : Assembler α) (index : List Nat) (space : Space) : Except Error Unit :=
  (index.zip (a.layout space).dofs).zipIdx.forM fun ((i, n), axis) =>
    checkIndex (.basisIndex axis) i n

/-- **The global index** of a component of a basis function. -/
def toLinearIndex (a : Assembler α) (index : List Nat) (component : Int) (space : Space) :
    Except Error GlobalIndex := do
  a.checkAxes index space
  let l := a.layout space
  checkIndex .component component l.components
  pure (MultiIndex.linearIndex (index.map UInt64.ofNat) l.words * l.componentWord +
    UInt64.ofInt component)

/-- **The basis function and component** of a global index. -/
def fromLinearIndex (a : Assembler α) (k : GlobalIndex) (space : Space) :
    Except Error (List Nat × Nat) := do
  let l := a.layout space
  checkWord .globalIndex k l.unknowns
  pure ((MultiIndex.multiIndex (k / l.componentWord) l.words).map UInt64.toNat,
    (k % l.componentWord).toNat)

/-! ## (3) Single queries -/

variable [Scalar α]

/-- The matrix entry of a row and a column, evaluated by `e`; zero for linear forms. -/
def entryBy (a : Assembler α) (e : Evaluator α) (i j : GlobalIndex) : Except Error α := do
  let (test, r) ← a.fromLinearIndex i .test
  let (trial, c) ← a.fromLinearIndex j .trial
  match a.arity with
  | .linear => pure Scalar.zero
  | .bilinear =>
    let block ← e.block test trial
    pure (block.getD (r * a.trial.components + c) Scalar.zero)

/-- **The matrix entry** of a row and a column; zero for linear forms. -/
def entry (a : Assembler α) (i j : GlobalIndex) : Except Error α := a.entryBy a.evaluator i j

/-- **The vector entry** of a row; zero for bilinear forms. -/
def entry1 (a : Assembler α) (i : GlobalIndex) : Except Error α := do
  let (test, r) ← a.fromLinearIndex i .test
  match a.arity with
  | .bilinear => pure Scalar.zero
  | .linear =>
    let values ← a.evaluator.components test
    pure (values.getD r Scalar.zero)

/-- The block of components of two basis functions, evaluated by `e`, row by row. -/
def blockBy (a : Assembler α) (e : Evaluator α) (test trial : List Nat) :
    Except Error (Array α) := do
  a.checkAxes test .test
  a.checkAxes trial .trial
  require (a.arity == .bilinear) (.assembly (.entryOfLinear a.name))
  e.block test trial

/-- Puts values at the start of an array. -/
def overwrite (values out : Array α) : Array α := values ++ out.extract values.size out.size

/-- **The block of components of two basis functions,** written to the start of an array, which must
be present. -/
def entryBlock (a : Assembler α) (test trial : List Nat) (out : Option (Array α)) :
    Except Error (Array α) := do
  match out with
  | none => throw (.assembly .nullEntryOutput)
  | some out => return overwrite (← a.blockBy a.evaluator test trial) out

/-- **The components of a basis function,** written to the start of an array, which must be
present. -/
def entry1Block (a : Assembler α) (test : List Nat) (out : Option (Array α)) :
    Except Error (Array α) := do
  match out with
  | none => throw (.assembly .nullLoadOutput)
  | some out =>
    a.checkAxes test .test
    require (a.arity == .linear) (.assembly (.loadOfBilinear a.name))
    return overwrite (← a.evaluator.components test) out

/-! ## (4) Batches -/

/-- What a worker evaluates entries with. A new copy is reported. -/
def workerEvaluator (a : Assembler α) : Outcome (Evaluator α) := do
  match a.access with
  | .shared => pure a.evaluator
  | .copied copy =>
    Outcome.report .workerCloned
    pure copy
  | .unavailable => throw (.assembly (.noClone a.name))
  | .missing => throw (.assembly .nullClone)

/-- The pairs of a batch must be inside the matrix; all are looked at before any is evaluated. -/
def checkPairs (a : Assembler α) (pairs : List (GlobalIndex × GlobalIndex)) :
    Except Error Unit :=
  pairs.forM fun (i, j) => do
    checkWord .pairRow i a.rows
    checkWord .pairColumn j a.cols

/-- Whether a pool works on a batch of some size, or the caller alone. -/
def poolFor (pool : Option WorkerPool) (size : Nat) : Option WorkerPool :=
  pool.filter fun p => decide (1 < p.workers) && decide (p.options.serialThreshold ≤ size)

/-- The entries of some rows and columns, evaluated by `e`. -/
def entriesBy (a : Assembler α) (e : Evaluator α) (pairs : List (GlobalIndex × GlobalIndex)) :
    Except Error (List α) :=
  pairs.mapM fun (i, j) => a.entryBy e i j

/-- **The entries of some rows and columns,** in the order given. -/
def multiEntries (a : Assembler α) (pairs : List (GlobalIndex × GlobalIndex))
    (pool : Option WorkerPool) : Outcome (List α) := do
  a.checkPairs pairs
  match poolFor pool pairs.length with
  | none => a.entriesBy a.evaluator pairs
  | some p =>
    let all := pairs.toArray
    let parts ← runRanges (chunkRanges pairs.length (WorkerPool.countOf p.workers)) fun range => do
      let e ← a.workerEvaluator
      a.entriesBy e (all.extract range.first range.last).toList
    pure parts.flatten

/-- The components of the basis functions with numbers in a range, evaluated by `e`. -/
def vectorPart (a : Assembler α) (e : Evaluator α) (range : Interval) :
    Except Error (List α) := do
  let parts ← range.indices.mapM fun k =>
    e.components ((MultiIndex.multiIndex (UInt64.ofNat k) a.test.words).map UInt64.toNat)
  pure (parts.flatMap Array.toList)

/-- **The whole vector** of a linear form, the component fastest. -/
def assembleVector (a : Assembler α) (pool : Option WorkerPool) : Outcome (List α) := do
  require (a.arity == .linear) (.assembly (.vectorOfBilinear a.name))
  let n := a.test.functions.toNat
  match pool.filter fun p => decide (1 < p.workers) with
  | none => a.vectorPart a.evaluator ⟨0, n⟩
  | some p =>
    let parts ← runRanges (chunkRanges n p.chunkCount) fun range => do
      let e ← a.workerEvaluator
      a.vectorPart e range
    pure parts.flatten

end Assembler

end Galerkin
