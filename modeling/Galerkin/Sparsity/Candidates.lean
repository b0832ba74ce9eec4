import Galerkin.Error
import Galerkin.Index.Interval

/-! # Candidate pairs on one axis

Two basis functions can couple only where their supports meet. The candidates of an axis are pairs of
a test and a trial function, kept as two parallel lists.

* **`AxisCandidates`** — the pairs;
* **`candidatesOfSupport`** — all pairs with intersecting supports, in lexicographic order;
* **`transposeIndex`** — for each pair, the position of the pair with the roles exchanged. -/

namespace Galerkin

/-- Pairs of a test and a trial function, as two lists of the same length. -/
structure AxisCandidates where
  test : Array Nat
  trial : Array Nat
  deriving Repr, DecidableEq, Inhabited

namespace AxisCandidates

/-- The number of pairs. -/
def size (c : AxisCandidates) : Nat := c.test.size

/-- The pair at a position. -/
def pair (c : AxisCandidates) (position : Nat) : Nat × Nat :=
  (c.test.getD position 0, c.trial.getD position 0)

/-- The pairs in order. -/
def pairs (c : AxisCandidates) : List (Nat × Nat) := List.zip c.test.toList c.trial.toList

/-- Candidates from a list of pairs. -/
def ofPairs (pairs : List (Nat × Nat)) : AxisCandidates :=
  ⟨(pairs.map Prod.fst).toArray, (pairs.map Prod.snd).toArray⟩

@[simp] theorem pairs_ofPairs (ps : List (Nat × Nat)) : (ofPairs ps).pairs = ps := by
  simp [pairs, ofPairs, List.zip_map']

end AxisCandidates

/-- The numbered trial supports that can still meet a test support: those that end at or before its
start are passed over for good, since later test supports start no earlier. -/
def skipEnded (s : Interval) (trial : List (Interval × Nat)) : List (Interval × Nat) :=
  trial.dropWhile fun (t, _) => decide (t.last ≤ s.first)

/-- The trial functions that meet test support `s`: those of the following supports that start before
its end and have an element in common with it. -/
def meeting (s : Interval) (trial : List (Interval × Nat)) : List Nat :=
  ((trial.takeWhile fun (t, _) => decide (t.first < s.last)).filter
    fun (t, _) => !(s.intersect t).isEmpty).map Prod.snd

/-- The pairs of the test functions from number `i` on. -/
def candidatePairs : (i : Nat) → (test : List Interval) → (trial : List (Interval × Nat)) →
    List (Nat × Nat)
  | _, [], _ => []
  | i, s :: test, trial =>
    let rest := skipEnded s trial
    (meeting s rest).map (fun j => (i, j)) ++ candidatePairs (i + 1) test rest

/-- **All pairs with intersecting supports,** in lexicographic order, for supports whose ends do not
decrease. -/
def candidatesOfSupport (test trial : List Interval) : AxisCandidates :=
  .ofPairs (candidatePairs 0 test trial.zipIdx)

/-- The position of the pair `(trial, test)` for the pair `(test, trial)`; of several the first. -/
def mirrorPosition (c : AxisCandidates) (test trial : Nat) : Except Error Nat :=
  match c.pairs.findIdx? (· == (trial, test)) with
  | some position => .ok position
  | none => .error (.sparsity (.noMirror test trial))

/-- **Positions of the mirrored pairs.** Fails at the first pair whose mirror is not listed. -/
def transposeIndex (c : AxisCandidates) : Except Error (List Nat) := do
  require (c.test.size == c.trial.size) (.sparsity .transposeLengths)
  c.pairs.mapM fun (i, j) => mirrorPosition c i j

end Galerkin
