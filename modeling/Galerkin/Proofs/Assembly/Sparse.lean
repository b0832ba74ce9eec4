import Galerkin.Assembly.Matrix
import Galerkin.Proofs.Assembly.Batches
import Galerkin.Proofs.Index.Arrays
import Galerkin.Proofs.Index.Linear

/-! # Rows of a sparse assembly

A sparse assembly runs over chunks of the first axis; all chunks together visit every test function once,
in storage order. The batch succeeds when the rows of all test functions do, and its entries are theirs.

* **`Assembler.flatMap_firstAxisBoxes`** — the chunks visit all test functions;
* **`Assembler.sparseTriplets_result`** — the entries of an assembly, row after row;
* **`Assembler.row_of_sparseTriplets`** — an assembly that succeeds has all rows;
* **`Assembler.assembleSparse_result`** — the matrix is made from these entries. -/

namespace Galerkin

variable {α : Type}

namespace Assembler

/-! ## (1) Chunks of test functions -/

/-- A walk over a box that is not empty on any axis visits its cells. -/
theorem walk_eq_cells {box : List Interval} (h : ∀ s ∈ box, s.first < s.last) :
    MultiIndex.walk (box.map (·.first)) (box.map (·.last)) = boxCells box := by
  rw [MultiIndex.walk_eq_boxCells (by rw [List.length_map, List.length_map]), MultiIndex.walkBox,
    List.zipWith_map, List.zipWith_self]
  have hsame : box.map (fun s => (⟨s.first, max (s.first + 1) s.last⟩ : Interval)) = box.map id := by
    refine List.map_congr_left fun s hs => ?_
    rw [Nat.max_eq_right (h s hs)]
    rfl
  rw [hsame, List.map_id]

/-- **The cells that chunks of the first axis visit.** A later axis without cells counts as one with a
cell, since a walk visits its start. -/
def visitedCells : (extents : List Nat) → List (List Nat)
  | [] => []
  | n :: rest => boxCells (⟨0, n⟩ :: rest.map fun m => ⟨0, max 1 m⟩)

/-- With cells on every axis these are the nodes of the grid. -/
theorem visitedCells_eq_gridNodes {extents : List Nat} (hpos : ∀ n ∈ extents, 0 < n) :
    visitedCells extents = gridNodes extents := by
  cases extents with
  | nil => rfl
  | cons n rest =>
    rw [gridNodes_eq_boxCells (List.cons_ne_nil _ _), visitedCells, List.map_cons]
    refine congrArg (boxCells <| _ :: ·) (List.map_congr_left fun m hm => ?_)
    rw [Nat.max_eq_right (hpos m (List.mem_cons_of_mem _ hm))]

/-- No cell is visited twice. -/
theorem nodup_visitedCells (extents : List Nat) : (visitedCells extents).Nodup := by
  cases extents with
  | nil => exact List.nodup_nil
  | cons n rest => exact nodup_boxCells _

/-- **The chunks of the first axis together visit the same cells,** in the same order, however many there
are. -/
theorem flatMap_firstAxisBoxes (extents : List Nat) (chunks : Nat) :
    ((firstAxisBoxes extents chunks).flatMap fun box => MultiIndex.walk box.1 box.2) =
      visitedCells extents := by
  cases extents with
  | nil => rfl
  | cons n rest =>
    have hwalk : ∀ s ∈ chunkRanges n chunks,
        MultiIndex.walk (s.first :: rest.map fun _ => 0) (s.last :: rest) =
          s.indices.flatMap fun i => (boxCells (rest.map fun m => ⟨0, max 1 m⟩)).map (i :: ·) := by
      intro s hs
      have hlen : (s.first :: rest.map fun _ => 0).length = (s.last :: rest).length := by
        rw [List.length_cons, List.length_cons, List.length_map]
      rw [MultiIndex.walk_eq_boxCells hlen, MultiIndex.walkBox, List.zipWith_cons_cons,
        Nat.max_eq_right (mem_chunkRanges hs).1, List.zipWith_map_left, List.zipWith_self]
      rfl
    rw [visitedCells, boxCells, firstAxisBoxes, List.flatMap_map, List.flatMap_congr hwalk,
      ← List.flatMap_assoc, flatMap_chunkRanges, Interval.indices, Interval.size, List.range_eq_range',
      Nat.sub_zero]

/-- There is a chunk if there are cells. -/
theorem size_firstAxisBoxes_pos {extents : List Nat} (hne : extents ≠ []) (hpos : ∀ n ∈ extents, 0 < n)
    (chunks : Nat) : 0 < (firstAxisBoxes extents chunks).toArray.size := by
  rw [List.size_toArray, List.length_pos_iff]
  intro hnil
  have hcells := flatMap_firstAxisBoxes extents chunks
  have horigin : extents.map (fun _ => 0) ∈ gridNodes extents := by
    rw [mem_gridNodes hne, List.forall₂_map_left_iff, List.forall₂_same]
    exact hpos
  rw [hnil, List.flatMap_nil, visitedCells_eq_gridNodes hpos] at hcells
  rw [← hcells] at horigin
  cases horigin

/-! ## (2) Entries of all rows -/

variable [Scalar α] {a : Assembler α} {e : Evaluator α} {symmetric : Bool}

/-- The entries of a box are those of its rows, one after the other. -/
theorem boxTriplets_eq (box : List Nat × List Nat) : a.boxTriplets e symmetric box =
    (MultiIndex.walk box.1 box.2).mapM (a.rowTriplets e symmetric) >>= fun rows =>
      .ok rows.flatten.toArray := by
  have hfold : ∀ (tests : List (List Nat)) (start : Array (Triplet α)),
      tests.foldlM (fun triplets test => do
        return triplets ++ (← a.rowTriplets e symmetric test).toArray) start =
          tests.mapM (a.rowTriplets e symmetric) >>= fun rows => .ok (start ++ rows.flatten.toArray) := by
    intro tests
    induction tests with
    | nil => exact fun start => congrArg Except.ok (Array.append_empty ..).symm
    | cons test tests ih =>
      intro start
      rw [List.foldlM_cons, List.mapM_cons]
      cases a.rowTriplets e symmetric test with
      | error e => rfl
      | ok row =>
        refine (ih (start ++ row.toArray)).trans ?_
        cases tests.mapM (a.rowTriplets e symmetric) with
        | error e => rfl
        | ok rows =>
          refine congrArg Except.ok ?_
          rw [List.flatten_cons, ← List.append_toArray, Array.append_assoc]
  rw [boxTriplets, hfold]
  simp only [Array.empty_append]

/-- **The entries of an assembly are those of all rows,** one after the other, whatever the chunks. -/
theorem sparseTriplets_result {pool : WorkerPool} (he : a.workerEvaluator.result = .ok e) :
    (a.sparseTriplets pool).result =
      (visitedCells a.test.dofs).mapM (a.rowTriplets e (a.usesSymmetry pool)) >>= fun rows =>
        .ok rows.flatten.toArray := by
  set boxes := firstAxisBoxes a.test.dofs pool.chunkCount with hboxes
  have htask : ∀ box : List Nat × List Nat, (do
      let e ← a.workerEvaluator
      a.boxTriplets e (a.usesSymmetry pool) box : Outcome (Array (Triplet α))).result =
        (MultiIndex.walk box.1 box.2).mapM (a.rowTriplets e (a.usesSymmetry pool)) >>= fun rows =>
          .ok rows.flatten.toArray := by
    intro box
    rw [Outcome.bind_result, he, ← boxTriplets_eq]
    rfl
  have hparts := runChunks_inputs_result boxes ([], []) fun box => do
    let e ← a.workerEvaluator
    a.boxTriplets e (a.usesSymmetry pool) box
  simp only [htask, mapM_bind_ok] at hparts
  rw [sparseTriplets, Outcome.bind_result]
  refine (congrArg (· >>= _) hparts).trans ?_
  rw [← flatMap_firstAxisBoxes a.test.dofs pool.chunkCount, mapM_flatMap]
  cases boxes.mapM fun box => (MultiIndex.walk box.1 box.2).mapM (a.rowTriplets e (a.usesSymmetry pool)) with
  | error e => rfl
  | ok parts =>
    refine congrArg Except.ok ?_
    rw [foldl_append_eq, Array.empty_append, List.flatMap_map]
    exact congrArg List.toArray List.flatten_flatten.symm

/-- An assembly that succeeds has an evaluator for its workers. -/
theorem exists_worker_of_sparseTriplets {pool : WorkerPool} (hne : a.test.dofs ≠ [])
    (hpos : ∀ n ∈ a.test.dofs, 0 < n) {triplets : Array (Triplet α)}
    (h : (a.sparseTriplets pool).result = .ok triplets) : ∃ e, a.workerEvaluator.result = .ok e := by
  obtain ⟨_, hparts, -⟩ := Outcome.bind_eq_ok_iff.mp h
  exact exists_start_of_runChunks (size_firstAxisBoxes_pos hne hpos _) hparts

/-- An assembly of rows that all have entries. -/
theorem sparseTriplets_eq_ok {pool : WorkerPool} (hpos : ∀ n ∈ a.test.dofs, 0 < n)
    (he : a.workerEvaluator.result = .ok e) {row : List Nat → List (Triplet α)}
    (h : ∀ test ∈ gridNodes a.test.dofs,
      a.rowTriplets e (a.usesSymmetry pool) test = .ok (row test)) :
    (a.sparseTriplets pool).result = .ok ((gridNodes a.test.dofs).flatMap row).toArray := by
  rw [sparseTriplets_result he, visitedCells_eq_gridNodes hpos, mapM_eq_ok_map h]
  rfl

/-- **An assembly that succeeds has all rows.** -/
theorem row_of_sparseTriplets {pool : WorkerPool} (hpos : ∀ n ∈ a.test.dofs, 0 < n)
    (he : a.workerEvaluator.result = .ok e) {triplets : Array (Triplet α)}
    (h : (a.sparseTriplets pool).result = .ok triplets) :
    ∀ test ∈ gridNodes a.test.dofs, ∃ row, a.rowTriplets e (a.usesSymmetry pool) test = .ok row ∧
      ∀ t ∈ row, t ∈ triplets := by
  rw [sparseTriplets_result he, visitedCells_eq_gridNodes hpos] at h
  obtain ⟨rows, hrows, h⟩ := bind_eq_ok_iff.mp h
  obtain rfl := Except.ok.inj h
  intro test htest
  obtain ⟨row, hmem, hrow⟩ := exists_step_of_mapM hrows htest
  exact ⟨row, hrow, fun t ht => List.mem_toArray.mpr (List.mem_flatten.mpr ⟨row, hmem, ht⟩)⟩

/-- **The result of an assembly** is made from its entries; a report changes nothing. -/
theorem assembleSparse_bind (pool : WorkerPool) : (a.assembleSparse pool).result = (do
    a.requireBilinear "assembleSparse"
    let triplets ← (a.sparseTriplets pool).result
    SparseMatrix.ofTriplets triplets a.rows a.cols) := by
  have hreport : ∀ (m : SparseMatrix α), (do
      if pool.options.verbose then
        Outcome.report (.sparseAssembled a.name a.rows.toNat a.cols.toNat m.storedPositions
          pool.workers (a.usesSymmetry pool))
      pure m : Outcome (SparseMatrix α)).result = .ok m := by
    intro m
    cases pool.options.verbose with
    | false => rfl
    | true => rfl
  rw [assembleSparse, Outcome.bind_result]
  refine congrArg (_ >>= ·) (funext fun _ => ?_)
  rw [Outcome.bind_result]
  refine congrArg (_ >>= ·) (funext fun triplets => ?_)
  refine (Outcome.bind_result _ _).trans ?_
  simp only [hreport]
  exact bind_pure _

/-- The matrix of an assembly that has entries. -/
theorem assembleSparse_result {pool : WorkerPool} (harity : a.arity = .bilinear)
    {triplets : Array (Triplet α)} (h : (a.sparseTriplets pool).result = .ok triplets) :
    (a.assembleSparse pool).result = SparseMatrix.ofTriplets triplets a.rows a.cols := by
  have hcheck : a.requireBilinear "assembleSparse" = .ok () := by
    rw [requireBilinear, harity]
    rfl
  rw [assembleSparse_bind, hcheck, h]
  rfl

end Assembler

end Galerkin
