import Galerkin.Assembly.Assembler
import Galerkin.Proofs.Assembly.Pools
import Galerkin.Proofs.Exact
import Mathlib.Algebra.Field.Rat
import Mathlib.Algebra.Order.Ring.Rat

/-! # Batches of queries

A batch of queries for entries looks at all pairs before it evaluates any. Then the caller evaluates the
pairs alone or, with several workers and enough pairs, the batch is cut into chunks, each of which stops at
its first failure. For an assembler that all workers share this has the outcome of the pairs one after the
other, since the first failure of the first chunk that fails is the first failure of all.

* **`attempted`** — what a traversal evaluates before it stops;
* **`Assembler.flatMap_chunkPairs`** — the chunks of a batch make up the batch;
* **`Assembler.Queried`** — the batches that a pool can do, with the pairs they evaluate;
* **`Assembler.Queried.outcome_eq`** — all have the same outcome;
* **`Assembler.multiEntries_eq_entries`** — it is that of single queries. -/

namespace Galerkin

variable {α β γ ε : Type}

/-! ## (1) Attempts -/

/-- **What a traversal attempts:** everything up to the first step that fails. -/
def attempted (f : β → Except ε γ) : List β → List β
  | [] => []
  | x :: xs =>
    match f x with
    | .ok _ => x :: attempted f xs
    | .error _ => [x]

/-- A traversal without failures attempts everything. -/
theorem attempted_eq_self {f : β → Except ε γ} {xs : List β} (h : ∀ x ∈ xs, ∃ y, f x = .ok y) :
    attempted f xs = xs := by
  induction xs with
  | nil => rfl
  | cons x xs ih =>
    obtain ⟨y, hy⟩ := h x List.mem_cons_self
    rw [attempted, hy, ih fun z hz => h z (List.mem_cons_of_mem _ hz)]

/-! ## (2) Chunks of a batch -/

/-- The elements with numbers in a range. -/
def partOf (xs : List β) (range : Interval) : List β :=
  (xs.toArray.extract range.first range.last).toList

theorem partOf_eq_map {xs : List β} {range : Interval} (d : β) (h : range.last ≤ xs.length) :
    partOf xs range = range.indices.map fun p => xs.toArray.getD p d := by
  rw [partOf, Array.toList_extract, List.extract_eq_take_drop]
  refine List.ext_getElem ?_ fun p _ hp => ?_
  · rw [List.length_take, List.length_drop, List.length_map, Interval.indices, List.length_range',
      Interval.size]
    exact Nat.min_eq_left (Nat.sub_le_sub_right h _)
  · rw [List.length_map, Interval.indices, List.length_range', Interval.size] at hp
    have hin : range.first + p < xs.length := by omega
    rw [List.getElem_take, List.getElem_drop, List.getElem_map]
    simp only [Interval.indices, List.getElem_range', Nat.one_mul]
    rw [Array.getD_eq_getD_getElem?, List.getElem?_toArray, List.getElem?_eq_getElem hin, Option.getD_some]

/-- **The chunks of a list make up the list.** -/
theorem flatMap_partOf (xs : List β) (k : Nat) : (chunkRanges xs.length k).flatMap (partOf xs) = xs := by
  rcases xs with _ | ⟨d, xs⟩
  · rfl
  · have hparts : ∀ range ∈ chunkRanges (d :: xs).length k,
        partOf (d :: xs) range = range.indices.map fun p => (d :: xs).toArray.getD p d :=
      fun range hrange => partOf_eq_map d (mem_chunkRanges hrange).2
    rw [List.flatMap_congr hparts, ← List.map_flatMap, flatMap_chunkRanges]
    exact map_getD_range (d :: xs) d

/-- The elements of a chunk. -/
def chunkOf (xs : List β) (k c : Nat) : List β := partOf xs (rangeAt (chunkRanges xs.length k) c)

/-- The numbers of the chunks stand for the chunks. -/
theorem map_chunkOf (xs : List β) (k : Nat) :
    (List.range (chunkRanges xs.length k).length).map (chunkOf xs k) =
      (chunkRanges xs.length k).map (partOf xs) := by
  have hget : rangeAt (chunkRanges xs.length k) =
      fun c => (chunkRanges xs.length k).toArray.getD c ⟨0, 0⟩ := by
    funext c
    rw [rangeAt, Array.getD_eq_getD_getElem?, List.getElem?_toArray, List.getD_eq_getElem?_getD]
  have hranges := map_getD_range (chunkRanges xs.length k) ⟨0, 0⟩
  rw [← hget] at hranges
  conv_rhs => rw [← hranges, List.map_map]
  rfl

/-- **The chunks of a batch make up the batch.** -/
theorem flatMap_chunkOf (xs : List β) (k : Nat) :
    (List.range (chunkRanges xs.length k).length).flatMap (chunkOf xs k) = xs := by
  rw [List.flatMap_def, map_chunkOf, ← List.flatMap_def, flatMap_partOf]

/-- **A traversal in chunks** is the traversal of all elements. -/
theorem mapM_chunkOf (f : β → Except ε γ) (xs : List β) (k : Nat) :
    (((List.range (chunkRanges xs.length k).length).mapM fun c => (chunkOf xs k c).mapM f) >>=
      fun parts => .ok parts.flatten) = xs.mapM f := by
  rw [← mapM_flatMap, flatMap_chunkOf]

namespace Assembler

/-! ## (3) Queries -/

variable [Scalar α]

/-- The entry of a pair. -/
def query (a : Assembler α) (pair : GlobalIndex × GlobalIndex) : Except Error α := a.entry pair.1 pair.2

/-- **The batches of queries that a pool can do,** with the pairs that are evaluated. A batch with a pair
outside the matrix is refused. Else the caller evaluates the pairs alone, or every worker those of the chunks
it takes, all with the assembler itself; a chunk stops at its first failure. One chunk alone is a run too. -/
inductive Queried (a : Assembler α) (pairs : List (GlobalIndex × GlobalIndex)) (pool : Option WorkerPool) :
    List (GlobalIndex × GlobalIndex) → Outcome (List α) → Prop
  | refused {cause : Error} (hpairs : a.checkPairs pairs = .error cause) :
      Queried a pairs pool [] ⟨[], .error cause⟩
  | alone (hpairs : a.checkPairs pairs = .ok ()) (hpool : poolFor pool pairs.length = none) :
      Queried a pairs pool (attempted a.query pairs) ⟨[], pairs.mapM a.query⟩
  | chunked {p : WorkerPool} {as : List (BatchAction (GlobalIndex × GlobalIndex))}
      {t : BatchState (GlobalIndex × GlobalIndex) (List α)} (hpairs : a.checkPairs pairs = .ok ())
      (hpool : poolFor pool pairs.length = some p)
      (hrun : BatchRun (fun c => attempted a.query (chunkOf pairs (WorkerPool.countOf p.workers) c))
        (fun c => (chunkOf pairs (WorkerPool.countOf p.workers) c).mapM a.query) p.workers.toNat
        (batchStart (chunkRanges pairs.length (WorkerPool.countOf p.workers)).length) as t)
      (hfinished : t.Finished) :
      Queried a pairs pool t.log (t.close >>= fun parts => pure parts.flatten)

variable {a : Assembler α} {pairs : List (GlobalIndex × GlobalIndex)} {pool : Option WorkerPool}

/-- A worker of an assembler that is shared queries the assembler itself. -/
theorem task_of_shared (hshared : a.access = .shared) (range : Interval) :
    (do
      let e ← a.workerEvaluator
      a.entriesBy e (pairs.toArray.extract range.first range.last).toList : Outcome (List α)) =
        ⟨[], (partOf pairs range).mapM a.query⟩ := by
  rw [workerEvaluator, hshared]
  rfl

/-- A batch that is refused. -/
theorem multiEntries_refused {cause : Error} (h : a.checkPairs pairs = .error cause) :
    a.multiEntries pairs pool = ⟨[], .error cause⟩ := by
  rw [multiEntries, h]
  rfl

/-- A batch without a pool for it. -/
theorem multiEntries_alone (h : a.checkPairs pairs = .ok ()) (hpool : poolFor pool pairs.length = none) :
    a.multiEntries pairs pool = ⟨[], pairs.mapM a.query⟩ := by
  rw [multiEntries, h, hpool]
  rfl

/-- The tasks of a batch of a shared assembler report nothing. -/
theorem runRanges_of_shared (hshared : a.access = .shared) (k : Nat) :
    (runRanges (chunkRanges pairs.length k) fun range => do
      let e ← a.workerEvaluator
      a.entriesBy e (pairs.toArray.extract range.first range.last).toList : Outcome (List (List α))) =
        ⟨batchReport (chunkRanges pairs.length k).length fun c => (chunkOf pairs k c).mapM a.query,
          (List.range (chunkRanges pairs.length k).length).mapM fun c => (chunkOf pairs k c).mapM a.query⟩ := by
  simp only [task_of_shared hshared]
  rw [runRanges, runChunks_eq, List.flatMap_eq_nil_iff.mpr fun _ _ => rfl]
  rfl

/-- **Every batch of queries has the outcome of the program.** -/
theorem Queried.outcome_eq (hshared : a.access = .shared) {visited : List (GlobalIndex × GlobalIndex)}
    {outcome : Outcome (List α)} (h : Queried a pairs pool visited outcome) :
    outcome = a.multiEntries pairs pool := by
  cases h with
  | refused hpairs => exact (multiEntries_refused hpairs).symm
  | alone hpairs hpool => exact (multiEntries_alone hpairs hpool).symm
  | chunked hpairs hpool hrun hfinished =>
    rw [multiEntries, hpairs, hpool, hrun.close_eq hfinished]
    simp only [runRanges_of_shared hshared]
    rfl

/-- **The result of a batch** that is not refused is that of its queries one after the other. -/
theorem multiEntries_result (hshared : a.access = .shared) (h : a.checkPairs pairs = .ok ()) :
    (a.multiEntries pairs pool).result = pairs.mapM a.query := by
  cases hpool : poolFor pool pairs.length with
  | none => rw [multiEntries_alone h hpool]
  | some p =>
    rw [multiEntries, h, hpool]
    simp only [runRanges_of_shared hshared]
    rw [← mapM_chunkOf a.query pairs (WorkerPool.countOf p.workers)]
    exact (Outcome.bind_result _ _).trans (Outcome.bind_result _ _)

/-- **Some batch of queries is always done.** -/
theorem exists_queried (a : Assembler α) (pairs : List (GlobalIndex × GlobalIndex))
    (pool : Option WorkerPool) : ∃ visited outcome, Queried a pairs pool visited outcome := by
  cases hpairs : a.checkPairs pairs with
  | error cause => exact ⟨_, _, .refused hpairs⟩
  | ok =>
    cases hpool : poolFor pool pairs.length with
    | none => exact ⟨_, _, .alone hpairs hpool⟩
    | some p =>
      have hworkers : 0 < p.workers.toNat := by
        have h := (Option.filter_eq_some_iff.mp hpool).2
        rw [Bool.and_eq_true, decide_eq_true_iff] at h
        omega
      obtain ⟨as, t, hrun, hfinished⟩ := exists_finished_run hworkers _
      exact ⟨_, _, .chunked hpairs hpool hrun hfinished⟩

/-- A batch without failures evaluates each of its pairs once. -/
theorem Queried.visited_perm {visited : List (GlobalIndex × GlobalIndex)} {outcome : Outcome (List α)}
    (h : Queried a pairs pool visited outcome) (hpairs : a.checkPairs pairs = .ok ())
    (hvalues : ∀ q ∈ pairs, ∃ value, a.query q = .ok value) : visited.Perm pairs := by
  cases h with
  | refused hrefused => cases hpairs.symm.trans hrefused
  | alone _ _ => rw [attempted_eq_self hvalues]
  | @chunked p as t _ _ hrun hfinished =>
    have hall : ∀ c ∈ List.range (chunkRanges pairs.length (WorkerPool.countOf p.workers)).length,
        attempted a.query (chunkOf pairs (WorkerPool.countOf p.workers) c) =
          chunkOf pairs (WorkerPool.countOf p.workers) c := by
      refine fun c hc => attempted_eq_self fun q hq => hvalues q ?_
      rw [← flatMap_chunkOf pairs (WorkerPool.countOf p.workers)]
      exact List.mem_flatMap.mpr ⟨c, hc, hq⟩
    have hlog := hrun.log_perm hfinished
    rwa [List.flatMap_congr hall, flatMap_chunkOf] at hlog

/-! ## (4) Batches and single queries -/

/-- A pair inside the matrix. -/
def Inside (a : Assembler α) (q : GlobalIndex × GlobalIndex) : Prop := q.1 < a.rows ∧ q.2 < a.cols

/-- The failure of a pair that is not: its row counts before its column. -/
def outsideError (a : Assembler α) (q : GlobalIndex × GlobalIndex) : Error :=
  if q.1 < a.rows then .index .pairColumn q.2 a.cols else .index .pairRow q.1 a.rows

omit [Scalar α] in
/-- Pairs inside the matrix are not refused. -/
theorem checkPairs_of_inside (h : ∀ q ∈ pairs, a.Inside q) : a.checkPairs pairs = .ok () :=
  forM_eq_ok_iff.mpr fun q hq => bind_eq_ok_iff.mpr
    ⟨(), checkWord_eq_ok_iff.mpr (h q hq).1, checkWord_eq_ok_iff.mpr (h q hq).2⟩

omit [Scalar α] in
/-- **The first pair outside the matrix** is the reason of a refusal. -/
theorem checkPairs_of_outside {n : Nat} {q : GlobalIndex × GlobalIndex} (hq : pairs[n]? = some q)
    (hout : ¬a.Inside q) (hbefore : ∀ m < n, ∀ r, pairs[m]? = some r → a.Inside r) :
    a.checkPairs pairs = .error (a.outsideError q) := by
  refine forM_eq_error hq ?_ fun m hm r hr => bind_eq_ok_iff.mpr
    ⟨(), checkWord_eq_ok_iff.mpr (hbefore m hm r hr).1, checkWord_eq_ok_iff.mpr (hbefore m hm r hr).2⟩
  simp only [checkWord, outsideError]
  by_cases hrow : q.1 < a.rows
  · have hcol : ¬q.2 < a.cols := fun hcol => hout ⟨hrow, hcol⟩
    rw [decide_eq_true hrow, decide_eq_false hcol, if_pos hrow]
    rfl
  · rw [decide_eq_false hrow, if_neg hrow]
    rfl

/-- **A batch of queries is its single queries,** for an assembler that all workers share, whatever the pool
and the schedule. All batches that a pool can do have the outcome of the program, and there is one. Their
result is the same for all pools. If a pair is outside the matrix, it is the failure of the first such pair,
and no pair is evaluated. Otherwise, if all queries succeed, it is their entries in the order of the pairs,
each evaluated once; and if one fails, it is the failure of the first one that does. -/
theorem multiEntries_eq_entries (hshared : a.access = .shared) (pairs : List (GlobalIndex × GlobalIndex)) :
    ∃ result : Except Error (List α),
      (∀ pool, (a.multiEntries pairs pool).result = result ∧
        (∃ visited, Queried a pairs pool visited (a.multiEntries pairs pool)) ∧
        ∀ visited outcome, Queried a pairs pool visited outcome → outcome = a.multiEntries pairs pool) ∧
      (∀ (n : Nat) q, pairs[n]? = some q → ¬a.Inside q → (∀ m < n, ∀ r, pairs[m]? = some r → a.Inside r) →
        result = .error (a.outsideError q) ∧
        ∀ pool visited outcome, Queried a pairs pool visited outcome → visited = [] ∧ outcome.events = []) ∧
      ((∀ q ∈ pairs, a.Inside q) →
        (∀ value : GlobalIndex × GlobalIndex → α, (∀ q ∈ pairs, a.entry q.1 q.2 = .ok (value q)) →
          result = .ok (pairs.map value) ∧
          ∀ pool visited outcome, Queried a pairs pool visited outcome → visited.Perm pairs) ∧
        ∀ (n : Nat) q e, pairs[n]? = some q → a.entry q.1 q.2 = .error e →
          (∀ m < n, ∀ r, pairs[m]? = some r → ∃ value, a.entry r.1 r.2 = .ok value) →
          result = .error e) := by
  have hresult : ∀ pool, (a.multiEntries pairs pool).result = (a.multiEntries pairs none).result := by
    intro pool
    cases hpairs : a.checkPairs pairs with
    | error cause => rw [multiEntries_refused hpairs, multiEntries_refused hpairs]
    | ok => rw [multiEntries_result hshared hpairs, multiEntries_result hshared hpairs]
  refine ⟨(a.multiEntries pairs none).result, fun pool => ⟨hresult pool, ?_, fun visited outcome h =>
    h.outcome_eq hshared⟩, fun n q hq hout hbefore => ?_, fun hinside => ⟨fun value hvalue => ⟨?_, ?_⟩, ?_⟩⟩
  · obtain ⟨visited, outcome, h⟩ := exists_queried a pairs pool
    exact ⟨visited, h.outcome_eq hshared ▸ h⟩
  · have hrefused := checkPairs_of_outside hq hout hbefore
    refine ⟨by rw [multiEntries_refused hrefused], fun pool visited outcome h => ?_⟩
    cases h with
    | refused _ => exact ⟨rfl, rfl⟩
    | alone hpairs _ => cases hpairs.symm.trans hrefused
    | chunked hpairs _ _ _ => cases hpairs.symm.trans hrefused
  · rw [multiEntries_result hshared (checkPairs_of_inside hinside)]
    exact mapM_eq_ok_map hvalue
  · exact fun pool visited outcome h => h.visited_perm (checkPairs_of_inside hinside)
      fun q hq => ⟨value q, hvalue q hq⟩
  · intro n q e hq he hbefore
    rw [multiEntries_result hshared (checkPairs_of_inside hinside)]
    exact mapM_eq_error hq he hbefore

instance (a : Assembler α) (q : GlobalIndex × GlobalIndex) : Decidable (a.Inside q) :=
  inferInstanceAs (Decidable (q.1 < a.rows ∧ q.2 < a.cols))

omit [Scalar α] in
/-- Pairs that are inside one by one. -/
theorem inside_of_all (h : (pairs.all fun q => decide (a.Inside q)) = true) : ∀ q ∈ pairs, a.Inside q :=
  fun q hq => of_decide_eq_true (List.all_eq_true.mp h q hq)

/-- Three functions on one axis; an entry of a function with itself cannot be evaluated. -/
def offDiagonalAssembler : Assembler ℚ where
  name := "off-diagonal"
  arity := .bilinear
  test := ⟨[3], 1⟩
  trial := ⟨[3], 1⟩
  symmetric := false
  meshSupport _ _ := .ok #[]
  neighborRange _ _ := .ok ⟨0, 3⟩
  evaluator.block test trial := if test = trial then .error (.assembly (.noClone s!"{test}")) else .ok #[1]
  evaluator.components _ := .ok #[]

/-- Two queries of the first batch fail, and the first one counts. A pair of the second batch is outside the
matrix, so no query of it counts. The third batch has its entries. -/
theorem multiEntries_off_diagonal :
    (∀ pool, (offDiagonalAssembler.multiEntries [(0, 1), (1, 1), (2, 2)] pool).result =
        .error (.assembly (.noClone "[1]"))) ∧
      (∀ pool, (offDiagonalAssembler.multiEntries [(1, 1), (0, 3), (7, 0)] pool).result =
        .error (.index .pairColumn 3 3)) ∧
      ∀ pool, (offDiagonalAssembler.multiEntries [(2, 1), (0, 2)] pool).result = .ok [1, 1] := by
  refine ⟨fun pool => ?_, fun pool => ?_, fun pool => ?_⟩
  · obtain ⟨_, hpool, -, hinside⟩ := @multiEntries_eq_entries ℚ _ offDiagonalAssembler rfl
      [(0, 1), (1, 1), (2, 2)]
    rw [(hpool pool).1]
    refine (hinside (inside_of_all (by decide +kernel))).2 1 (1, 1) _ rfl rfl fun m hm r hr => ?_
    obtain rfl : m = 0 := by omega
    obtain rfl := Option.some.inj hr
    exact ⟨1, rfl⟩
  · obtain ⟨_, hpool, houtside, -⟩ := @multiEntries_eq_entries ℚ _ offDiagonalAssembler rfl
      [(1, 1), (0, 3), (7, 0)]
    rw [(hpool pool).1]
    refine (houtside 1 (0, 3) rfl (by decide +kernel) fun m hm r hr => ?_).1
    obtain rfl : m = 0 := by omega
    obtain rfl := Option.some.inj hr
    decide +kernel
  · obtain ⟨_, hpool, -, hinside⟩ := @multiEntries_eq_entries ℚ _ offDiagonalAssembler rfl [(2, 1), (0, 2)]
    rw [(hpool pool).1]
    refine ((hinside (inside_of_all (by decide +kernel))).1 (fun _ => 1) fun q hq => ?_).1
    rcases List.mem_pair.mp hq with rfl | rfl
    · rfl
    · rfl

end Assembler

end Galerkin
