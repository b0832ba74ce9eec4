import Galerkin.Proofs.Assembly.Entries
import Galerkin.Proofs.Assembly.Queries
import Galerkin.Proofs.Assembly.Writes
import Galerkin.Proofs.Index.Arrays

/-! # Load vectors

The vector of a linear form is filled function by function: the components of a function go to a block of the
vector, the caller alone or the workers of a pool in any order. Each block is written once, so the vector does
not depend on the order, and it has the components one after the other. A chunk stops at its first failure,
and the first failure of the first chunk that fails is that of the first function that fails. A single query
looks up the function and the component of a row.

* **`Assembler.load`** — the write of a function;
* **`Assembler.joinedLoads`** — the components of all functions, which are the result of the program;
* **`Assembler.foldl_writeBlock_eq_flatMap`** — blocks written to their places are the blocks one after the
  other;
* **`Assembler.VectorRun`** — the assemblies that a pool can do;
* **`Assembler.count_lt_size_iff`** — all functions have places in the vector;
* **`Assembler.VectorRun.outcome_eq`** — all have the same outcome;
* **`Assembler.entry1_eq`** — a single query;
* **`Assembler.assembleVector_eq_entries`** — the vector has the entries of single queries. -/

namespace Galerkin

variable {α : Type}

namespace Assembler

/-! ## (1) Functions and chunks -/

/-- The number of functions. -/
def functionCount (a : Assembler α) : Nat := a.test.functions.toNat

/-- The indices of the function with some number. -/
def functionIndex (a : Assembler α) (k : Nat) : List Nat :=
  (MultiIndex.multiIndex (UInt64.ofNat k) a.test.words).map UInt64.toNat

/-- The write of a function: its components go to the block with its number. -/
def load (a : Assembler α) (k : Nat) : Except Error (BlockWrite α) :=
  a.evaluator.components (a.functionIndex k) >>= fun values => .ok (k, values)

/-- The writes of some functions, up to the first failure. -/
def loadsOf (a : Assembler α) (ks : List Nat) : List (BlockWrite α) :=
  (attempted a.load ks).filterMap fun k => (a.load k).toOption

/-- Whether every function that can be evaluated has all its components. -/
def FillsLoads (a : Assembler α) : Prop :=
  ∀ test values, a.evaluator.components test = .ok values → values.size = a.test.components

/-- The functions of a chunk. -/
def chunkFunctions (a : Assembler α) (p : WorkerPool) (c : Nat) : List Nat :=
  chunkOf (List.range a.functionCount) p.chunkCount c

/-- The number of chunks. -/
def vectorChunks (a : Assembler α) (p : WorkerPool) : Nat :=
  (chunkRanges a.functionCount p.chunkCount).length

variable {a : Assembler α} {pool : Option WorkerPool}

/-! ## (2) The vector of the program -/

/-- The write of a function has its number and its components. -/
theorem load_eq_ok_iff {k : Nat} {w : BlockWrite α} :
    a.load k = .ok w ↔ w.1 = k ∧ a.evaluator.components (a.functionIndex k) = .ok w.2 := by
  rw [load, bind_eq_ok_iff]
  constructor
  · rintro ⟨values, hvalues, hw⟩
    obtain rfl := Except.ok.inj hw
    exact ⟨rfl, hvalues⟩
  · rintro ⟨rfl, hvalues⟩
    exact ⟨w.2, hvalues, rfl⟩

/-- The components of a function are the block of its write. -/
theorem components_eq_load (k : Nat) :
    a.evaluator.components (a.functionIndex k) = a.load k >>= fun w => .ok w.2 := by
  rw [load]
  cases a.evaluator.components (a.functionIndex k) <;> rfl

/-- The components of the functions in a range, one after the other. -/
theorem vectorPart_eq (range : Interval) : a.vectorPart a.evaluator range =
    range.indices.mapM a.load >>= fun writes => .ok (writes.flatMap fun w => w.2.toList) := by
  have hparts : (range.indices.mapM fun k => a.evaluator.components (a.functionIndex k)) =
      range.indices.mapM a.load >>= fun writes => .ok (writes.map (·.2)) := by
    rw [← mapM_bind_ok]
    exact mapM_congr fun k _ => components_eq_load k
  have hpart : a.vectorPart a.evaluator range =
      (range.indices.mapM fun k => a.evaluator.components (a.functionIndex k)) >>= fun parts =>
        .ok (parts.flatMap Array.toList) := rfl
  rw [hpart, hparts]
  cases range.indices.mapM a.load with
  | error e => rfl
  | ok writes => exact congrArg Except.ok (List.flatMap_map ..)

/-- The functions of a chunk are those in its range. -/
theorem chunkFunctions_eq (p : WorkerPool) (c : Nat) :
    a.chunkFunctions p c = (rangeAt (chunkRanges a.functionCount p.chunkCount) c).indices := by
  have hlast : (rangeAt (chunkRanges a.functionCount p.chunkCount) c).last ≤ a.functionCount := by
    rw [rangeAt, List.getD_eq_getElem?_getD]
    cases hrange : (chunkRanges a.functionCount p.chunkCount)[c]? with
    | none => exact Nat.zero_le _
    | some range => exact (mem_chunkRanges (List.mem_of_getElem? hrange)).2
  rw [chunkFunctions, chunkOf, List.length_range, partOf_eq_map 0 (hlast.trans_eq List.length_range.symm)]
  refine (List.map_congr_left fun k hk => ?_).trans (List.map_id _)
  have hk : k < a.functionCount := by
    rw [Interval.indices, List.mem_range'_1, Interval.size] at hk
    omega
  rw [Array.getD_eq_getD_getElem?, List.getElem?_toArray, List.getElem?_range hk]
  rfl

/-- **The chunks one after the other** are all functions. -/
theorem mapM_chunkFunctions (p : WorkerPool) :
    (((List.range (a.vectorChunks p)).mapM fun c => (a.chunkFunctions p c).mapM a.load) >>= fun parts =>
      .ok parts.flatten) = (List.range a.functionCount).mapM a.load := by
  have hchunks := mapM_chunkOf a.load (List.range a.functionCount) p.chunkCount
  rwa [List.length_range] at hchunks

/-- Converting a result keeps the cause of a failure. -/
theorem causeOf_bind_ok {β γ : Type} (x : Except Error β) (f : β → γ) :
    causeOf (x >>= fun y => .ok (f y)) = causeOf x := by
  cases x <;> rfl

/-- Tasks with the same causes of failures have the same report. -/
theorem batchReport_congr {β γ : Type} {chunks : Nat} {result : Nat → Except Error β}
    {result' : Nat → Except Error γ} (h : ∀ c, causeOf (result c) = causeOf (result' c)) :
    batchReport chunks result = batchReport chunks result' := by
  have hcount : failedCount chunks result = failedCount chunks result' := by
    simp only [failedCount, h]
  rw [batchReport, batchReport, hcount]

/-- **The result of the program:** the components of all functions, one after the other. -/
def joinedLoads (a : Assembler α) : Except Error (List α) :=
  (List.range a.functionCount).mapM a.load >>= fun writes => .ok (writes.flatMap fun w => w.2.toList)

/-- The failures of the chunks of a pool. -/
def vectorReport (a : Assembler α) (p : WorkerPool) : List Event :=
  batchReport (a.vectorChunks p) fun c => (a.chunkFunctions p c).mapM a.load

/-- The vector without several workers. -/
theorem assembleVector_alone (harity : a.arity = .linear)
    (hpool : (pool.filter fun p => decide (1 < p.workers)) = none) :
    a.assembleVector pool = ⟨[], a.joinedLoads⟩ := by
  have hall : (⟨0, a.functionCount⟩ : Interval).indices = List.range a.functionCount := by
    rw [Interval.indices, Interval.size, Nat.sub_zero, List.range_eq_range']
  have hpart := vectorPart_eq (a := a) ⟨0, a.functionCount⟩
  rw [hall] at hpart
  rw [assembleVector, harity, hpool]
  exact congrArg (Outcome.mk []) hpart

/-- The task of a chunk. -/
theorem vectorTask_eq (hshared : a.access = .shared) (p : WorkerPool) (c : Nat) :
    (do
      let e ← a.workerEvaluator
      a.vectorPart e (rangeAt (chunkRanges a.functionCount p.chunkCount) c) : Outcome (List α)) =
        ⟨[], (a.chunkFunctions p c).mapM a.load >>= fun writes => .ok (writes.flatMap fun w => w.2.toList)⟩ := by
  rw [workerEvaluator, hshared, chunkFunctions_eq, ← vectorPart_eq]
  rfl

/-- The vector with several workers. -/
theorem assembleVector_chunked (harity : a.arity = .linear) (hshared : a.access = .shared) {p : WorkerPool}
    (hpool : (pool.filter fun p => decide (1 < p.workers)) = some p) :
    a.assembleVector pool = ⟨a.vectorReport p, a.joinedLoads⟩ := by
  have htasks : (runRanges (chunkRanges a.functionCount p.chunkCount) fun range => do
      let e ← a.workerEvaluator
      a.vectorPart e range) = ⟨a.vectorReport p, ((List.range (a.vectorChunks p)).mapM fun c =>
        (a.chunkFunctions p c).mapM a.load) >>= fun parts =>
          .ok (parts.map fun writes => writes.flatMap fun w => w.2.toList)⟩ := by
    simp only [runRanges, vectorTask_eq hshared]
    -- The chunks report nothing themselves, so that only the report of their failures is left.
    rw [runChunks_eq, List.flatMap_eq_nil_iff.mpr fun _ _ => rfl, List.nil_append, mapM_bind_ok, vectorReport]
    exact congrArg (Outcome.mk · _) (batchReport_congr fun c => causeOf_bind_ok _ _)
  have hresult : (a.assembleVector pool) = (runRanges (chunkRanges a.functionCount p.chunkCount) fun range => do
      let e ← a.workerEvaluator
      a.vectorPart e range) >>= fun parts => pure parts.flatten := by
    rw [assembleVector, harity, hpool]
    rfl
  rw [hresult, htasks, joinedLoads, ← mapM_chunkFunctions p]
  cases (List.range (a.vectorChunks p)).mapM fun c => (a.chunkFunctions p c).mapM a.load with
  | error e => rfl
  | ok parts =>
    have hjoin : (parts.map fun writes => writes.flatMap fun w => w.2.toList).flatten =
        parts.flatten.flatMap fun w => w.2.toList := by
      rw [← List.flatMap_def, ← List.flatMap_id, List.flatMap_assoc]
      rfl
    show Outcome.mk (a.vectorReport p ++ []) (.ok _) = ⟨a.vectorReport p, .ok _⟩
    rw [List.append_nil, hjoin]

/-! ## (3) Blocks in their places -/

section Places

variable {n m : Nat} {ws : List (BlockWrite α)} (hsize : ∀ w ∈ ws, w.2.size = n)
  (hplaces : ws.map (·.1) = List.range m)
include hplaces

/-- The block with some number goes to the place with this number. -/
theorem place_eq {i : Nat} {w : BlockWrite α} (hw : ws[i]? = some w) : w.1 = i := by
  have hi : (ws.map (·.1))[i]? = some w.1 := by rw [List.getElem?_map, hw, Option.map_some]
  rw [hplaces] at hi
  obtain ⟨hlt, hi⟩ := List.getElem?_eq_some_iff.mp hi
  exact hi.symm.trans (List.getElem_range hlt)

include hsize

/-- Full blocks with their numbers as places can be written in any order. -/
theorem consistentWrites_of_places : ConsistentWrites n ws := by
  refine ⟨hsize, fun w hw v hv h => ?_⟩
  obtain ⟨i, hi⟩ := List.getElem?_of_mem hw
  obtain ⟨j, hj⟩ := List.getElem?_of_mem hv
  obtain rfl : i = j := (place_eq hplaces hi).symm.trans (h.trans (place_eq hplaces hj))
  exact Option.some.inj (hi.symm.trans hj)

/-- **Blocks written to their places** are the blocks one after the other. -/
theorem foldl_writeBlock_eq_flatMap {entries : Array α} (hentries : entries.size = m * n) :
    (ws.foldl (writeBlock n) entries).toList = ws.flatMap fun w => w.2.toList := by
  have hcount : ws.length = m := by
    rw [← List.length_range (n := m), ← hplaces, List.length_map]
  have hlengths : ∀ w ∈ ws, w.2.toList.length = n := fun w hw => Array.length_toList.trans (hsize w hw)
  refine List.ext_getElem? fun k => ?_
  rw [Array.getElem?_toList]
  by_cases hk : k < m * n
  · -- Position `k` is in the block with number `k / n`, and no other write touches it.
    have hn : 0 < n := Nat.pos_of_mul_pos_left (Nat.zero_lt_of_lt hk)
    have hw : k / n < ws.length := hcount ▸ Nat.div_lt_of_lt_mul (Nat.mul_comm m n ▸ hk)
    have hk' : ws[k / n].1 * n + k % n = k := by
      rw [place_eq hplaces (List.getElem?_eq_getElem hw), Nat.mul_comm]
      exact Nat.div_add_mod k n
    rw [getElem?_flatMap hn hlengths, List.getElem?_eq_getElem hw, Option.bind_some, Array.getElem?_toList]
    conv_lhs => rw [← hk']
    exact (consistentWrites_of_places hsize hplaces).getElem?_of_mem (List.getElem_mem hw) (Nat.mod_lt k hn)
      (hk'.trans_lt (hentries ▸ hk))
  · have hlength : (ws.flatMap fun w => w.2.toList).length = m * n := by
      rw [length_flatMap_of_length hlengths, hcount]
    rw [Array.getElem?_eq_none (by rw [size_foldl_writeBlock]; omega), List.getElem?_eq_none (by omega)]

end Places

/-- Steps that all succeed leave their results. -/
theorem filterMap_of_mapM {β γ : Type} {f : β → Except Error γ} {xs : List β} {ys : List γ}
    (h : xs.mapM f = .ok ys) : (xs.filterMap fun x => (f x).toOption) = ys := by
  have hall := mapM_eq_ok_iff.mp h
  clear h
  induction hall with
  | nil => rfl
  | cons hx _ ih => rw [List.filterMap_cons, hx, ih]; rfl

/-- The writes of the first functions have their numbers as places. -/
theorem places_of_loads {n : Nat} {writes : List (BlockWrite α)} (h : (List.range n).mapM a.load = .ok writes) :
    writes.map (·.1) = List.range n := by
  have hnumbers : (List.range n).mapM (fun k => a.load k >>= fun w => .ok w.1) = .ok (writes.map (·.1)) := by
    rw [mapM_bind_ok, h]
    rfl
  refine (eq_map_of_mapM_eq_ok (g := id) hnumbers fun k i hk => ?_).trans (List.map_id _)
  obtain ⟨w, hw, hi⟩ := bind_eq_ok_iff.mp hk
  exact (load_eq_ok_iff.mp hw).1.symm.trans (Except.ok.inj hi)

/-- The write of each of the first functions is the one with its number. -/
theorem getElem?_of_loads {n i : Nat} {writes : List (BlockWrite α)}
    (h : (List.range n).mapM a.load = .ok writes) (hi : i < n) : ∃ w, writes[i]? = some w ∧ a.load i = .ok w := by
  obtain ⟨w, hw, hload⟩ := exists_step_of_mapM h (List.mem_range.mpr hi)
  obtain ⟨j, hj⟩ := List.getElem?_of_mem hw
  obtain rfl : i = j := (load_eq_ok_iff.mp hload).1.symm.trans (place_eq (places_of_loads h) hj)
  exact ⟨w, hj, hload⟩

/-- Writes have blocks of the same size. -/
theorem FillsLoads.size_of_loads (hfilled : a.FillsLoads) {ks : List Nat} {writes : List (BlockWrite α)}
    (h : ks.mapM a.load = .ok writes) : ∀ w ∈ writes, w.2.size = a.test.components := by
  intro w hw
  obtain ⟨k, -, hk⟩ := exists_mem_of_mapM h hw
  exact hfilled _ _ (load_eq_ok_iff.mp hk).2

/-- The writes of functions that all have components. -/
theorem loads_of_mapM {ks : List Nat} {writes : List (BlockWrite α)} (h : ks.mapM a.load = .ok writes) :
    a.loadsOf ks = writes := by
  rw [loadsOf, attempted_eq_self fun k hk => ?_, filterMap_of_mapM h]
  obtain ⟨w, -, hw⟩ := exists_step_of_mapM h hk
  exact ⟨w, hw⟩

/-! ## (4) Runs -/

variable [Scalar α]

/-- **The vector after some writes** to a vector of zeros. -/
def filled (a : Assembler α) (writes : List (BlockWrite α)) : List α :=
  (writes.foldl (writeBlock a.test.components) (Array.replicate a.rows.toNat Scalar.zero)).toList

/-- **The assemblies that a pool can do.** Without several workers the caller writes the blocks of all functions
to the vector. Otherwise every worker writes those of the chunks it takes; a chunk stops at its first failure.
One chunk alone is a run too. -/
inductive VectorRun (a : Assembler α) (pool : Option WorkerPool) : Outcome (List α) → Prop
  | alone (hpool : (pool.filter fun p => decide (1 < p.workers)) = none) :
      VectorRun a pool ⟨[], (List.range a.functionCount).mapM a.load >>= fun writes => .ok (a.filled writes)⟩
  | chunked {p : WorkerPool} {as : List (BatchAction (BlockWrite α))} {t : BatchState (BlockWrite α) Unit}
      (hpool : (pool.filter fun p => decide (1 < p.workers)) = some p)
      (hrun : BatchRun (fun c => a.loadsOf (a.chunkFunctions p c))
        (fun c => (a.chunkFunctions p c).mapM a.load >>= fun _ => .ok ()) p.workers.toNat
        (batchStart (a.vectorChunks p)) as t)
      (hfinished : t.Finished) :
      VectorRun a pool (t.close >>= fun _ => pure (a.filled t.log))

/-- **Some assembly can always be done.** -/
theorem exists_vectorRun (a : Assembler α) (pool : Option WorkerPool) : ∃ outcome, a.VectorRun pool outcome := by
  cases hpool : pool.filter fun p => decide (1 < p.workers) with
  | none => exact ⟨_, .alone hpool⟩
  | some p =>
    have hworkers : 0 < p.workers.toNat := by
      have hseveral : 1 < p.workers := of_decide_eq_true (Option.filter_eq_some_iff.mp hpool).2
      omega
    obtain ⟨as, t, hrun, hfinished⟩ := exists_finished_run hworkers _
    exact ⟨_, .chunked hpool hrun hfinished⟩

omit [Scalar α] in
/-- The number of rows is that of the functions times that of the components, if it can be counted. -/
theorem toNat_rows (hsize : a.functionCount * a.test.components < UInt64.size) :
    a.rows.toNat = a.functionCount * a.test.components := by
  rw [rows, Layout.unknowns, UInt64.toNat_mul, Layout.componentWord, UInt64.toNat_ofNat', Nat.mul_mod_mod]
  exact Nat.mod_eq_of_lt hsize

omit [Scalar α] in
/-- **The blocks of all functions lie in the vector** exactly if their values can be counted. Otherwise the
number of rows wraps around, and the last functions have no place. -/
theorem count_lt_size_iff : a.functionCount * a.test.components < UInt64.size ↔
    ∀ i < a.functionCount, i * a.test.components + a.test.components ≤ a.rows.toNat := by
  constructor
  · intro hsize i hi
    calc i * a.test.components + a.test.components = (i + 1) * a.test.components := (Nat.succ_mul i _).symm
      _ ≤ a.functionCount * a.test.components := Nat.mul_le_mul_right _ hi
      _ = a.rows.toNat := (toNat_rows hsize).symm
  · intro hblocks
    cases hcount : a.functionCount with
    | zero =>
      rw [Nat.zero_mul]
      exact Nat.zero_lt_of_lt a.rows.toNat_lt_size
    | succ n =>
      calc (n + 1) * a.test.components = n * a.test.components + a.test.components := Nat.succ_mul n _
        _ ≤ a.rows.toNat := hblocks n (hcount ▸ Nat.lt_succ_self n)
        _ < UInt64.size := a.rows.toNat_lt_size

section Filled

variable (hfilled : a.FillsLoads)
  (hsize : a.functionCount * a.test.components < UInt64.size)
include hfilled hsize

/-- **The vector is what the functions have written,** in any order. -/
theorem filled_eq {writes log : List (BlockWrite α)}
    (h : (List.range a.functionCount).mapM a.load = .ok writes) (hperm : log.Perm writes) :
    a.filled log = writes.flatMap fun w => w.2.toList := by
  have hblocks := hfilled.size_of_loads h
  rw [filled, ← (consistentWrites_of_places hblocks (places_of_loads h)).foldl_perm hperm.symm]
  refine foldl_writeBlock_eq_flatMap hblocks (places_of_loads h) ?_
  rw [Array.size_replicate, toNat_rows hsize]

omit hsize in
/-- **Every assembly has the outcome of the program.** Unless a function fails the vector has to be large enough
for what is written to it. -/
theorem VectorRun.outcome_eq (harity : a.arity = .linear) (hshared : a.access = .shared)
    (hsize : a.functionCount * a.test.components < UInt64.size ∨ ∃ e, a.joinedLoads = .error e)
    {outcome : Outcome (List α)} (h : a.VectorRun pool outcome) : outcome = a.assembleVector pool := by
  have hfits {writes} (hloads : (List.range a.functionCount).mapM a.load = .ok writes) :
      a.functionCount * a.test.components < UInt64.size := by
    refine hsize.resolve_right ?_
    rintro ⟨e, he⟩
    rw [joinedLoads, hloads] at he
    cases he
  cases h with
  | alone hpool =>
    rw [assembleVector_alone harity hpool, joinedLoads]
    cases hloads : (List.range a.functionCount).mapM a.load with
    | error e => rfl
    | ok writes => exact congrArg (Outcome.mk [] <| .ok ·) (filled_eq hfilled (hfits hloads) hloads (.refl _))
  | @chunked p as t hpool hrun hfinished =>
    have hreport : a.vectorReport p = batchReport (a.vectorChunks p) fun c =>
        (a.chunkFunctions p c).mapM a.load >>= fun _ => .ok () :=
      batchReport_congr fun c => (causeOf_bind_ok _ _).symm
    rw [assembleVector_chunked harity hshared hpool, hrun.close_eq hfinished, joinedLoads, hreport,
      mapM_bind_ok, ← mapM_chunkFunctions p]
    cases hparts : (List.range (a.vectorChunks p)).mapM fun c => (a.chunkFunctions p c).mapM a.load with
    | error e => rfl
    | ok parts =>
      -- No chunk stops, so that all functions have been written.
      have hall : (List.range a.functionCount).mapM a.load = .ok parts.flatten := by
        rw [← mapM_chunkFunctions p, hparts]
        rfl
      have hlog : t.log.Perm parts.flatten := by
        rw [eq_map_of_mapM_eq_ok hparts fun c ys => loads_of_mapM, ← List.flatMap_def]
        exact hrun.log_perm hfinished
      show Outcome.mk (_ ++ []) (.ok (a.filled t.log)) = ⟨_, .ok _⟩
      rw [List.append_nil, filled_eq hfilled (hfits hall) hall hlog]

end Filled

/-! ## (5) Single queries -/

section Queries

variable (hsize : a.functionCount * a.test.components < UInt64.size) {k : GlobalIndex} (hk : k < a.rows)
include hsize hk

omit [Scalar α] in
/-- A row belongs to a function. -/
theorem function_lt : k.toNat / a.test.components < a.functionCount := by
  refine Nat.div_lt_of_lt_mul ?_
  rw [Nat.mul_comm, ← toNat_rows hsize]
  exact hk

omit [Scalar α] in
/-- **The function and the component of a row.** -/
theorem fromLinearIndex_row : a.fromLinearIndex k .test =
    .ok (a.functionIndex (k.toNat / a.test.components), k.toNat % a.test.components) := by
  have hfunctions : 0 < a.functionCount := Nat.zero_lt_of_lt (function_lt hsize hk)
  have hword : a.test.componentWord.toNat = a.test.components :=
    UInt64.toNat_ofNat_of_lt' (Nat.lt_of_le_of_lt (Nat.le_mul_of_pos_left _ hfunctions) hsize)
  have hquotient : k / a.test.componentWord = UInt64.ofNat (k.toNat / a.test.components) := by
    rw [← UInt64.toNat_inj, UInt64.toNat_div, hword, UInt64.toNat_ofNat_of_lt']
    exact Nat.lt_of_le_of_lt (Nat.div_le_self _ _) k.toNat_lt_size
  have hcheck : checkWord .globalIndex k a.test.unknowns = .ok () := checkWord_eq_ok_iff.mpr hk
  have hfound : a.fromLinearIndex k .test = .ok ((MultiIndex.multiIndex (k / a.test.componentWord)
      a.test.words).map UInt64.toNat, (k % a.test.componentWord).toNat) := by
    refine bind_eq_ok_iff.mpr ⟨(), hcheck, rfl⟩
  rw [hfound, hquotient, UInt64.toNat_mod, hword]
  rfl

/-- **A single query** is for a component of a function. -/
theorem entry1_eq (harity : a.arity = .linear) : a.entry1 k =
    a.load (k.toNat / a.test.components) >>= fun w =>
      .ok (w.2.getD (k.toNat % a.test.components) Scalar.zero) := by
  rw [entry1, fromLinearIndex_row hsize hk, harity, load]
  show (a.evaluator.components (a.functionIndex (k.toNat / a.test.components)) >>= fun values =>
    pure (values.getD (k.toNat % a.test.components) Scalar.zero)) = _
  cases a.evaluator.components (a.functionIndex (k.toNat / a.test.components)) <;> rfl

end Queries

section FirstRows

variable (hsize : a.functionCount * a.test.components < UInt64.size) (hcomponents : 0 < a.test.components)
  {i : Nat} (hi : i < a.functionCount)
include hsize hcomponents hi

omit [Scalar α] in
/-- The row of the first component of a function. -/
theorem firstRow : (UInt64.ofNat (i * a.test.components)).toNat = i * a.test.components ∧
    UInt64.ofNat (i * a.test.components) < a.rows := by
  have hlt : i * a.test.components < a.functionCount * a.test.components :=
    Nat.mul_lt_mul_of_pos_right hi hcomponents
  have hword := UInt64.toNat_ofNat_of_lt' (Nat.lt_trans hlt hsize)
  refine ⟨hword, ?_⟩
  rw [UInt64.lt_iff_toNat_lt, hword, toNat_rows hsize]
  exact hlt

/-- **A function whose first component can be queried** has its write. -/
theorem exists_load_of_entry1 (harity : a.arity = .linear)
    (h : ∃ value, a.entry1 (UInt64.ofNat (i * a.test.components)) = .ok value) : ∃ w, a.load i = .ok w := by
  obtain ⟨hword, hk⟩ := firstRow hsize hcomponents hi
  obtain ⟨value, hvalue⟩ := h
  rw [entry1_eq hsize hk harity, hword, Nat.mul_div_cancel _ hcomponents] at hvalue
  obtain ⟨w, hw, -⟩ := bind_eq_ok_iff.mp hvalue
  exact ⟨w, hw⟩

end FirstRows

/-! ## (6) Vectors and single queries -/

omit [Scalar α] in
/-- **The failure of the first function that fails** is that of the vector. -/
theorem joinedLoads_of_error {i : Nat} {e : Error} (hi : i < a.functionCount)
    (he : a.evaluator.components (a.functionIndex i) = .error e)
    (hbefore : ∀ j < i, ∃ values, a.evaluator.components (a.functionIndex j) = .ok values) :
    a.joinedLoads = .error e := by
  have hload : a.load i = .error e := by
    rw [load, he]
    rfl
  have hall : (List.range a.functionCount).mapM a.load = .error e := by
    refine mapM_eq_error (List.getElem?_range hi) hload fun j hj k hk => ?_
    rw [List.getElem?_range (Nat.lt_trans hj hi)] at hk
    obtain rfl := Option.some.inj hk
    obtain ⟨values, hvalues⟩ := hbefore j hj
    exact ⟨(j, values), load_eq_ok_iff.mpr ⟨rfl, hvalues⟩⟩
  rw [joinedLoads, hall]
  rfl

omit [Scalar α] in
/-- Each function has all its values in the result. -/
theorem length_joinedLoads (hfilled : a.FillsLoads) {values : List α} (h : a.joinedLoads = .ok values) :
    values.length = a.functionCount * a.test.components := by
  obtain ⟨writes, hwrites, hvalues⟩ := bind_eq_ok_iff.mp h
  obtain rfl := Except.ok.inj hvalues
  have hcount : writes.length = a.functionCount :=
    (mapM_eq_ok_iff.mp hwrites).length_eq.symm.trans List.length_range
  rw [length_flatMap_of_length fun w hw => Array.length_toList.trans (hfilled.size_of_loads hwrites w hw), hcount]

/-- **The components one after the other** are the values of the queries, if the queries succeed. -/
theorem joinedLoads_of_values (harity : a.arity = .linear) (hcomponents : 0 < a.test.components)
    (hfilled : a.FillsLoads)
    (hsize : a.functionCount * a.test.components < UInt64.size) {value : GlobalIndex → α}
    (hvalue : ∀ k < a.rows, a.entry1 k = .ok (value k)) :
    ∃ values, a.joinedLoads = .ok values ∧ values.length = a.rows.toNat ∧
      ∀ k < a.rows, values[k.toNat]? = some (value k) := by
  have hloads : ∀ i ∈ List.range a.functionCount, ∃ w, a.load i = .ok w := fun i hi => by
    have hi := List.mem_range.mp hi
    exact exists_load_of_entry1 hsize hcomponents hi harity
      ⟨_, hvalue _ (firstRow hsize hcomponents hi).2⟩
  obtain ⟨writes, hwrites⟩ := exists_mapM_eq_ok hloads
  have hlengths : ∀ w ∈ writes, w.2.toList.length = a.test.components := fun w hw =>
    Array.length_toList.trans (hfilled.size_of_loads hwrites w hw)
  have hjoined : a.joinedLoads = .ok (writes.flatMap fun w => w.2.toList) := by
    rw [joinedLoads, hwrites]
    rfl
  refine ⟨_, hjoined, ?_, fun k hk => ?_⟩
  · rw [length_joinedLoads hfilled hjoined, toNat_rows hsize]
  · obtain ⟨w, hw, hload⟩ := getElem?_of_loads hwrites (function_lt hsize hk)
    have hcomponent : k.toNat % a.test.components < w.2.size := by
      rw [hfilled.size_of_loads hwrites w (List.mem_of_getElem? hw)]
      exact Nat.mod_lt _ hcomponents
    -- The query evaluates the same function again, and takes one component of it.
    have hentry := (entry1_eq hsize hk harity).symm.trans (hvalue k hk)
    rw [hload] at hentry
    have hentry' : w.2.getD (k.toNat % a.test.components) Scalar.zero = value k := Except.ok.inj hentry
    rw [getElem?_flatMap hcomponents hlengths, hw, Option.bind_some, Array.getElem?_toList, ← hentry',
      Array.getD_eq_getD_getElem?, Array.getElem?_eq_getElem hcomponent, Option.getD_some]

/-- **The failure of the first query that fails** is that of the vector. -/
theorem joinedLoads_of_entry1_error (harity : a.arity = .linear) (hcomponents : 0 < a.test.components)
    (hsize : a.functionCount * a.test.components < UInt64.size) {k : GlobalIndex} {e : Error} (hk : k < a.rows)
    (he : a.entry1 k = .error e) (hbefore : ∀ j < k, ∃ value, a.entry1 j = .ok value) :
    a.joinedLoads = .error e := by
  have hi := function_lt hsize hk
  refine joinedLoads_of_error hi ?_ fun j hj => ?_
  · rw [entry1_eq hsize hk harity, load] at he
    cases hvalues : a.evaluator.components (a.functionIndex (k.toNat / a.test.components)) with
    | error e' =>
      rw [hvalues] at he
      exact congrArg Except.error (Except.error.inj he)
    | ok values =>
      rw [hvalues] at he
      cases he
  · -- The first component of an earlier function is an earlier row.
    have hj' := Nat.lt_trans hj hi
    obtain ⟨hword, -⟩ := firstRow hsize hcomponents hj'
    have hrow : UInt64.ofNat (j * a.test.components) < k := by
      rw [UInt64.lt_iff_toNat_lt, hword]
      exact (Nat.lt_div_iff_mul_lt hcomponents).mp hj |>.trans_le (Nat.sub_le _ _)
    obtain ⟨w, hw⟩ := exists_load_of_entry1 hsize hcomponents hj' harity (hbefore _ hrow)
    exact ⟨w.2, (load_eq_ok_iff.mp hw).2⟩

/-- **A vector is its single queries,** for an assembler of a linear form that all workers share, whatever the
pool and the schedule: the result is the same for all pools, each pool can do some assembly, and all assemblies
have the outcome of the program. If the components of a function cannot be evaluated the result is the failure
of the first such function. Otherwise the values have to fit in a vector, so that there are as many as rows and
each function has its place; then the result is those of the queries for all rows, in the order of the rows and
as many as there are rows. If a query fails the result is the failure of the first query that does. If the
values do not fit there are more of them than rows, and some function has no place for its values. -/
theorem assembleVector_eq_entries (hchecked : a.checked = .ok a) (harity : a.arity = .linear)
    (hshared : a.access = .shared) (hfilled : a.FillsLoads) :
    ∃ result : Except Error (List α),
      (∀ pool, (a.assembleVector pool).result = result ∧ ∃ outcome, a.VectorRun pool outcome) ∧
      (∀ i e, i < a.functionCount → a.evaluator.components (a.functionIndex i) = .error e →
        (∀ j < i, ∃ values, a.evaluator.components (a.functionIndex j) = .ok values) → result = .error e) ∧
      ((a.functionCount * a.test.components < UInt64.size ∨ ∃ e, result = .error e) →
        ∀ pool outcome, a.VectorRun pool outcome → outcome = a.assembleVector pool) ∧
      (a.functionCount * a.test.components < UInt64.size →
        (∀ value : GlobalIndex → α, (∀ k < a.rows, a.entry1 k = .ok (value k)) →
          ∃ values, result = .ok values ∧ values.length = a.rows.toNat ∧
            ∀ k < a.rows, values[k.toNat]? = some (value k)) ∧
        ∀ k e, k < a.rows → a.entry1 k = .error e → (∀ j < k, ∃ value, a.entry1 j = .ok value) →
          result = .error e) ∧
      (a.functionCount * a.test.components < UInt64.size ↔
        ∀ i < a.functionCount, i * a.test.components + a.test.components ≤ a.rows.toNat) ∧
      ∀ values, result = .ok values → values.length = a.functionCount * a.test.components ∧
        (UInt64.size ≤ a.functionCount * a.test.components → a.rows.toNat < values.length) := by
  have hcomponents := (components_pos hchecked).1
  refine ⟨a.joinedLoads, fun pool => ⟨?_, exists_vectorRun a pool⟩, fun i e => joinedLoads_of_error,
    fun hsize pool outcome h => h.outcome_eq hfilled harity hshared hsize, fun hsize => ⟨fun value hvalue => ?_,
    fun k e => joinedLoads_of_entry1_error harity hcomponents hsize⟩, count_lt_size_iff, fun values hvalues => ?_⟩
  · cases hpool : pool.filter fun p => decide (1 < p.workers) with
    | none => rw [assembleVector_alone harity hpool]
    | some p => rw [assembleVector_chunked harity hshared hpool]
  · exact joinedLoads_of_values harity hcomponents hfilled hsize hvalue
  · have hlength := length_joinedLoads hfilled hvalues
    exact ⟨hlength, fun hlarge => (a.rows.toNat_lt_size.trans_le hlarge).trans_eq hlength.symm⟩

/-- Two by two functions with two components; the components of some functions cannot be evaluated. -/
def partialAssembler (bad : List (List Nat)) : Assembler ℚ where
  name := "partial"
  arity := .linear
  test := ⟨[2, 2], 2⟩
  trial := ⟨[2, 2], 2⟩
  symmetric := false
  meshSupport _ _ := .ok #[]
  neighborRange _ _ := .ok ⟨0, 2⟩
  evaluator.block _ _ := .ok #[]
  evaluator.components test :=
    if test ∈ bad then .error (.assembly (.noClone s!"{test}"))
    else .ok #[(MultiIndex.linearIndex test [2, 2] : Nat), 7]

/-- The components that can be evaluated are two. -/
theorem partialAssembler_filled (bad : List (List Nat)) : (partialAssembler bad).FillsLoads := by
  intro test values h
  simp only [partialAssembler] at h
  split at h
  · cases h
  · obtain rfl := Except.ok.inj h
    rfl

/-- Two functions fail, and the first one counts. If none fails the rows have their entries: row 5 is the second
component of the third function. -/
theorem assembleVector_partial :
    (∀ pool, ((partialAssembler [[1, 1], [1, 0]]).assembleVector pool).result =
        .error (.assembly (.noClone "[1, 0]"))) ∧
      ∀ pool, ∃ values, ((partialAssembler []).assembleVector pool).result = .ok values ∧
        values.length = 8 ∧ values[4]? = some 2 ∧ values[5]? = some 7 := by
  constructor
  · intro pool
    obtain ⟨result, hpool, hfailure, -⟩ := assembleVector_eq_entries (a := partialAssembler [[1, 1], [1, 0]])
      rfl rfl rfl (partialAssembler_filled _)
    rw [(hpool pool).1]
    refine hfailure 2 _ (by decide +kernel) rfl fun j hj => ?_
    interval_cases j
    · exact ⟨_, rfl⟩
    · exact ⟨_, rfl⟩
  · intro pool
    obtain ⟨result, hpool, -, -, hfits, -⟩ := assembleVector_eq_entries (a := partialAssembler [])
      rfl rfl rfl (partialAssembler_filled _)
    obtain ⟨hvalues, -⟩ := hfits (by decide +kernel)
    have hentry : ∀ k < (partialAssembler []).rows, ∃ value, (partialAssembler []).entry1 k = .ok value := by
      intro k hk
      rw [entry1_eq (by decide +kernel) hk rfl]
      exact ⟨_, rfl⟩
    choose! value hvalue using hentry
    have hfour : value 4 = 2 := Except.ok.inj ((hvalue 4 (by decide +kernel)).symm.trans rfl)
    have hfive : value 5 = 7 := Except.ok.inj ((hvalue 5 (by decide +kernel)).symm.trans rfl)
    obtain ⟨values, hresult, hlength, hall⟩ := hvalues value hvalue
    refine ⟨values, (hpool pool).1.trans hresult, hlength.trans (by decide +kernel), ?_, ?_⟩
    · exact hfour ▸ hall 4 (by decide +kernel)
    · exact hfive ▸ hall 5 (by decide +kernel)

end Assembler

end Galerkin
