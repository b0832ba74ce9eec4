import Galerkin.Proofs.Assembly.Schedules

/-! # Batches under any schedule

When all chunks of a batch have been done, the caller looks at the slots from the first to the last. It
reports the number of failures and fails with the first one, or it returns the results. A pool leaves the
chunks to its workers, in any order, or goes through them one after the other. The outcome is the same,
except that what the tasks report can come in another order.

* **`BatchState.close`**, **`BatchRun.close_eq`** — the end of a batch, and what it is after a finished run;
* **`runChunks_eq`**, **`sequentialState_outcome`** — a batch is what one worker alone does;
* **`WorkerPool.Maps`**, **`WorkerPool.Maps.spec`** — the outcomes that a pool can have;
* **`WorkerPool.map_under_any_schedule`** — the result and the report of a batch are those of its tasks. -/

namespace Galerkin

variable {β σ : Type}

/-! ## (1) The end of a batch -/

/-- **The end of a batch.** If a slot holds the cause of a failure, the caller reports how many do and fails
with the first one; otherwise the slots for results are the result. -/
def BatchState.close (s : BatchState σ β) : Outcome (List β) :=
  match s.causes.toList.filterMap id with
  | [] => pure s.results.toList
  | first :: rest => ⟨[.chunksFailed (rest.length + 1) s.causes.size], .error first⟩

/-- The number of chunks that fail. -/
def failedCount (chunks : Nat) (result : Nat → Except Error β) : Nat :=
  (List.range chunks).countP fun c => (causeOf (result c)).isSome

/-- **What a batch reports of its own:** the number of failed chunks, if there are any. -/
def batchReport (chunks : Nat) (result : Nat → Except Error β) : List Event :=
  if failedCount chunks result = 0 then [] else [.chunksFailed (failedCount chunks result) chunks]

/-- **Every message of a batch of its own is an error** that states how many chunks failed, and of how
many. -/
theorem batchReport_error {chunks : Nat} {result : Nat → Except Error β} {event : Event}
    (h : event ∈ batchReport chunks result) :
    event.level = .error ∧ ∀ elapsed, event.message elapsed =
      s!"WorkerPool: {failedCount chunks result} of {chunks} chunks failed, discarding batch results" := by
  unfold batchReport at h
  by_cases hcount : failedCount chunks result = 0
  · rw [if_pos hcount] at h
    cases h
  · rw [if_neg hcount] at h
    obtain rfl := List.mem_singleton.mp h
    exact ⟨rfl, fun _ => rfl⟩

/-- The causes of the failures of a batch. -/
theorem failures_attempts (chunks : Nat) (task : Nat → Outcome β) :
    failures (attempts chunks task) = (List.range chunks).filterMap fun c => causeOf (task c).result := by
  rw [failures, attempts, List.filterMap_map]
  rfl

/-- Results without a cause of a failure are all there. -/
theorem mapM_of_no_cause [Inhabited β] {result : Nat → Except Error β} {cs : List Nat}
    (h : (cs.filterMap fun c => causeOf (result c)) = []) :
    cs.mapM result = .ok (cs.map fun c => (result c).toOption.getD default) := by
  refine mapM_eq_ok_map fun c hc => ?_
  have hcause := List.filterMap_eq_nil_iff.mp h c hc
  cases hr : result c with
  | ok b => rfl
  | error e =>
    rw [hr] at hcause
    cases hcause

/-- The first cause of a failure among some results is that of going over them. -/
theorem mapM_of_first_cause {result : Nat → Except Error β} {chunks : Nat} {first : Error}
    {rest : List Error}
    (h : ((List.range chunks).filterMap fun c => causeOf (result c)) = first :: rest) :
    (List.range chunks).mapM result = .error first := by
  have hfirst := mapM_result_of_failure ((failures_attempts chunks fun c => ⟨[], result c⟩).trans h)
  rwa [attempts, List.mapM_map] at hfirst

/-- **The end of a batch** whose slots hold what the tasks lead to. -/
theorem BatchState.close_eq [Inhabited β] {s : BatchState σ β} {chunks : Nat} {result : Nat → Except Error β}
    (hresults : s.results.toList = (List.range chunks).map fun c => (result c).toOption.getD default)
    (hcauses : s.causes.toList = (List.range chunks).map fun c => causeOf (result c)) :
    s.close = ⟨batchReport chunks result, (List.range chunks).mapM result⟩ := by
  have hsize : s.causes.size = chunks := by
    rw [← Array.length_toList, hcauses, List.length_map, List.length_range]
  have hreduced : s.causes.toList.filterMap id =
      (List.range chunks).filterMap fun c => causeOf (result c) := by
    rw [hcauses, List.filterMap_map]
    rfl
  have hcount : failedCount chunks result =
      ((List.range chunks).filterMap fun c => causeOf (result c)).length :=
    List.length_filterMap_eq_countP.symm
  rw [close, hreduced, hsize, hresults, batchReport, hcount]
  cases h : (List.range chunks).filterMap fun c => causeOf (result c) with
  | nil =>
    rw [mapM_of_no_cause h]
    rfl
  | cons first rest =>
    rw [mapM_of_first_cause h]
    rfl

/-- **The end of a finished run** does not depend on the schedule. -/
theorem BatchRun.close_eq [Inhabited β] {steps : Nat → List σ} {result : Nat → Except Error β}
    {workers chunks : Nat} {as : List (BatchAction σ)} {t : BatchState σ β}
    (hrun : BatchRun steps result workers (batchStart chunks) as t) (hfinished : t.Finished) :
    t.close = ⟨batchReport chunks result, (List.range chunks).mapM result⟩ :=
  BatchState.close_eq (BatchRun.results_eq hrun hfinished) (BatchRun.causes_eq hrun hfinished)

/-- **A batch of tasks** reports what the tasks report, and then what it has to report of its own. -/
theorem runChunks_eq (chunks : Nat) (task : Nat → Outcome β) :
    runChunks chunks task = ⟨((List.range chunks).flatMap fun c => (task c).events) ++
      batchReport chunks fun c => (task c).result, (List.range chunks).mapM fun c => (task c).result⟩ := by
  have hcount : failedCount chunks (fun c => (task c).result) =
      (failures (attempts chunks task)).length := by
    rw [failures_attempts, List.length_filterMap_eq_countP]
    rfl
  have hevents : (attempts chunks task).flatMap (·.events) =
      (List.range chunks).flatMap fun c => (task c).events := List.flatMap_map ..
  rw [← runChunks_result, batchReport, hcount, ← hevents, runChunks]
  cases failures (attempts chunks task) with
  | nil => simp only [List.length_nil, if_pos, List.append_nil]
  | cons first rest => rfl

/-! ## (2) Pools -/

/-- **The outcome of a batch:** what its tasks have reported, and how it ends. -/
def BatchState.outcome (s : BatchState Event β) : Outcome (List β) :=
  ⟨s.log ++ s.close.events, s.close.result⟩

/-- **A batch is what one worker alone does.** -/
theorem sequentialState_outcome [Inhabited β] (chunks : Nat) (task : Nat → Outcome β) :
    (sequentialState (fun c => (task c).events) (fun c => (task c).result) chunks).outcome =
      runChunks chunks task := by
  have hrun := sequentialState_run (fun c => (task c).events) (fun c => (task c).result) chunks Nat.one_pos
  rw [BatchState.outcome, hrun.close_eq (sequentialState_finished chunks), sequentialState_log, runChunks_eq]

namespace WorkerPool

/-- **A batch on a pool,** with the order in which the chunks are taken. If there are several workers and
several chunks, the workers take the chunks as they like. Otherwise, and without threads at all, the caller
goes through them alone. -/
inductive Maps [Inhabited β] (p : WorkerPool) (chunks : Nat) (task : Nat → Outcome β) :
    List Nat → Outcome (List β) → Prop
  | parallel {as : List (BatchAction Event)} {t : BatchState Event β} (hworkers : 1 < p.workers)
      (hchunks : 1 < chunks) (hrun : BatchRun (fun c => (task c).events) (fun c => (task c).result)
        p.workers.toNat (batchStart chunks) as t) (hfinished : t.Finished) :
      Maps p chunks task (takenIn as) t.outcome
  | sequential : Maps p chunks task (List.range chunks)
      (sequentialState (fun c => (task c).events) (fun c => (task c).result) chunks).outcome

variable [Inhabited β] {p : WorkerPool} {chunks : Nat} {task : Nat → Outcome β} {order : List Nat}
  {outcome : Outcome (List β)}

/-- **What a batch on a pool does:** it takes each chunk once, its result is that of the tasks in order, and
it reports what they report and then what it has to report of its own. -/
theorem Maps.spec (h : p.Maps chunks task order outcome) :
    order.Perm (List.range chunks) ∧
      outcome.result = ((List.range chunks).mapM fun c => (task c).result) ∧
      ∃ log : List Event, log.Perm ((List.range chunks).flatMap fun c => (task c).events) ∧
        outcome.events = log ++ batchReport chunks fun c => (task c).result := by
  cases h with
  | parallel _ _ hrun hfinished =>
    refine ⟨hrun.takes_perm hfinished, ?_, _, hrun.log_perm hfinished, ?_⟩
    · rw [BatchState.outcome, hrun.close_eq hfinished]
    · rw [BatchState.outcome, hrun.close_eq hfinished]
  | sequential =>
    rw [sequentialState_outcome, runChunks_eq]
    exact ⟨.refl _, rfl, _, .refl _, rfl⟩

omit [Inhabited β] in
/-- Tasks that all succeed. -/
theorem failedCount_eq_zero {result : Nat → Except Error β} {values : Nat → β}
    (h : ∀ c < chunks, result c = .ok (values c)) : failedCount chunks result = 0 := by
  refine List.countP_eq_zero.mpr fun c hc => ?_
  rw [h c (List.mem_range.mp hc)]
  exact Bool.false_ne_true

omit [Inhabited β] in
/-- Tasks one of which fails. -/
theorem failedCount_pos {result : Nat → Except Error β} {c : Nat} {e : Error} (hc : c < chunks)
    (he : result c = .error e) : 0 < failedCount chunks result :=
  List.countP_pos_iff.mpr ⟨c, List.mem_range.mpr hc, by rw [he]; rfl⟩

/-- **Batches under any schedule.** A run of a batch ends after as many steps as its tasks have, with two for
each chunk; it can always be finished, and a finished run has taken and finished each chunk exactly once. One
result and one report belong to the batch, whatever the pool, the branch and the schedule. If no task fails
they are the values in chunk order and nothing. Otherwise they are the failure of the first chunk that fails
and one error message, which states how many chunks failed and of how many. What the tasks report themselves
comes before, in some order. -/
theorem map_under_any_schedule (chunks : Nat) (task : Nat → Outcome β) :
    (∀ workers as s, 0 < workers → BatchRun (fun c => (task c).events) (fun c => (task c).result) workers
        (batchStart chunks) as s →
      as.length ≤ ((List.range chunks).flatMap fun c => (task c).events).length + 2 * chunks ∧
      (∃ as' t, BatchRun (fun c => (task c).events) (fun c => (task c).result) workers s as' t ∧
        t.Finished) ∧
      (s.Finished → (takenIn as).Perm (List.range chunks) ∧ (finishedIn as).Perm (List.range chunks))) ∧
    ∃ (failed : Nat) (result : Except Error (List β)) (report : List Event),
      failed = ((List.range chunks).countP fun c => (causeOf (task c).result).isSome) ∧
      (∀ values : Nat → β, (∀ c < chunks, (task c).result = .ok (values c)) →
        result = .ok ((List.range chunks).map values) ∧ report = []) ∧
      (∀ c e, c < chunks → (task c).result = .error e → (∀ b < c, ∃ value, (task b).result = .ok value) →
        result = .error e ∧ report = [.chunksFailed failed chunks]) ∧
      (∀ event ∈ report, event.level = .error ∧ ∀ elapsed, event.message elapsed =
        s!"WorkerPool: {failed} of {chunks} chunks failed, discarding batch results") ∧
      runChunks chunks task = ⟨((List.range chunks).flatMap fun c => (task c).events) ++ report, result⟩ ∧
      ∀ (p : WorkerPool) order outcome, p.Maps chunks task order outcome →
        order.Perm (List.range chunks) ∧ outcome.result = result ∧
        ∃ log : List Event, log.Perm ((List.range chunks).flatMap fun c => (task c).events) ∧
          outcome.events = log ++ report := by
  refine ⟨fun workers as s hworkers hrun => ⟨?_, exists_finished_run hworkers s, fun hfinished =>
    ⟨hrun.takes_perm hfinished, hrun.finishes_perm hfinished⟩⟩, failedCount chunks fun c => (task c).result,
    _, _, rfl, fun values hvalues => ⟨?_, ?_⟩, fun c e hc he hbefore => ⟨?_, ?_⟩,
    fun event hevent => batchReport_error hevent, runChunks_eq chunks task, fun p order outcome h => h.spec⟩
  · exact Nat.le_trans hrun.length_le (Nat.le_of_eq left_batchStart)
  · exact mapM_eq_ok_map fun c hc => hvalues c (List.mem_range.mp hc)
  · exact if_pos (failedCount_eq_zero hvalues)
  · refine mapM_eq_error (List.getElem?_range hc) he fun b hb b' hb' => ?_
    rw [List.getElem?_range (Nat.lt_trans hb hc)] at hb'
    obtain rfl := Option.some.inj hb'
    exact hbefore b hb
  · exact if_neg (Nat.ne_of_gt (failedCount_pos hc he))

/-- Three tasks of which the last two fail. The last one reports something before it fails. -/
def failingTasks (c : Nat) : Outcome Nat :=
  match c with
  | 0 => ⟨[.workerCloned], .ok 7⟩
  | 1 => ⟨[], .error (.assembly .negativeThreads)⟩
  | _ => ⟨[.threadCountIgnored "x"], .error (.assembly .nullClone)⟩

/-- Two workers who take the last chunk first: it has failed before the second one is taken. -/
theorem failingTasks_run :
    BatchRun (fun c => (failingTasks c).events) (fun c => (failingTasks c).result) 2 (batchStart 3)
      [.take 2, .work 2 (.threadCountIgnored "x"), .take 0, .finish 2, .take 1, .finish 1,
        .work 0 .workerCloned, .finish 0]
      ⟨[], [], #[7, 0, 0], #[none, some (.assembly .negativeThreads), some (.assembly .nullClone)],
        [.threadCountIgnored "x", .workerCloned]⟩ := by
  refine .step (.take [0, 1] [] (by decide)) ?_
  refine .step (.work [] []) ?_
  refine .step (.take [] [1] (by decide)) ?_
  refine .step (.finish [(0, [Event.workerCloned])] []) ?_
  refine .step (.take [] [] (by decide)) ?_
  refine .step (.finish [] [(0, [Event.workerCloned])]) ?_
  refine .step (.work [] []) ?_
  refine .step (.finish [] []) ?_
  exact .done _

/-- The failure of the second chunk counts, for these two workers and for any others. -/
theorem map_failing_tasks :
    WorkerPool.Maps ⟨{}, 2⟩ 3 failingTasks [2, 0, 1] ⟨[.threadCountIgnored "x", .workerCloned, .chunksFailed 2 3],
      .error (.assembly .negativeThreads)⟩ ∧
    ∀ (p : WorkerPool) order outcome, p.Maps 3 failingTasks order outcome →
      order.Perm [0, 1, 2] ∧ outcome.result = .error (.assembly .negativeThreads) ∧
      ∃ log : List Event, log.Perm [.workerCloned, .threadCountIgnored "x"] ∧
        outcome.events = log ++ [.chunksFailed 2 3] := by
  constructor
  · have hmaps := @Maps.parallel _ _ ⟨{}, 2⟩ 3 failingTasks _ _ (by decide) (by decide) failingTasks_run
      ⟨rfl, rfl⟩
    exact hmaps
  · obtain ⟨-, failed, result, report, rfl, -, hfailure, -, -, hmaps⟩ := map_under_any_schedule 3 failingTasks
    obtain ⟨rfl, rfl⟩ := hfailure 1 _ (by decide) rfl fun b hb => by
      obtain rfl : b = 0 := by omega
      exact ⟨7, rfl⟩
    exact hmaps

end WorkerPool

end Galerkin
