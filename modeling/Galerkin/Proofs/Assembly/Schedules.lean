import Galerkin.Proofs.Assembly.Batches

/-! # Schedules of a batch

The workers of a pool take the chunks of a batch in any order. A worker that has taken a chunk does the steps
of its task one by one, while other workers do theirs, and in the end writes to the slot of the chunk, either
its result or the cause of its failure. What the slots hold when all have finished does not depend on the
order.

* **`BatchStep`**, **`BatchRun`** — one action of a worker, and the actions of a run;
* **`Progress`** — what lies between two states; **`BatchStep.progress`**, **`BatchRun.progress`** — what a
  step and a run do;
* **`BatchRun.length_le`**, **`exists_finished_run`** — a run comes to an end, and can be finished;
* **`BatchRun.takes_perm`**, **`BatchRun.finishes_perm`** — a finished run has done each chunk exactly once;
* **`BatchRun.results_eq`**, **`BatchRun.causes_eq`** — the slots after a finished run;
* **`sequentialState_run`** — one worker who does chunk after chunk is a run too. -/

namespace Galerkin

variable {β γ σ : Type}

/-! ## (1) Slots -/

/-- Writes to the slot of a chunk, if there is something to write. -/
def writeSlot (f : Nat → Option γ) (slots : Array γ) (c : Nat) : Array γ :=
  match f c with
  | some x => slots.setIfInBounds c x
  | none => slots

/-- A slot is written by its own chunk only. -/
theorem getElem?_writeSlot (f : Nat → Option γ) (slots : Array γ) (c i : Nat) :
    (writeSlot f slots c)[i]? = if i = c then slots[i]?.map (f i).getD else slots[i]? := by
  by_cases hic : i = c
  · subst hic
    rw [if_pos rfl, writeSlot]
    cases hf : f i with
    | none => cases slots[i]? <;> rfl
    | some x =>
      rw [Array.getElem?_setIfInBounds_self]
      by_cases hi : i < slots.size
      · rw [if_pos hi, Array.getElem?_eq_getElem hi]
        rfl
      · rw [if_neg hi, Array.getElem?_eq_none (Nat.le_of_not_lt hi)]
        rfl
  · rw [if_neg hic, writeSlot]
    cases f c with
    | none => rfl
    | some x => exact Array.getElem?_setIfInBounds_ne (Ne.symm hic)

/-- **The slots after some chunks** do not depend on the order of the chunks. -/
theorem getElem?_foldl_writeSlot (f : Nat → Option γ) (cs : List Nat) (slots : Array γ) (i : Nat) :
    (cs.foldl (writeSlot f) slots)[i]? = if i ∈ cs then slots[i]?.map (f i).getD else slots[i]? := by
  induction cs generalizing slots with
  | nil => rfl
  | cons c cs ih =>
    rw [List.foldl_cons, ih, getElem?_writeSlot]
    by_cases hic : i = c
    · subst hic
      rw [if_pos rfl, if_pos List.mem_cons_self]
      by_cases hi : i ∈ cs
      -- Writing the same value again changes nothing.
      · rw [if_pos hi, Option.map_map]
        cases f i <;> rfl
      · rw [if_neg hi]
    · have hmem : (i ∈ c :: cs) ↔ i ∈ cs := by simp [hic]
      simp only [if_neg hic, hmem]

/-- When every chunk has written, the slots are known. -/
theorem foldl_writeSlot_eq_map {f : Nat → Option γ} {cs : List Nat} {n : Nat} {x : γ} {g : Nat → γ}
    (hcs : cs.Perm (List.range n)) (hg : ∀ c < n, (f c).getD x = g c) :
    (cs.foldl (writeSlot f) (Array.replicate n x)).toList = (List.range n).map g := by
  refine List.ext_getElem? fun i => ?_
  rw [Array.getElem?_toList, getElem?_foldl_writeSlot, List.getElem?_map]
  by_cases hi : i < n
  · rw [if_pos (hcs.mem_iff.mpr (List.mem_range.mpr hi)), List.getElem?_range hi,
      Array.getElem?_replicate, if_pos hi]
    exact congrArg some (hg i hi)
  · have hnot : i ∉ cs := fun h => hi (List.mem_range.mp (hcs.mem_iff.mp h))
    rw [if_neg hnot, Array.getElem?_eq_none (by simpa using Nat.le_of_not_lt hi),
      List.getElem?_eq_none (by simpa using Nat.le_of_not_lt hi)]
    rfl

/-! ## (2) Runs -/

/-- **The state of a batch:** the chunks nobody has taken, the chunks the workers are at with the steps they
still have to do, the slots for results and for causes of failures, and what has been done so far. -/
structure BatchState (σ β : Type) where
  waiting : List Nat
  running : List (Nat × List σ)
  results : Array β
  causes : Array (Option Error)
  log : List σ

/-- A batch is over when no chunk waits and no worker is at one. -/
def BatchState.Finished (s : BatchState σ β) : Prop := s.waiting = [] ∧ s.running = []

/-- What a worker can do next: take a chunk, do a step of its task, or finish the chunk. -/
inductive BatchAction (σ : Type) where
  | take (chunk : Nat)
  | work (chunk : Nat) (step : σ)
  | finish (chunk : Nat)

/-- The chunk that an action takes. -/
def BatchAction.taken? : BatchAction σ → Option Nat
  | .take c => some c
  | _ => none

/-- The chunk that an action finishes. -/
def BatchAction.finished? : BatchAction σ → Option Nat
  | .finish c => some c
  | _ => none

/-- The cause of a failure. -/
def causeOf : Except Error β → Option Error
  | .ok _ => none
  | .error e => some e

section Runs

variable (steps : Nat → List σ) (result : Nat → Except Error β)

/-- Keeps the result of a chunk, if it has one. -/
def keepResult : Array β → Nat → Array β := writeSlot fun c => (result c).toOption

/-- Keeps the cause of the failure of a chunk, if it has failed. -/
def keepCause : Array (Option Error) → Nat → Array (Option Error) :=
  writeSlot fun c => (causeOf (result c)).map some

/-- **A step of a batch.** A worker without a chunk takes any chunk that waits; a worker with a chunk does the
next step of its task or, after the last one, writes to the slot of the chunk. -/
inductive BatchStep (workers : Nat) : BatchState σ β → BatchAction σ → BatchState σ β → Prop
  | take (before after : List Nat) {c : Nat} {running : List (Nat × List σ)} {results : Array β}
      {causes : Array (Option Error)} {log : List σ} (hfree : running.length < workers) :
      BatchStep workers ⟨before ++ c :: after, running, results, causes, log⟩ (.take c)
        ⟨before ++ after, (c, steps c) :: running, results, causes, log⟩
  | work (before after : List (Nat × List σ)) {waiting : List Nat} {c : Nat} {x : σ} {rest : List σ}
      {results : Array β} {causes : Array (Option Error)} {log : List σ} :
      BatchStep workers ⟨waiting, before ++ (c, x :: rest) :: after, results, causes, log⟩ (.work c x)
        ⟨waiting, before ++ (c, rest) :: after, results, causes, log ++ [x]⟩
  | finish (before after : List (Nat × List σ)) {waiting : List Nat} {c : Nat} {results : Array β}
      {causes : Array (Option Error)} {log : List σ} :
      BatchStep workers ⟨waiting, before ++ (c, []) :: after, results, causes, log⟩ (.finish c)
        ⟨waiting, before ++ after, keepResult result results c, keepCause result causes c, log⟩

/-- **A run of a batch:** the actions of its steps in order. -/
inductive BatchRun (workers : Nat) : BatchState σ β → List (BatchAction σ) → BatchState σ β → Prop
  | done (s : BatchState σ β) : BatchRun workers s [] s
  | step {s t u : BatchState σ β} {a : BatchAction σ} {as : List (BatchAction σ)}
      (hstep : BatchStep steps result workers s a t) (hrest : BatchRun workers t as u) :
      BatchRun workers s (a :: as) u

/-- **The start of a batch:** all chunks wait, and the slots hold nothing of interest. -/
def batchStart [Inhabited β] (chunks : Nat) : BatchState σ β :=
  ⟨List.range chunks, [], Array.replicate chunks default, Array.replicate chunks none, []⟩

/-- What is left to do: the steps that remain, and for each chunk that waits or that somebody is at, to take
it and to finish it. -/
def BatchState.left (s : BatchState σ β) : Nat :=
  (s.waiting.flatMap steps).length + 2 * s.waiting.length +
    ((s.running.flatMap (·.2)).length + s.running.length)

variable {steps result} {workers : Nat} {s t : BatchState σ β} {a : BatchAction σ}
  {as : List (BatchAction σ)}

/-- The chunks that some actions take, in order. -/
def takenIn (as : List (BatchAction σ)) : List Nat := as.flatMap fun a => a.taken?.toList

/-- The chunks that some actions finish, in order. -/
def finishedIn (as : List (BatchAction σ)) : List Nat := as.flatMap fun a => a.finished?.toList

/-- **What lies between two states,** if some chunks are taken and some finished by a number of steps. Chunks
only move, from those that wait to those somebody is at and off these. No step of a task is lost. The slots of
the chunks that are finished are written, one after the other. Each step leaves one step less to do. -/
structure Progress (steps : Nat → List σ) (result : Nat → Except Error β) (s : BatchState σ β)
    (taken finished : List Nat) (count : Nat) (t : BatchState σ β) : Prop where
  waiting : s.waiting.Perm (taken ++ t.waiting)
  running : (taken ++ s.running.map (·.1)).Perm (finished ++ t.running.map (·.1))
  log : (taken.flatMap steps ++ (s.running.flatMap (·.2) ++ s.log)).Perm (t.running.flatMap (·.2) ++ t.log)
  results : t.results = finished.foldl (keepResult result) s.results
  causes : t.causes = finished.foldl (keepCause result) s.causes
  left : s.left steps = t.left steps + count

/-- Nothing lies between a state and itself. -/
theorem Progress.refl (s : BatchState σ β) : Progress steps result s [] [] 0 s :=
  ⟨.refl _, .refl _, .refl _, rfl, rfl, rfl⟩

/-- Lists that come after each other in two ways can change places in front of a third. -/
theorem perm_append_exchange {as cs ds es fs : List γ} (bs : List γ) (h : (as ++ cs).Perm (bs ++ ds))
    (h' : (es ++ ds).Perm fs) : (as ++ es ++ cs).Perm (bs ++ fs) :=
  calc as ++ es ++ cs
    _ |>.Perm (es ++ (as ++ cs)) := by
      rw [← List.append_assoc]
      exact List.perm_append_comm.append_right cs
    _ |>.Perm (es ++ (bs ++ ds)) := h.append_left es
    _ |>.Perm (bs ++ (es ++ ds)) := by
      rw [← List.append_assoc, ← List.append_assoc]
      exact List.perm_append_comm.append_right ds
    _ |>.Perm (bs ++ fs) := h'.append_left bs

/-- **One stretch of a run after another.** -/
theorem Progress.trans {u : BatchState σ β} {taken taken' finished finished' : List Nat} {m n : Nat}
    (h : Progress steps result s taken finished m t) (h' : Progress steps result t taken' finished' n u) :
    Progress steps result s (taken ++ taken') (finished ++ finished') (m + n) u where
  waiting := by
    rw [List.append_assoc]
    exact h.waiting.trans (h'.waiting.append_left taken)
  running := by
    rw [List.append_assoc finished]
    exact perm_append_exchange finished h.running h'.running
  log := by
    rw [List.flatMap_append]
    exact perm_append_exchange [] h.log h'.log
  results := by rw [h'.results, h.results, List.foldl_append]
  causes := by rw [h'.causes, h.causes, List.foldl_append]
  left := by
    have hleft := h'.left
    rw [h.left]
    omega

/-- **A step makes progress,** with the chunk that its action takes or finishes. -/
theorem BatchStep.progress (h : BatchStep steps result workers s a t) :
    Progress steps result s a.taken?.toList a.finished?.toList 1 t := by
  cases h with
  | @take before after c running results causes log hfree =>
    refine ⟨List.perm_middle, .refl _, ?_, rfl, rfl, ?_⟩
    · show ([c].flatMap steps ++ (running.flatMap (·.2) ++ log)).Perm
        (((c, steps c) :: running).flatMap (·.2) ++ log)
      rw [List.flatMap_singleton, List.flatMap_cons, List.append_assoc]
    · simp only [BatchState.left, List.flatMap_append, List.flatMap_cons, List.length_append,
        List.length_cons]
      omega
  | @work before after waiting c x rest results causes log =>
    refine ⟨.refl _, ?_, ?_, rfl, rfl, ?_⟩
    · show ((before ++ (c, x :: rest) :: after).map (·.1)).Perm ((before ++ (c, rest) :: after).map (·.1))
      rw [List.map_append, List.map_append, List.map_cons, List.map_cons]
    · show ((before ++ (c, x :: rest) :: after).flatMap (·.2) ++ log).Perm
        ((before ++ (c, rest) :: after).flatMap (·.2) ++ (log ++ [x]))
      rw [← List.append_assoc _ log]
      refine List.Perm.trans ?_ (List.perm_append_singleton x _).symm
      rw [List.flatMap_append, List.flatMap_append, List.flatMap_cons, List.flatMap_cons]
      exact (List.perm_middle (a := x)).append_right log
    · simp only [BatchState.left, List.flatMap_append, List.flatMap_cons, List.length_append,
        List.length_cons]
      omega
  | @finish before after waiting c results causes log =>
    refine ⟨.refl _, ?_, ?_, rfl, rfl, ?_⟩
    · show ((before ++ (c, []) :: after).map (·.1)).Perm (c :: (before ++ after).map (·.1))
      rw [List.map_append, List.map_append]
      exact List.perm_middle
    · show ((before ++ (c, []) :: after).flatMap (·.2) ++ log).Perm ((before ++ after).flatMap (·.2) ++ log)
      rw [List.flatMap_append, List.flatMap_append, List.flatMap_cons, List.nil_append]
    · simp only [BatchState.left, List.flatMap_append, List.flatMap_cons, List.length_append,
        List.length_cons, List.length_nil]
      omega

/-- **A run makes progress,** with the chunks that its actions take and finish. -/
theorem BatchRun.progress (h : BatchRun steps result workers s as t) :
    Progress steps result s (takenIn as) (finishedIn as) as.length t := by
  induction h with
  | done s => exact .refl s
  | @step s t u a as hstep _ ih =>
    rw [List.length_cons, Nat.add_comm]
    exact hstep.progress.trans ih

/-- **A run comes to an end:** it has no more steps than there are things to do at its start. -/
theorem BatchRun.length_le (h : BatchRun steps result workers s as t) : as.length ≤ s.left steps := by
  rw [h.progress.left]
  exact Nat.le_add_left ..

/-- What there is to do in a batch. -/
theorem left_batchStart [Inhabited β] {chunks : Nat} :
    (batchStart chunks : BatchState σ β).left steps =
      ((List.range chunks).flatMap steps).length + 2 * chunks := by
  rw [BatchState.left, batchStart, List.length_range]
  rfl

variable (steps result) in
/-- **No run gets stuck:** while something is left to do, a worker can go on. -/
theorem exists_step (hworkers : 0 < workers) (h : ¬s.Finished) :
    ∃ a t, BatchStep steps result workers s a t := by
  obtain ⟨waiting, running, results, causes, log⟩ := s
  rcases running with _ | ⟨⟨c, todo⟩, running⟩
  · rcases waiting with _ | ⟨c, waiting⟩
    · exact absurd ⟨rfl, rfl⟩ h
    · exact ⟨_, _, .take [] waiting hworkers⟩
  · rcases todo with _ | ⟨x, todo⟩
    · exact ⟨_, _, .finish [] running⟩
    · exact ⟨_, _, .work [] running⟩

/-- **A run can be finished** from any state. -/
theorem exists_finished_run (hworkers : 0 < workers) (s : BatchState σ β) :
    ∃ as t, BatchRun steps result workers s as t ∧ t.Finished := by
  -- By induction on what is left to do, which every step lessens.
  induction hn : s.left steps generalizing s with
  | zero =>
    refine ⟨[], s, .done s, ?_⟩
    by_contra h
    obtain ⟨a, t, hstep⟩ := exists_step steps result hworkers h
    have hleft := hstep.progress.left
    omega
  | succ n ih =>
    by_cases h : s.Finished
    · exact ⟨[], s, .done s, h⟩
    · obtain ⟨a, t, hstep⟩ := exists_step steps result hworkers h
      have hleft := hstep.progress.left
      obtain ⟨as, u, hrun, hfinished⟩ := ih t (by omega)
      exact ⟨a :: as, u, .step hstep hrun, hfinished⟩

/-- Two runs one after the other. -/
theorem BatchRun.trans {u : BatchState σ β} {as' : List (BatchAction σ)}
    (h : BatchRun steps result workers s as t) (h' : BatchRun steps result workers t as' u) :
    BatchRun steps result workers s (as ++ as') u := by
  induction h with
  | done s => exact h'
  | step hstep _ ih => exact .step hstep (ih h')

/-! ## (3) Finished runs -/

section Finished

variable [Inhabited β] {chunks : Nat} (hrun : BatchRun steps result workers (batchStart chunks) as t)
  (hfinished : t.Finished)

include hrun hfinished

/-- **Each chunk is taken exactly once.** -/
theorem BatchRun.takes_perm : (takenIn as).Perm (List.range chunks) := by
  have h := hrun.progress.waiting
  rw [hfinished.1, List.append_nil] at h
  exact h.symm

/-- **Each chunk is finished exactly once.** -/
theorem BatchRun.finishes_perm : (finishedIn as).Perm (List.range chunks) := by
  have h := hrun.progress.running
  rw [hfinished.2] at h
  simp only [batchStart, List.map_nil, List.append_nil] at h
  exact h.symm.trans (BatchRun.takes_perm hrun hfinished)

/-- **The steps of all tasks are done,** each as often as in its task. -/
theorem BatchRun.log_perm : t.log.Perm ((List.range chunks).flatMap steps) := by
  have h := hrun.progress.log
  rw [hfinished.2] at h
  simp only [batchStart, List.flatMap_nil, List.append_nil, List.nil_append] at h
  exact h.symm.trans ((BatchRun.takes_perm hrun hfinished).flatMap_right steps)

/-- The slots for results hold what the tasks lead to. -/
theorem BatchRun.results_eq :
    t.results.toList = (List.range chunks).map fun c => (result c).toOption.getD default := by
  rw [hrun.progress.results]
  exact foldl_writeSlot_eq_map (BatchRun.finishes_perm hrun hfinished) fun _ _ => rfl

/-- The slots for causes hold what the tasks lead to. -/
theorem BatchRun.causes_eq : t.causes.toList = (List.range chunks).map fun c => causeOf (result c) := by
  rw [hrun.progress.causes]
  refine foldl_writeSlot_eq_map (BatchRun.finishes_perm hrun hfinished) fun c _ => ?_
  cases causeOf (result c) <;> rfl

end Finished

/-! ## (4) One worker alone -/

section Sequential

variable (steps result)

/-- A whole chunk at once: the steps of its task, and then its slot. -/
def performChunk (s : BatchState σ β) (c : Nat) : BatchState σ β where
  waiting := s.waiting
  running := s.running
  results := keepResult result s.results c
  causes := keepCause result s.causes c
  log := s.log ++ steps c

/-- **One worker alone:** chunk after chunk, from the first to the last. -/
def sequentialState [Inhabited β] (chunks : Nat) : BatchState σ β :=
  (List.range chunks).foldl (performChunk steps result)
    ⟨[], [], Array.replicate chunks default, Array.replicate chunks none, []⟩

/-- The actions for a whole chunk. -/
def chunkActions (c : Nat) : List (BatchAction σ) :=
  .take c :: ((steps c).map (.work c) ++ [.finish c])

variable {steps result}

/-- The steps of a task one after the other. -/
theorem work_run (waiting : List Nat) (c : Nat) (xs : List σ) (results : Array β)
    (causes : Array (Option Error)) (log : List σ) :
    BatchRun steps result workers ⟨waiting, [(c, xs)], results, causes, log⟩ (xs.map (.work c))
      ⟨waiting, [(c, [])], results, causes, log ++ xs⟩ := by
  induction xs generalizing log with
  | nil =>
    rw [List.append_nil]
    exact .done _
  | cons x xs ih =>
    have hrest := ih (log ++ [x])
    rw [List.append_assoc, List.singleton_append] at hrest
    exact .step (.work [] []) hrest

/-- **Doing a whole chunk** is a run, if no worker is at another one. -/
theorem chunk_run (hworkers : 0 < workers) (c : Nat) (waiting : List Nat) (results : Array β)
    (causes : Array (Option Error)) (log : List σ) :
    BatchRun steps result workers ⟨c :: waiting, [], results, causes, log⟩ (chunkActions steps c)
      ⟨waiting, [], keepResult result results c, keepCause result causes c, log ++ steps c⟩ :=
  .step (.take [] waiting hworkers)
    ((work_run waiting c (steps c) results causes log).trans (.step (.finish [] []) (.done _)))

/-- Doing chunk after chunk is a run. -/
theorem chunks_run (hworkers : 0 < workers) (cs : List Nat) (results : Array β)
    (causes : Array (Option Error)) (log : List σ) :
    BatchRun steps result workers ⟨cs, [], results, causes, log⟩ (cs.flatMap (chunkActions steps))
      (cs.foldl (performChunk steps result) ⟨[], [], results, causes, log⟩) := by
  induction cs generalizing results causes log with
  | nil => exact .done _
  | cons c cs ih =>
    rw [List.flatMap_cons, List.foldl_cons]
    exact (chunk_run hworkers c cs results causes log).trans (ih _ _ _)

/-- Whole chunks leave no chunk in between. -/
theorem finished_foldl_performChunk (cs : List Nat) {s : BatchState σ β} (h : s.Finished) :
    (cs.foldl (performChunk steps result) s).Finished := by
  induction cs generalizing s with
  | nil => exact h
  | cons c cs ih => exact ih h

/-- Whole chunks have their steps one after the other. -/
theorem log_foldl_performChunk (cs : List Nat) (s : BatchState σ β) :
    (cs.foldl (performChunk steps result) s).log = s.log ++ cs.flatMap steps := by
  induction cs generalizing s with
  | nil => exact (List.append_nil _).symm
  | cons c cs ih =>
    rw [List.foldl_cons, ih, List.flatMap_cons, ← List.append_assoc]
    rfl

variable [Inhabited β] (chunks : Nat)

variable (steps result) in
/-- **One worker alone does a run,** and finishes it. -/
theorem sequentialState_run (hworkers : 0 < workers) :
    BatchRun steps result workers (batchStart chunks) ((List.range chunks).flatMap (chunkActions steps))
      (sequentialState steps result chunks) :=
  chunks_run hworkers _ _ _ _

theorem sequentialState_finished : (sequentialState steps result chunks).Finished :=
  finished_foldl_performChunk _ ⟨rfl, rfl⟩

/-- One worker alone does the steps of all tasks in order. -/
theorem sequentialState_log :
    (sequentialState steps result chunks).log = (List.range chunks).flatMap steps :=
  log_foldl_performChunk _ _

end Sequential

end Runs

end Galerkin
