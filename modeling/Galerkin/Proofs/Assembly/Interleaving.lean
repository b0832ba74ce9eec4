import Galerkin.Proofs.Assembly.Banded
import Galerkin.Proofs.Assembly.Entries

/-! # Work distribution

An assembler that all workers share has one result for all pools. A sparse assembly concatenates the entries
of its chunks in order. The chunks of a banded assembly write to one array, a symmetric form also into parts
of the array that belong to other chunks, and the workers can take their positions in any order. A run is
any such order, chunk by chunk from front to back.

* **`Assembler.BandedStep`**, **`Assembler.BandedRun`** — one position, and the positions of a run;
* **`Assembler.BandedStep.spec`**, **`Assembler.BandedRun.spec`** — what a step and a run do;
* **`Assembler.BandedRun.entries_eq`** — a finished run has the entries of all positions in storage order;
* **`Assembler.exists_finished`** — a run can be finished;
* **`Assembler.BandedRun.disjoint`** — no two steps of a run write the same entry;
* **`Assembler.work_distribution`** — the result does not depend on the pool. -/

namespace Galerkin.Assembler

variable {α : Type}

/-! ## (1) Runs -/

/-- **The state of a run:** the entries so far, and the positions that each chunk still has to go over. -/
structure BandedState (α : Type) where
  entries : Array α
  remaining : List (List (List Nat))

/-- A run is over when no chunk has a position left. -/
def BandedState.Finished (s : BandedState α) : Prop := ∀ positions ∈ s.remaining, positions = []

variable [Scalar α]

/-- **A step of a run:** some chunk evaluates the block of its next position and writes it, for a symmetric
form to the mirrored position too. -/
inductive BandedStep (a : Assembler α) (e : Evaluator α) (candidates : List AxisCandidates)
    (mirrors : List (Array Nat)) (symmetric : Bool) : BandedState α → List Nat → BandedState α → Prop
  | position {entries : Array α} {before after : List (List (List Nat))} {p : List Nat}
      {rest : List (List Nat)} {writes : List (BlockWrite α)}
      (hwrites : a.positionWrites e candidates mirrors symmetric p = .ok writes) :
      BandedStep a e candidates mirrors symmetric ⟨entries, before ++ (p :: rest) :: after⟩ p
        ⟨writes.foldl (writeBlock (a.test.components * a.trial.components)) entries,
          before ++ rest :: after⟩

/-- **A run:** the positions of its steps in order. -/
inductive BandedRun (a : Assembler α) (e : Evaluator α) (candidates : List AxisCandidates)
    (mirrors : List (Array Nat)) (symmetric : Bool) :
    BandedState α → List (List Nat) → BandedState α → Prop
  | done (s : BandedState α) : BandedRun a e candidates mirrors symmetric s [] s
  | step {s t u : BandedState α} {p : List Nat} {ps : List (List Nat)}
      (hstep : BandedStep a e candidates mirrors symmetric s p t)
      (hrest : BandedRun a e candidates mirrors symmetric t ps u) :
      BandedRun a e candidates mirrors symmetric s (p :: ps) u

/-- **The start of a run:** zeros, and the positions of all chunks. -/
def bandedStart (a : Assembler α) (pool : WorkerPool) (candidates : List AxisCandidates) :
    BandedState α where
  entries := a.bandedEntries candidates []
  remaining := (firstAxisBoxes (candidates.map (·.size)) pool.chunkCount).map fun box =>
    MultiIndex.walk box.1 box.2

variable {a : Assembler α} {e : Evaluator α} {candidates : List AxisCandidates}
  {mirrors : List (Array Nat)} {symmetric : Bool} {s t : BandedState α} {p : List Nat}
  {ps : List (List Nat)}

/-- **What a step does:** it takes a position off what remains, and writes the blocks of the position. -/
theorem BandedStep.spec (h : BandedStep a e candidates mirrors symmetric s p t) :
    s.remaining.flatten.Perm (p :: t.remaining.flatten) ∧
      ∃ writes, a.positionWrites e candidates mirrors symmetric p = .ok writes ∧
        t.entries = writes.foldl (writeBlock (a.test.components * a.trial.components)) s.entries := by
  cases h with
  | @position entries before after _ rest writes hwrites =>
    refine ⟨?_, writes, hwrites, rfl⟩
    simp only [List.flatten_append, List.flatten_cons, List.cons_append]
    exact List.perm_middle

/-- **What a run does:** it takes its positions off what remains, and writes their blocks in order. -/
theorem BandedRun.spec (h : BandedRun a e candidates mirrors symmetric s ps t) :
    s.remaining.flatten.Perm (ps ++ t.remaining.flatten) ∧
      ∃ writes, ps.mapM (a.positionWrites e candidates mirrors symmetric) = .ok writes ∧
        t.entries = writes.flatten.foldl (writeBlock (a.test.components * a.trial.components))
          s.entries := by
  induction h with
  | done s => exact ⟨List.Perm.refl _, [], rfl, rfl⟩
  | step hstep _ ih =>
    obtain ⟨hremaining, writes, hwrites, hentries⟩ := hstep.spec
    obtain ⟨hremaining', writes', hwrites', hentries'⟩ := ih
    refine ⟨hremaining.trans (hremaining'.cons _), writes :: writes', ?_, ?_⟩
    · rw [mapM_eq_ok_iff] at hwrites' ⊢
      exact .cons hwrites hwrites'
    · rw [hentries', hentries, List.flatten_cons, List.foldl_append]

/-- All chunks together have all positions to go over. -/
theorem flatten_remaining_start (pool : WorkerPool) :
    (a.bandedStart pool candidates).remaining.flatten = visitedCells (candidates.map (·.size)) := by
  rw [bandedStart, ← List.flatMap_def, flatMap_firstAxisBoxes]

omit [Scalar α] in
/-- Nothing remains when a run is over. -/
theorem BandedState.Finished.flatten_remaining (h : s.Finished) : s.remaining.flatten = [] :=
  List.flatten_eq_nil_iff.mpr h

/-- **A run can be finished** if every position that remains has its writes. -/
theorem exists_finished (s : BandedState α)
    (h : ∀ p ∈ s.remaining.flatten, ∃ writes,
      a.positionWrites e candidates mirrors symmetric p = .ok writes) :
    ∃ ps t, BandedRun a e candidates mirrors symmetric s ps t ∧ t.Finished := by
  induction hn : s.remaining.flatten.length generalizing s with
  | zero =>
    exact ⟨[], s, .done s, List.flatten_eq_nil_iff.mp (List.eq_nil_of_length_eq_zero hn)⟩
  | succ n ih =>
    -- Some chunk has a position left.
    obtain ⟨p, hp⟩ := List.exists_mem_of_length_pos (Nat.lt_of_lt_of_eq (Nat.succ_pos n) hn.symm)
    obtain ⟨positions, hpositions, hp⟩ := List.mem_flatten.mp hp
    obtain ⟨q, rest, rfl⟩ := List.exists_cons_of_ne_nil (List.ne_nil_of_mem hp)
    obtain ⟨before, after, hsplit⟩ := List.append_of_mem hpositions
    obtain ⟨writes, hwrites⟩ := h q (List.mem_flatten.mpr ⟨_, hpositions, List.mem_cons_self⟩)
    have hstep : BandedStep a e candidates mirrors symmetric ⟨s.entries, before ++ (q :: rest) :: after⟩ q
        ⟨_, before ++ rest :: after⟩ := .position hwrites
    rw [← hsplit] at hstep
    have hremaining := hstep.spec.1
    obtain ⟨ps, t, hrun, hfinished⟩ := ih _ (fun p hp => h p (hremaining.mem_iff.mpr
      (List.mem_cons_of_mem _ hp))) (by
        have hlength := hremaining.length_eq
        rw [hn, List.length_cons] at hlength
        exact (Nat.succ.inj hlength).symm)
    exact ⟨q :: ps, t, .step hstep hrun, hfinished⟩

/-! ## (2) Entries of a run -/

/-- A position that is not left to its mirror has its block. -/
theorem blockBy_eq_blockAt {writes : List (BlockWrite α)}
    (h : a.positionWrites e candidates mirrors symmetric p = .ok writes)
    (hskip : skips candidates symmetric p = false) :
    a.blockBy e ((pairsOn candidates p).map (·.1)) ((pairsOn candidates p).map (·.2)) =
      .ok (blockAt candidates (a.blockValue e) p) := by
  obtain ⟨values, hvalues⟩ := exists_block_of_positionWrites h hskip
  exact blockBy_eq_blockValue hvalues

/-- The writes of a position are those of its block. -/
theorem eq_writesAt {writes : List (BlockWrite α)}
    (h : a.positionWrites e candidates mirrors symmetric p = .ok writes) :
    a.writesAt candidates mirrors symmetric (a.blockValue e) p = writes :=
  Except.ok.inj ((positionWrites_eq_ok fun hskip => blockBy_eq_blockAt h hskip).symm.trans h)

/-- The block of a position is full. -/
theorem size_blockAt (hfills : a.FillsBlocks e) {writes : List (BlockWrite α)}
    (h : a.positionWrites e candidates mirrors symmetric p = .ok writes)
    (hskip : skips candidates symmetric p = false) :
    (blockAt candidates (a.blockValue e) p).size = a.test.components * a.trial.components :=
  hfills.size_eq (blockBy_eq_blockAt h hskip)

/-- Steps that write no entry in common. -/
def DisjointSteps (a : Assembler α) (e : Evaluator α) (candidates : List AxisCandidates)
    (mirrors : List (Array Nat)) (symmetric : Bool) (p q : List Nat) : Prop :=
  ∀ ws vs, a.positionWrites e candidates mirrors symmetric p = .ok ws →
    a.positionWrites e candidates mirrors symmetric q = .ok vs → ∀ w ∈ ws, ∀ v ∈ vs, ∀ k,
      (writtenEntries (a.test.components * a.trial.components) w).contains k = true →
        (writtenEntries (a.test.components * a.trial.components) v).contains k = false

section Runs

variable (hpos : ∀ c ∈ candidates, 0 < c.size) {pool : WorkerPool}
  (hm : symmetric = true → MirrorsOf candidates mirrors) (hfills : a.FillsBlocks e)
  (hrun : BandedRun a e candidates mirrors symmetric (a.bandedStart pool candidates) ps s)

include hpos hrun

omit hm hfills in
/-- A run goes over positions of the candidates. -/
theorem BandedRun.isPosition : ∀ p ∈ ps, IsPosition candidates p := by
  intro p hp
  have hperm := hrun.spec.1
  rw [flatten_remaining_start] at hperm
  exact isPosition_of_visited hpos (hperm.mem_iff.mpr (List.mem_append_left _ hp))

include hm hfills

/-- **A finished run** has the entries that the positions in storage order lead to. -/
theorem BandedRun.entries_eq (hfinished : s.Finished) :
    s.entries = a.runEntries candidates mirrors symmetric (a.blockValue e) := by
  obtain ⟨hperm, writes, hwrites, hentries⟩ := hrun.spec
  rw [flatten_remaining_start, hfinished.flatten_remaining, List.append_nil] at hperm
  -- The writes do not depend on the entries so far, so the run only permutes them.
  obtain rfl := eq_map_of_mapM_eq_ok hwrites fun p ws hws => eq_writesAt hws
  have hconsistent : ConsistentWrites (a.test.components * a.trial.components)
      (ps.flatMap (a.writesAt candidates mirrors symmetric (a.blockValue e))) := by
    refine consistent_writesAt hm (BandedRun.isPosition hpos hrun) fun p hp hskip => ?_
    obtain ⟨_, -, hstep⟩ := exists_step_of_mapM hwrites hp
    exact size_blockAt hfills hstep hskip
  rw [hentries, ← List.flatMap_def]
  exact hconsistent.foldl_perm (hperm.symm.flatMap_right _) _

/-- **No two steps of a run write the same entry,** if no axis lists a pair twice. -/
theorem BandedRun.disjoint (hlen : ∀ c ∈ candidates, c.test.size = c.trial.size)
    (hnodup : ∀ c ∈ candidates, c.pairs.Nodup) :
    ps.Pairwise (a.DisjointSteps e candidates mirrors symmetric) := by
  have hperm := hrun.spec.1
  rw [flatten_remaining_start] at hperm
  have hdistinct : ps.Nodup := (List.nodup_append.mp (hperm.nodup_iff.mp (nodup_visitedCells _))).1
  refine List.Pairwise.imp_of_mem (fun {p q} hp hq hne ws vs hws hvs w hw v hv k => ?_) hdistinct
  have hp := BandedRun.isPosition hpos hrun p hp
  have hq := BandedRun.isPosition hpos hrun q hq
  rw [← eq_writesAt hws] at hw
  rw [← eq_writesAt hvs] at hv
  -- Writes at one number come from positions with the same pairs, which are one position.
  refine writtenEntries_disjoint (size_of_mem_writesAt (size_blockAt hfills hws) hw)
    (size_of_mem_writesAt (size_blockAt hfills hvs) hv) fun heq => hne ?_
  exact pairsOn_inj hlen hnodup hp hq (eq_of_mem_writesAt hm hp hq hw hv heq).1

end Runs

/-! ## (3) Pools -/

/-- **Work distribution does not change a result.** Let all workers share an assembler of full blocks, and
let two pools agree in the use of symmetry. A sparse assembly has the same entries in the same order, and a
banded assembly the same result. If all blocks are evaluated, a banded assembly is made from entries that
every run of either pool ends with, in whatever order its chunks take their positions, and every run can be
finished. If no axis lists a pair twice, no two steps of a run write the same entry. -/
theorem work_distribution (harity : a.arity = .bilinear) (hshared : a.access = .shared)
    (hfills : a.FillsBlocks a.evaluator) {pool pool' : WorkerPool}
    (hsymmetric : pool.options.symmetric = pool'.options.symmetric) :
    ((a.sparseTriplets pool).result = (a.sparseTriplets pool').result ∧
      (a.assembleSparse pool).result = (a.assembleSparse pool').result) ∧
    ∀ candidates mirrors, a.prepareAxes (a.usesSymmetry pool) candidates = .ok mirrors →
      (a.assembleBandedOver pool candidates).result = (a.assembleBandedOver pool' candidates).result ∧
      ((∀ p ∈ visitedCells (candidates.map (·.size)), ∃ writes, a.positionWrites a.evaluator candidates
          mirrors (a.usesSymmetry pool) p = .ok writes) →
        ∃ entries, ∀ q ∈ [pool, pool'],
          (a.assembleBandedOver q candidates).result = BandedMatrix.make candidates a.test.words
            a.trial.words entries a.test.components a.trial.components ∧
          ∀ ps s, BandedRun a a.evaluator candidates mirrors (a.usesSymmetry pool)
              (a.bandedStart q candidates) ps s →
            (s.Finished → s.entries = entries) ∧
            ∃ ps' t, BandedRun a a.evaluator candidates mirrors (a.usesSymmetry pool) s ps' t ∧
              t.Finished) ∧
      ((∀ c ∈ candidates, c.pairs.Nodup) → ∀ q ∈ [pool, pool'], ∀ ps s,
        BandedRun a a.evaluator candidates mirrors (a.usesSymmetry pool) (a.bandedStart q candidates) ps s →
          ps.Pairwise (a.DisjointSteps a.evaluator candidates mirrors (a.usesSymmetry pool))) := by
  have he : a.workerEvaluator.result = .ok a.evaluator := by
    rw [workerEvaluator, hshared]
    rfl
  have hsame : ∀ q ∈ [pool, pool'], a.usesSymmetry q = a.usesSymmetry pool := by
    intro q hq
    rcases List.mem_pair.mp hq with rfl | rfl
    · rfl
    · rw [usesSymmetry, usesSymmetry, hsymmetric]
  have hsame' := hsame pool' (List.mem_pair.mpr (.inr rfl))
  have htriplets : (a.sparseTriplets pool).result = (a.sparseTriplets pool').result := by
    rw [sparseTriplets_result he, sparseTriplets_result he, hsame']
  refine ⟨⟨htriplets, by rw [assembleSparse_bind, assembleSparse_bind, htriplets]⟩,
    fun candidates mirrors hmirrors => ⟨?_, fun hevaluated => ?_, fun hnodup q _ ps s hrun => ?_⟩⟩
  · rw [assembleBandedOver_result he, assembleBandedOver_result he, hsame']
  · refine ⟨a.runEntries candidates mirrors (a.usesSymmetry pool) (a.blockValue a.evaluator),
      fun q hq => ⟨?_, fun ps s hrun => ⟨?_, ?_⟩⟩⟩
    · refine assembleBandedOver_eq (hsame q hq) harity hmirrors he fun p hp hskip => ?_
      obtain ⟨writes, hwrites⟩ := hevaluated p hp
      exact blockBy_eq_blockAt hwrites hskip
    · exact BandedRun.entries_eq (fun c hc => (prepareAxes_sizes hmirrors c hc).1)
        (prepareAxes_eq_ok hmirrors).2 hfills hrun
    -- What remains in the middle of a run are visited positions.
    · refine exists_finished s fun p hp => hevaluated p ?_
      have hperm := hrun.spec.1
      rw [flatten_remaining_start] at hperm
      exact hperm.mem_iff.mpr (List.mem_append_right _ hp)
  · exact BandedRun.disjoint (fun c hc => (prepareAxes_sizes hmirrors c hc).1)
      (prepareAxes_eq_ok hmirrors).2 hfills hrun (fun c hc => (prepareAxes_sizes hmirrors c hc).2) hnodup

/-- The pairs of functions of degree one over two elements that meet, and one pair on a second axis. -/
def hatCandidates : List AxisCandidates :=
  [.ofPairs [(0, 0), (0, 1), (1, 0), (1, 1), (1, 2), (2, 1), (2, 2)], .ofPairs [(0, 0)]]

/-- One worker and three have the same results, whatever the order of their steps. -/
theorem work_distribution_hats :
    (hatAssembler.sparseTriplets ⟨{}, 1⟩).result = (hatAssembler.sparseTriplets ⟨{}, 3⟩).result ∧
      ∃ entries, ∀ q ∈ ([⟨{}, 1⟩, ⟨{}, 3⟩] : List WorkerPool),
        (hatAssembler.assembleBandedOver q hatCandidates).result = BandedMatrix.make hatCandidates
          hatAssembler.test.words hatAssembler.trial.words entries 2 2 ∧
        ∀ ps s, BandedRun hatAssembler hatAssembler.evaluator hatCandidates
            [#[0, 2, 1, 3, 5, 4, 6], #[0]] true (hatAssembler.bandedStart q hatCandidates) ps s →
          (s.Finished → s.entries = entries) ∧ ps.Pairwise (hatAssembler.DisjointSteps
            hatAssembler.evaluator hatCandidates [#[0, 2, 1, 3, 5, 4, 6], #[0]] true) := by
  have hfills : hatAssembler.FillsBlocks hatAssembler.evaluator := by
    intro test trial values h
    obtain rfl := Except.ok.inj h
    rfl
  obtain ⟨⟨htriplets, -⟩, hbanded⟩ := @work_distribution _ _ hatAssembler rfl rfl hfills ⟨{}, 1⟩ ⟨{}, 3⟩ rfl
  obtain ⟨-, hentries, hdisjoint⟩ := hbanded hatCandidates [#[0, 2, 1, 3, 5, 4, 6], #[0]]
    (by decide +kernel)
  have hsome : ∀ p ∈ visitedCells (hatCandidates.map (·.size)),
      (hatAssembler.positionWrites hatAssembler.evaluator hatCandidates [#[0, 2, 1, 3, 5, 4, 6], #[0]] true
        p).toOption.isSome = true := by
    decide +kernel
  obtain ⟨entries, hruns⟩ := hentries fun p hp => exists_eq_ok (hsome p hp)
  exact ⟨htriplets, entries, fun q hq => ⟨(hruns q hq).1, fun ps s hrun =>
    ⟨((hruns q hq).2 ps s hrun).1, hdisjoint (by decide +kernel) q hq ps s hrun⟩⟩⟩

end Galerkin.Assembler
