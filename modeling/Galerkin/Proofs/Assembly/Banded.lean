import Galerkin.Proofs.Assembly.Sparse
import Galerkin.Proofs.Assembly.Writes
import Galerkin.Proofs.Sparsity.Transpose
import Mathlib.Data.Prod.Basic

/-! # Runs of a banded assembly

A banded assembly goes over the positions of the candidates, chunk after chunk of the first axis. A position
writes its own block, and for a symmetric form the transposed one to the mirrored position; a position above
the diagonal is left to its mirror. All these writes are consistent, so the entries do not depend on the
order of the positions.

* **`IsPosition`**, **`pairsOn`**, **`mirrorOn`** — positions on several axes, their pairs and mirrors;
* **`Assembler.writesAt`** — the writes of a position;
* **`Assembler.consistent_writesAt`** — the writes of any positions are consistent;
* **`Assembler.assembleBandedOver_result`** — the result of an assembly, whatever the chunks;
* **`Assembler.getElem?_own`**, **`Assembler.getElem?_mirrored`**, **`Assembler.getElem?_unfilled`** — the
  entries at a position. -/

namespace Galerkin

variable {α : Type} {candidates : List AxisCandidates} {mirrors : List (Array Nat)}
  {p q : List Nat}

/-! ## (1) Positions on several axes -/

/-- **A position of some candidates:** one on each axis. -/
def IsPosition (candidates : List AxisCandidates) (p : List Nat) : Prop :=
  List.Forall₂ (fun c i => i < c.size) candidates p

/-- The pairs that a position stands for. -/
def pairsOn (candidates : List AxisCandidates) (p : List Nat) : List (Nat × Nat) :=
  List.zipWith (fun (c : AxisCandidates) i => c.pair i) candidates p

/-- The position of the mirrored pairs. -/
def mirrorOn (mirrors : List (Array Nat)) (p : List Nat) : List Nat :=
  List.zipWith (fun (m : Array Nat) i => m.getD i 0) mirrors p

/-- Whether the pairs of a position are not listed before, on any axis. -/
def FirstPosition (candidates : List AxisCandidates) (p : List Nat) : Prop :=
  List.Forall₂ AxisCandidates.FirstAt candidates p

instance (candidates : List AxisCandidates) (p : List Nat) : Decidable (IsPosition candidates p) :=
  inferInstanceAs (Decidable (List.Forall₂ _ _ _))

instance (candidates : List AxisCandidates) (p : List Nat) : Decidable (FirstPosition candidates p) :=
  inferInstanceAs (Decidable (List.Forall₂ _ _ _))

/-- Positions of mirrored pairs on every axis. -/
def MirrorsOf (candidates : List AxisCandidates) (mirrors : List (Array Nat)) : Prop :=
  List.Forall₂ AxisCandidates.IsTranspose candidates mirrors

/-- A position has indices below the numbers of candidates. -/
theorem isPosition_iff : IsPosition candidates p ↔ List.Forall₂ (· < ·) p (candidates.map (·.size)) := by
  rw [List.forall₂_map_right_iff]
  exact ⟨List.Forall₂.flip, List.Forall₂.flip⟩

/-- The mirror of a position is a position. -/
theorem IsPosition.mirrorOn (hp : IsPosition candidates p) (hm : MirrorsOf candidates mirrors) :
    IsPosition candidates (mirrorOn mirrors p) := by
  unfold IsPosition MirrorsOf at *
  induction hm generalizing p with
  | nil => exact .nil
  | @cons c m candidates mirrors h _ ih =>
    obtain ⟨i, p, hi, hps, rfl⟩ := List.forall₂_cons_left_iff.mp hp
    exact .cons (h.lt i hi) (ih hps)

/-- **The mirror of a position has the pairs with the roles exchanged.** -/
theorem pairsOn_mirrorOn (hp : IsPosition candidates p) (hm : MirrorsOf candidates mirrors) :
    pairsOn candidates (mirrorOn mirrors p) = (pairsOn candidates p).map Prod.swap := by
  unfold IsPosition MirrorsOf pairsOn mirrorOn at *
  induction hm generalizing p with
  | nil => rfl
  | @cons c m candidates mirrors h _ ih =>
    obtain ⟨i, p, hi, hps, rfl⟩ := List.forall₂_cons_left_iff.mp hp
    rw [List.zipWith_cons_cons, List.zipWith_cons_cons, List.zipWith_cons_cons, List.map_cons,
      h.pair_eq i hi, ih hps]

/-- The mirror of a position has pairs that are not listed before. -/
theorem firstPosition_mirrorOn (hp : IsPosition candidates p) (hm : MirrorsOf candidates mirrors) :
    FirstPosition candidates (mirrorOn mirrors p) := by
  unfold IsPosition MirrorsOf FirstPosition at *
  induction hm generalizing p with
  | nil => exact .nil
  | @cons c m candidates mirrors h _ ih =>
    obtain ⟨i, p, hi, hps, rfl⟩ := List.forall₂_cons_left_iff.mp hp
    exact .cons (h.firstAt i hi) (ih hps)

/-- **A position whose pairs are not listed before** is the mirror of its mirror. -/
theorem mirrorOn_mirrorOn (hp : IsPosition candidates p) (hm : MirrorsOf candidates mirrors)
    (hfirst : FirstPosition candidates p) : mirrorOn mirrors (mirrorOn mirrors p) = p := by
  unfold IsPosition MirrorsOf FirstPosition mirrorOn at *
  induction hm generalizing p with
  | nil =>
    obtain rfl := List.forall₂_nil_left_iff.mp hp
    rfl
  | @cons c m candidates mirrors h _ ih =>
    obtain ⟨i, p, hi, hps, rfl⟩ := List.forall₂_cons_left_iff.mp hp
    obtain ⟨hfirst, hrest⟩ := List.forall₂_cons.mp hfirst
    rw [List.zipWith_cons_cons, List.zipWith_cons_cons, h.mirror_mirror hi hfirst, ih hps hrest]

/-- **Without repetitions positions differ if their pairs do.** -/
theorem pairsOn_inj (hlen : ∀ c ∈ candidates, c.test.size = c.trial.size)
    (hnodup : ∀ c ∈ candidates, c.pairs.Nodup) (hp : IsPosition candidates p)
    (hq : IsPosition candidates q) (h : pairsOn candidates p = pairsOn candidates q) : p = q := by
  unfold IsPosition pairsOn at *
  induction hp generalizing q with
  | nil => exact (List.forall₂_nil_left_iff.mp hq).symm
  | @cons c i candidates p hi _ ih =>
    obtain ⟨j, q, hj, hqs, rfl⟩ := List.forall₂_cons_left_iff.mp hq
    obtain ⟨hlen, hlens⟩ := List.forall_mem_cons.mp hlen
    obtain ⟨hnodup, hnodups⟩ := List.forall_mem_cons.mp hnodup
    rw [List.zipWith_cons_cons, List.zipWith_cons_cons] at h
    obtain ⟨hpair, hrest⟩ := List.cons.inj h
    rw [AxisCandidates.pair_inj hlen hnodup hi hj hpair, ih hlens hnodups hqs hrest]

/-- Without repetitions no pair is listed before. -/
theorem firstPosition_of_nodup (hlen : ∀ c ∈ candidates, c.test.size = c.trial.size)
    (hnodup : ∀ c ∈ candidates, c.pairs.Nodup) (hp : IsPosition candidates p) :
    FirstPosition candidates p := by
  unfold IsPosition FirstPosition at *
  induction hp with
  | nil => exact .nil
  | @cons c i candidates p hi _ ih =>
    obtain ⟨hlen, hlens⟩ := List.forall_mem_cons.mp hlen
    obtain ⟨hnodup, hnodups⟩ := List.forall_mem_cons.mp hnodup
    exact .cons (AxisCandidates.firstAt_of_nodup hlen hnodup hi) (ih hlens hnodups)

/-- The numbers of different positions differ. -/
theorem linearIndex_position_inj (hp : IsPosition candidates p) (hq : IsPosition candidates q)
    (h : MultiIndex.linearIndex p (candidates.map (·.size)) =
      MultiIndex.linearIndex q (candidates.map (·.size))) : p = q :=
  MultiIndex.linearIndex_inj (isPosition_iff.mp hp) (isPosition_iff.mp hq) h

namespace Assembler

/-- The comparison of the first axis decides, unless its functions are the same. -/
theorem compareAxes_cons (i j : Nat) (pairs : List (Nat × Nat)) :
    compareAxes ((i, j) :: pairs) = if i = j then compareAxes pairs else compare j i := by
  unfold compareAxes
  by_cases h : i = j
  · rw [if_pos h, List.find?_cons_of_neg (by simpa using h)]
  · rw [if_neg h, List.find?_cons_of_pos (by simpa using h)]

/-- **Exchanging the roles turns the comparison round.** -/
theorem compareAxes_swap (pairs : List (Nat × Nat)) :
    compareAxes (pairs.map Prod.swap) = (compareAxes pairs).swap := by
  induction pairs with
  | nil => rfl
  | cons x pairs ih =>
    obtain ⟨i, j⟩ := x
    rw [List.map_cons, Prod.swap_prod_mk, compareAxes_cons, compareAxes_cons, ih]
    by_cases h : i = j
    · rw [if_pos h, if_pos h.symm]
    · rw [if_neg h, if_neg fun h' => h h'.symm]
      exact Std.OrientedCmp.eq_swap

variable [Scalar α] {a : Assembler α} {e : Evaluator α} {symmetric : Bool}
  {block : (test trial : List Nat) → Array α}

/-! ## (2) The writes of a position -/

/-- The block that belongs to a position. -/
def blockAt (candidates : List AxisCandidates) (block : (test trial : List Nat) → Array α)
    (p : List Nat) : Array α :=
  block ((pairsOn candidates p).map (·.1)) ((pairsOn candidates p).map (·.2))

/-- An evaluator fills the blocks of components. -/
def FillsBlocks (a : Assembler α) (e : Evaluator α) : Prop :=
  ∀ test trial values, e.block test trial = .ok values →
    values.size = a.test.components * a.trial.components

omit [Scalar α] in
/-- A block that is evaluated is full. -/
theorem FillsBlocks.size_eq (h : a.FillsBlocks e) {test trial : List Nat} {values : Array α}
    (hvalues : a.blockBy e test trial = .ok values) :
    values.size = a.test.components * a.trial.components := by
  obtain ⟨_, _, hvalues⟩ := bind_eq_ok_iff.mp hvalues
  obtain ⟨_, _, hvalues⟩ := bind_eq_ok_iff.mp hvalues
  exact h _ _ _ (require_bind_eq_ok_iff.mp hvalues).2

/-- The block of two functions, empty if it is not evaluated. -/
def blockValue (a : Assembler α) (e : Evaluator α) (test trial : List Nat) : Array α :=
  (a.blockBy e test trial).toOption.getD #[]

omit [Scalar α] in
/-- The value of a block that is evaluated. -/
theorem blockBy_eq_blockValue {test trial : List Nat} {values : Array α}
    (h : a.blockBy e test trial = .ok values) :
    a.blockBy e test trial = .ok (a.blockValue e test trial) := by
  rw [blockValue, h]
  rfl

/-- Whether a run leaves a position to its mirror. -/
def skips (candidates : List AxisCandidates) (symmetric : Bool) (p : List Nat) : Bool :=
  symmetric && compareAxes (pairsOn candidates p) == .gt

/-- **The writes of a position:** its own block, and below the diagonal of a symmetric form the transposed
one at the mirrored position. -/
def writesAt (a : Assembler α) (candidates : List AxisCandidates) (mirrors : List (Array Nat))
    (symmetric : Bool) (block : (test trial : List Nat) → Array α) (p : List Nat) :
    List (BlockWrite α) :=
  let sizes := candidates.map (·.size)
  let values := blockAt candidates block p
  if skips candidates symmetric p then []
  else if symmetric && compareAxes (pairsOn candidates p) == .lt then
    [(MultiIndex.linearIndex p sizes, values), (MultiIndex.linearIndex (mirrorOn mirrors p) sizes,
      mirrored a.test.components a.trial.components values)]
  else [(MultiIndex.linearIndex p sizes, values)]

/-- **A position whose block is evaluated** has these writes. -/
theorem positionWrites_eq_ok (h : skips candidates symmetric p = false →
    a.blockBy e ((pairsOn candidates p).map (·.1)) ((pairsOn candidates p).map (·.2)) =
      .ok (blockAt candidates block p)) :
    a.positionWrites e candidates mirrors symmetric p =
      .ok (a.writesAt candidates mirrors symmetric block p) := by
  unfold positionWrites writesAt
  change (if skips candidates symmetric p then _ else _) = _
  by_cases hskip : skips candidates symmetric p = true
  · rw [if_pos hskip, if_pos hskip]
    rfl
  · rw [Bool.not_eq_true] at hskip
    simp only [hskip, Bool.false_eq_true, if_false]
    refine (congrArg (· >>= _) (h hskip)).trans ?_
    change (if symmetric && compareAxes (pairsOn candidates p) == .lt then _ else _) = _
    split
    · rfl
    · rfl

/-- A position that has writes and is not left to its mirror has a block. -/
theorem exists_block_of_positionWrites {ws : List (BlockWrite α)}
    (h : a.positionWrites e candidates mirrors symmetric p = .ok ws)
    (hskip : skips candidates symmetric p = false) : ∃ values,
      a.blockBy e ((pairsOn candidates p).map (·.1)) ((pairsOn candidates p).map (·.2)) =
        .ok values := by
  unfold positionWrites at h
  change (if skips candidates symmetric p then _ else _) = _ at h
  simp only [hskip, Bool.false_eq_true, if_false] at h
  obtain ⟨values, hvalues, -⟩ := bind_eq_ok_iff.mp h
  exact ⟨values, hvalues⟩

/-- What a position writes. -/
theorem mem_writesAt {w : BlockWrite α} (h : w ∈ a.writesAt candidates mirrors symmetric block p) :
    skips candidates symmetric p = false ∧
      (w = (MultiIndex.linearIndex p (candidates.map (·.size)), blockAt candidates block p) ∨
        symmetric = true ∧ compareAxes (pairsOn candidates p) = .lt ∧
          w = (MultiIndex.linearIndex (mirrorOn mirrors p) (candidates.map (·.size)),
            mirrored a.test.components a.trial.components (blockAt candidates block p))) := by
  unfold writesAt at h
  by_cases hskip : skips candidates symmetric p = true
  · rw [if_pos hskip] at h
    cases h
  · rw [if_neg hskip] at h
    refine ⟨Bool.not_eq_true _ ▸ hskip, ?_⟩
    split at h
    · rename_i hlt
      rw [Bool.and_eq_true, beq_iff_eq] at hlt
      rcases List.mem_pair.mp h with rfl | rfl
      · exact .inl rfl
      · exact .inr ⟨hlt.1, hlt.2, rfl⟩
    · exact .inl (List.mem_singleton.mp h)

/-- A transposed block has as many entries. -/
theorem size_mirrored (nr nc : Nat) (values : Array α) : (mirrored nr nc values).size = nr * nc := by
  rw [mirrored, List.size_toArray, List.length_flatMap]
  simp only [List.length_map, List.length_range, List.map_const', List.sum_replicate_nat]
  exact Nat.mul_comm nc nr

/-- The mirror of a position below the diagonal lies above it. -/
theorem compareAxes_mirrorOn (hm : MirrorsOf candidates mirrors) (hp : IsPosition candidates p)
    (h : compareAxes (pairsOn candidates p) = .lt) :
    compareAxes (pairsOn candidates (mirrorOn mirrors p)) = .gt := by
  rw [pairsOn_mirrorOn hp hm, compareAxes_swap, h]
  rfl

/-- A position that is not left to its mirror is not the mirror of one below the diagonal. -/
theorem ne_mirrorOn (hm : MirrorsOf candidates mirrors) (hq : IsPosition candidates q)
    (hp : skips candidates true p = false) (h : compareAxes (pairsOn candidates q) = .lt) :
    p ≠ mirrorOn mirrors q := by
  rintro rfl
  rw [skips, compareAxes_mirrorOn hm hq h] at hp
  cases hp

/-- **Writes with the same position** come from positions with the same pairs, and are the same. -/
theorem eq_of_mem_writesAt (hm : symmetric = true → MirrorsOf candidates mirrors)
    (hp : IsPosition candidates p) (hq : IsPosition candidates q) {w v : BlockWrite α}
    (hw : w ∈ a.writesAt candidates mirrors symmetric block p)
    (hv : v ∈ a.writesAt candidates mirrors symmetric block q) (heq : w.1 = v.1) :
    pairsOn candidates p = pairsOn candidates q ∧ w = v := by
  obtain ⟨hpskip, rfl | ⟨hsym, hplt, rfl⟩⟩ := mem_writesAt hw
  · obtain ⟨-, rfl | ⟨rfl, hqlt, rfl⟩⟩ := mem_writesAt hv
    · rw [linearIndex_position_inj hp hq heq]
      exact ⟨rfl, rfl⟩
    -- A mirror lies above the diagonal, where no position writes its own block.
    · exact absurd (linearIndex_position_inj hp (hq.mirrorOn (hm rfl)) heq)
        (ne_mirrorOn (hm rfl) hq hpskip hqlt)
  · subst hsym
    obtain ⟨hqskip, rfl | ⟨-, -, rfl⟩⟩ := mem_writesAt hv
    · exact absurd (linearIndex_position_inj hq (hp.mirrorOn (hm rfl)) heq.symm)
        (ne_mirrorOn (hm rfl) hp hqskip hplt)
    · -- Equal mirrors belong to equal pairs, so to equal blocks.
      have hmirror := linearIndex_position_inj (hp.mirrorOn (hm rfl)) (hq.mirrorOn (hm rfl)) heq
      have hswap := congrArg (pairsOn candidates) hmirror
      rw [pairsOn_mirrorOn hp (hm rfl), pairsOn_mirrorOn hq (hm rfl)] at hswap
      have hpairs := List.map_injective_iff.mpr Prod.swap_injective hswap
      rw [hmirror, blockAt, blockAt, hpairs]
      exact ⟨rfl, rfl⟩

/-- The blocks that a position writes are full if its own one is. -/
theorem size_of_mem_writesAt (hsize : skips candidates symmetric p = false →
      (blockAt candidates block p).size = a.test.components * a.trial.components) {w : BlockWrite α}
    (hw : w ∈ a.writesAt candidates mirrors symmetric block p) :
    w.2.size = a.test.components * a.trial.components := by
  obtain ⟨hskip, rfl | ⟨-, -, rfl⟩⟩ := mem_writesAt hw
  · exact hsize hskip
  · exact size_mirrored _ _ _

/-- **The writes of any positions are consistent.** -/
theorem consistent_writesAt (hm : symmetric = true → MirrorsOf candidates mirrors)
    {positions : List (List Nat)} (hpositions : ∀ p ∈ positions, IsPosition candidates p)
    (hsize : ∀ p ∈ positions, skips candidates symmetric p = false →
      (blockAt candidates block p).size = a.test.components * a.trial.components) :
    ConsistentWrites (a.test.components * a.trial.components)
      (positions.flatMap (a.writesAt candidates mirrors symmetric block)) := by
  refine ⟨fun w hw => ?_, fun w hw v hv heq => ?_⟩
  · obtain ⟨p, hp, hw⟩ := List.mem_flatMap.mp hw
    exact size_of_mem_writesAt (hsize p hp) hw
  · obtain ⟨p, hp, hw⟩ := List.mem_flatMap.mp hw
    obtain ⟨q, hq, hv⟩ := List.mem_flatMap.mp hv
    exact (eq_of_mem_writesAt hm (hpositions p hp) (hpositions q hq) hw hv heq).2

/-! ## (3) The result -/

/-- The entries that some writes lead to. -/
def bandedEntries (a : Assembler α) (candidates : List AxisCandidates) (ws : List (BlockWrite α)) :
    Array α :=
  let blockSize := a.test.components * a.trial.components
  ws.foldl (writeBlock blockSize)
    (Array.replicate (MultiIndex.product (candidates.map (·.size)) * blockSize) Scalar.zero)

/-- The number of an entry of the block at a position. -/
def entryNumber (a : Assembler α) (candidates : List AxisCandidates) (p : List Nat) (s : Nat) : Nat :=
  MultiIndex.linearIndex p (candidates.map (·.size)) * (a.test.components * a.trial.components) + s

/-- The candidates of all axes are checked one after the other. -/
def prepareAxes (a : Assembler α) (symmetric : Bool) (candidates : List AxisCandidates) :
    Except Error (List (Array Nat)) :=
  candidates.zipIdx.mapM fun (c, axis) => a.prepareAxis symmetric axis c

/-- **The result of an assembly** is made from the writes of all positions, one after the other, whatever
the chunks. -/
theorem assembleBandedOver_result {pool : WorkerPool} (he : a.workerEvaluator.result = .ok e) :
    (a.assembleBandedOver pool candidates).result = (do
      a.requireBilinear "assembleBanded"
      let mirrors ← a.prepareAxes (a.usesSymmetry pool) candidates
      let writes ← (visitedCells (candidates.map (·.size))).mapM
        (a.positionWrites e candidates mirrors (a.usesSymmetry pool))
      BandedMatrix.make candidates a.test.words a.trial.words (a.bandedEntries candidates writes.flatten)
        a.test.components a.trial.components) := by
  set boxes := firstAxisBoxes (candidates.map (·.size)) pool.chunkCount with hboxes
  have htask : ∀ mirrors (box : List Nat × List Nat), (do
      let e ← a.workerEvaluator
      let writes ← ((MultiIndex.walk box.1 box.2).mapM fun position =>
        a.positionWrites e candidates mirrors (a.usesSymmetry pool) position : Except Error _)
      pure writes.flatten : Outcome (List (BlockWrite α))).result =
        (MultiIndex.walk box.1 box.2).mapM
          (a.positionWrites e candidates mirrors (a.usesSymmetry pool)) >>= fun writes =>
            .ok writes.flatten := by
    intro mirrors box
    rw [Outcome.bind_result, he]
    exact Outcome.bind_result _ _
  -- The reports of the chunks drop out: what counts are the writes of each box.
  have hparts := fun mirrors => runChunks_inputs_result boxes ([], []) fun box => do
    let e ← a.workerEvaluator
    let writes ← ((MultiIndex.walk box.1 box.2).mapM fun position =>
      a.positionWrites e candidates mirrors (a.usesSymmetry pool) position : Except Error _)
    pure writes.flatten
  simp only [htask, mapM_bind_ok] at hparts
  rw [assembleBandedOver, Outcome.bind_result]
  refine congrArg (_ >>= ·) (funext fun _ => ?_)
  rw [Outcome.bind_result]
  refine congrArg (_ >>= ·) (funext fun mirrors => ?_)
  rw [Outcome.bind_result]
  refine (congrArg (· >>= _) (hparts mirrors)).trans ?_
  -- All boxes together visit the cells in storage order.
  rw [← flatMap_firstAxisBoxes _ pool.chunkCount, mapM_flatMap]
  cases boxes.mapM fun box => (MultiIndex.walk box.1 box.2).mapM
      (a.positionWrites e candidates mirrors (a.usesSymmetry pool)) with
  | error e => rfl
  | ok parts =>
    have hentries : (parts.map List.flatten).foldl (fun entries writes =>
        writes.foldl (writeBlock (a.test.components * a.trial.components)) entries)
        (Array.replicate (MultiIndex.product (candidates.map (·.size)) *
          (a.test.components * a.trial.components)) Scalar.zero) =
        a.bandedEntries candidates parts.flatten.flatten := by
      rw [← List.foldl_flatten, List.flatten_flatten]
      rfl
    refine Eq.trans ?_ (congrArg (fun entries => BandedMatrix.make candidates a.test.words a.trial.words
      entries a.test.components a.trial.components) hentries)
    cases pool.options.verbose with
    | false => rfl
    | true => rfl

/-- An assembly that succeeds has an evaluator for its workers. -/
theorem exists_worker_of_assembleBandedOver {pool : WorkerPool} (hne : candidates ≠ [])
    (hpos : ∀ c ∈ candidates, 0 < c.size) {m : BandedMatrix α}
    (h : (a.assembleBandedOver pool candidates).result = .ok m) :
    ∃ e, a.workerEvaluator.result = .ok e := by
  obtain ⟨_, _, h⟩ := Outcome.bind_eq_ok_iff.mp h
  obtain ⟨mirrors, _, h⟩ := Outcome.bind_eq_ok_iff.mp h
  obtain ⟨_, hparts, -⟩ := Outcome.bind_eq_ok_iff.mp h
  exact exists_start_of_runChunks (size_firstAxisBoxes_pos (fun h => hne (List.map_eq_nil_iff.mp h))
    (List.forall_mem_map.mpr hpos) _) hparts

/-! ## (4) Accepted candidates -/

omit [Scalar α] in
/-- **Candidates that are accepted** are pairs of functions, at least one on each axis; with `symmetric` the
mirrored pairs have been found. -/
theorem prepareAxes_eq_ok (h : a.prepareAxes symmetric candidates = .ok mirrors) :
    (∀ k c, candidates[k]? = some c → (0 < c.size ∧ c.test.size = c.trial.size) ∧
      ∀ x ∈ c.pairs, x.1 < a.test.dofs.getD k 0 ∧ x.2 < a.trial.dofs.getD k 0) ∧
    (symmetric = true → MirrorsOf candidates mirrors) := by
  have hall := mapM_eq_ok_iff.mp h
  have hcheck : ∀ (x : AxisCandidates × Nat) m, a.prepareAxis symmetric x.2 x.1 = .ok m →
      ((0 < x.1.size ∧ x.1.test.size = x.1.trial.size) ∧
        ∀ y ∈ x.1.pairs, y.1 < a.test.dofs.getD x.2 0 ∧ y.2 < a.trial.dofs.getD x.2 0) ∧
      (symmetric = true → x.1.IsTranspose m) := by
    rintro ⟨c, k⟩ m hm
    obtain ⟨⟨⟩, hcheck, hm⟩ := bind_eq_ok_iff.mp hm
    obtain ⟨hsizes, hpairs⟩ := require_bind_eq_ok_iff.mp hcheck
    rw [Bool.and_eq_true, decide_eq_true_iff, beq_iff_eq] at hsizes
    refine ⟨⟨hsizes, fun y hy => ?_⟩, fun hsym => ?_⟩
    · obtain ⟨⟨⟩, htest, htrial⟩ := bind_eq_ok_iff.mp (forM_eq_ok_iff.mp hpairs y hy)
      exact ⟨Int.ofNat_lt.mp (checkIndex_eq_ok_iff.mp htest).2,
        Int.ofNat_lt.mp (checkIndex_eq_ok_iff.mp htrial).2⟩
    -- With the use of symmetry the mirrors of the axis are found after the check.
    · rw [hsym, if_pos rfl] at hm
      obtain ⟨transpose, htranspose, hm⟩ := bind_eq_ok_iff.mp hm
      exact Except.ok.inj hm ▸ isTranspose_of_transposeIndex hsizes.2 htranspose
  refine ⟨fun k c hc => ?_, fun hsym => ?_⟩
  · have hmem : (c, k) ∈ candidates.zipIdx := List.mem_zipIdx_iff_getElem?.mpr hc
    obtain ⟨n, hn, heq⟩ := List.getElem_of_mem hmem
    have hstep := hall.get hn (hall.length_eq ▸ hn)
    simp only [List.get_eq_getElem, heq] at hstep
    exact (hcheck (c, k) _ hstep).1
  · have hmirrors : List.Forall₂ (fun (x : AxisCandidates × Nat) m => x.1.IsTranspose m)
        candidates.zipIdx mirrors := hall.imp fun x m hm => (hcheck x m hm).2 hsym
    rwa [← List.forall₂_map_left_iff (f := Prod.fst) (R := AxisCandidates.IsTranspose),
      List.zipIdx_map_fst] at hmirrors

omit [Scalar α] in
/-- Functions of pairs are in range if all pairs listed are. -/
theorem forall₂_lt_of_position {dofs : List Nat} {f : Nat × Nat → Nat}
    (hlen : ∀ c ∈ candidates, c.test.size = c.trial.size)
    (h : List.Forall₂ (fun c n => ∀ x ∈ c.pairs, f x < n) candidates dofs)
    (hp : IsPosition candidates p) : List.Forall₂ (· < ·) ((pairsOn candidates p).map f) dofs := by
  unfold IsPosition pairsOn at *
  induction h generalizing p with
  | nil => exact .nil
  | @cons c n candidates dofs hc _ ih =>
    obtain ⟨i, p, hi, hps, rfl⟩ := List.forall₂_cons_left_iff.mp hp
    obtain ⟨hlen, hlens⟩ := List.forall_mem_cons.mp hlen
    exact .cons (hc _ ((AxisCandidates.mem_pairs_iff hlen).mpr ⟨i, hi, rfl⟩)) (ih hlens hps)

omit [Scalar α] in
/-- Every axis has candidates, and they pair up. -/
theorem prepareAxes_sizes (h : a.prepareAxes symmetric candidates = .ok mirrors) :
    ∀ c ∈ candidates, 0 < c.size ∧ c.test.size = c.trial.size := by
  intro c hc
  obtain ⟨k, hk, rfl⟩ := List.getElem_of_mem hc
  exact ((prepareAxes_eq_ok h).1 k _ (List.getElem?_eq_getElem hk)).1

omit [Scalar α] in
/-- **The functions of a position** of accepted candidates are in range. -/
theorem pairsOn_lt (h : a.prepareAxes symmetric candidates = .ok mirrors)
    (hlen : candidates.length = a.test.dofs.length) (hspaces : a.test = a.trial)
    (hp : IsPosition candidates p) :
    List.Forall₂ (· < ·) ((pairsOn candidates p).map (·.1)) a.test.dofs ∧
      List.Forall₂ (· < ·) ((pairsOn candidates p).map (·.2)) a.trial.dofs := by
  have hchecked := (prepareAxes_eq_ok h).1
  have hlens : ∀ c ∈ candidates, c.test.size = c.trial.size := fun c hc => (prepareAxes_sizes h c hc).2
  have hrange : ∀ {dofs : List Nat} {f : Nat × Nat → Nat}, candidates.length = dofs.length →
      (∀ k c, candidates[k]? = some c → ∀ x ∈ c.pairs, f x < dofs.getD k 0) →
      List.Forall₂ (fun c n => ∀ x ∈ c.pairs, f x < n) candidates dofs := by
    intro dofs f hdofs hall
    rw [List.forall₂_iff_get]
    refine ⟨hdofs, fun k hk hk' x hx => ?_⟩
    have hlt := hall k _ (List.getElem?_eq_getElem hk) x hx
    rwa [List.getD_eq_getElem?_getD, List.getElem?_eq_getElem hk', Option.getD_some] at hlt
  exact ⟨forall₂_lt_of_position hlens (hrange hlen fun k c hc x hx => ((hchecked k c hc).2 x hx).1) hp,
    forall₂_lt_of_position hlens
      (hrange (hspaces ▸ hlen) fun k c hc x hx => ((hchecked k c hc).2 x hx).2) hp⟩

omit [Scalar α] in
/-- The positions that chunks visit. -/
theorem mem_visitedCells_iff (hne : candidates ≠ []) (hpos : ∀ c ∈ candidates, 0 < c.size) :
    p ∈ visitedCells (candidates.map (·.size)) ↔ IsPosition candidates p := by
  have hsizes : ∀ n ∈ candidates.map (·.size), 0 < n := List.forall_mem_map.mpr hpos
  rw [visitedCells_eq_gridNodes hsizes, mem_gridNodes (fun h => hne (List.map_eq_nil_iff.mp h)),
    isPosition_iff]

omit [Scalar α] in
/-- Chunks visit positions. -/
theorem isPosition_of_visited (hpos : ∀ c ∈ candidates, 0 < c.size)
    (hp : p ∈ visitedCells (candidates.map (·.size))) : IsPosition candidates p := by
  cases candidates with
  | nil => cases hp
  | cons c candidates => exact (mem_visitedCells_iff (List.cons_ne_nil _ _) hpos).mp hp

/-! ## (5) Entries at a position -/

/-- The entries that the positions of some candidates lead to. -/
def runEntries (a : Assembler α) (candidates : List AxisCandidates) (mirrors : List (Array Nat))
    (symmetric : Bool) (block : (test trial : List Nat) → Array α) : Array α :=
  a.bandedEntries candidates ((visitedCells (candidates.map (·.size))).flatMap
    (a.writesAt candidates mirrors symmetric block))

/-- **An assembly whose blocks are evaluated** makes a matrix of these entries. -/
theorem assembleBandedOver_eq {pool : WorkerPool} (hsym : a.usesSymmetry pool = symmetric)
    (harity : a.arity = .bilinear) (hmirrors : a.prepareAxes symmetric candidates = .ok mirrors)
    (he : a.workerEvaluator.result = .ok e)
    (hblock : ∀ p ∈ visitedCells (candidates.map (·.size)), skips candidates symmetric p = false →
      a.blockBy e ((pairsOn candidates p).map (·.1)) ((pairsOn candidates p).map (·.2)) =
        .ok (blockAt candidates block p)) :
    (a.assembleBandedOver pool candidates).result = BandedMatrix.make candidates a.test.words
      a.trial.words (a.runEntries candidates mirrors symmetric block) a.test.components
      a.trial.components := by
  subst hsym
  have hcheck : a.requireBilinear "assembleBanded" = .ok () := by
    rw [requireBilinear, harity]
    rfl
  have hwrites : (visitedCells (candidates.map (·.size))).mapM
      (a.positionWrites e candidates mirrors (a.usesSymmetry pool)) = .ok
        ((visitedCells (candidates.map (·.size))).map
          (a.writesAt candidates mirrors (a.usesSymmetry pool) block)) :=
    mapM_eq_ok_map fun p hp => positionWrites_eq_ok (hblock p hp)
  rw [assembleBandedOver_result he, hcheck, hmirrors]
  exact congrArg (· >>= fun writes : List (List (BlockWrite α)) => BandedMatrix.make candidates
    a.test.words a.trial.words (a.bandedEntries candidates writes.flatten) a.test.components
    a.trial.components) hwrites

/-- There is a block of entries for each position. -/
theorem size_runEntries : (a.runEntries candidates mirrors symmetric block).size =
    MultiIndex.product (candidates.map (·.size)) * (a.test.components * a.trial.components) := by
  rw [runEntries, bandedEntries, size_foldl_writeBlock, Array.size_replicate]

omit [Scalar α] in
/-- **Arrays with the same entries at every position** are equal. -/
theorem ext_positions {xs ys : Array α} (hx : xs.size =
      MultiIndex.product (candidates.map (·.size)) * (a.test.components * a.trial.components))
    (hy : ys.size = xs.size)
    (h : ∀ p, IsPosition candidates p → ∀ s < a.test.components * a.trial.components,
      xs[a.entryNumber candidates p s]? = ys[a.entryNumber candidates p s]?) : xs = ys := by
  refine Array.ext_getElem? fun k => ?_
  by_cases hk : k < xs.size
  · rw [hx] at hk
    have hpos := Nat.pos_of_mul_pos_left (Nat.zero_lt_of_lt hk)
    -- Quotient and remainder are the number of a position and a place in its block.
    obtain ⟨p, hp, hnumber⟩ := MultiIndex.exists_linearIndex_eq
      (Nat.div_lt_of_lt_mul (Nat.mul_comm .. ▸ hk))
    have hslot := h p (isPosition_iff.mpr hp) (k % (a.test.components * a.trial.components))
      (Nat.mod_lt k hpos)
    rwa [entryNumber, hnumber, Nat.div_add_mod'] at hslot
  · have hk := Nat.le_of_not_lt hk
    rw [Array.getElem?_eq_none hk, Array.getElem?_eq_none (hy ▸ hk)]

/-- Entries of positions are among all entries. -/
theorem lt_size_entries (hp : IsPosition candidates p) {s : Nat}
    (hs : s < a.test.components * a.trial.components) :
    a.entryNumber candidates p s < (Array.replicate (MultiIndex.product (candidates.map (·.size)) *
        (a.test.components * a.trial.components)) (Scalar.zero : α)).size := by
  rw [Array.size_replicate]
  exact MultiIndex.unknown_lt (isPosition_iff.mp hp) hs

section Entries

variable (hne : candidates ≠ []) (hpos : ∀ c ∈ candidates, 0 < c.size)
  (hm : symmetric = true → MirrorsOf candidates mirrors)
  (hsize : ∀ p, IsPosition candidates p → skips candidates symmetric p = false →
    (blockAt candidates block p).size = a.test.components * a.trial.components)

include hne hpos hm hsize

/-- All writes of a run are consistent. -/
theorem consistent_run : ConsistentWrites (a.test.components * a.trial.components)
    ((visitedCells (candidates.map (·.size))).flatMap
      (a.writesAt candidates mirrors symmetric block)) :=
  consistent_writesAt hm (fun _ hp => (mem_visitedCells_iff hne hpos).mp hp)
    fun p hp => hsize p ((mem_visitedCells_iff hne hpos).mp hp)

/-- **A position that is not left to its mirror** has the entries of its block. -/
theorem getElem?_own (hp : IsPosition candidates p) (hskip : skips candidates symmetric p = false) {s : Nat}
    (hs : s < a.test.components * a.trial.components) :
    (a.runEntries candidates mirrors symmetric block)[a.entryNumber candidates p s]? =
      (blockAt candidates block p)[s]? := by
  have hin := lt_size_entries (a := a) hp hs
  rw [entryNumber] at hin ⊢
  refine (consistent_run hne hpos hm hsize).getElem?_of_mem
    (w := (MultiIndex.linearIndex p (candidates.map (·.size)), blockAt candidates block p)) ?_ hs hin
  refine List.mem_flatMap.mpr ⟨p, (mem_visitedCells_iff hne hpos).mpr hp, ?_⟩
  rw [writesAt, hskip]
  simp only [Bool.false_eq_true, if_false]
  split
  · exact List.mem_cons_self
  · exact List.mem_cons_self

/-- **A position that is left to its mirror** has the entries of the transposed block of the mirrored pair,
if its pairs are not listed before. -/
theorem getElem?_mirrored (hp : IsPosition candidates p) (hskip : skips candidates symmetric p = true)
    (hfirst : FirstPosition candidates p) {s : Nat} (hs : s < a.test.components * a.trial.components) :
    (a.runEntries candidates mirrors symmetric block)[a.entryNumber candidates p s]? =
      (mirrored a.test.components a.trial.components
        (block ((pairsOn candidates p).map (·.2)) ((pairsOn candidates p).map (·.1))))[s]? := by
  rw [skips, Bool.and_eq_true, beq_iff_eq] at hskip
  obtain ⟨rfl, hgt⟩ := hskip
  have hmirrors := hm rfl
  have hq := hp.mirrorOn hmirrors
  -- The position is the mirror of its own mirror, which lies below the diagonal.
  have hback := mirrorOn_mirrorOn hp hmirrors hfirst
  have hlt : compareAxes (pairsOn candidates (mirrorOn mirrors p)) = .lt := by
    rw [pairsOn_mirrorOn hp hmirrors, compareAxes_swap, hgt]
    rfl
  have hblock : blockAt candidates block (mirrorOn mirrors p) =
      block ((pairsOn candidates p).map (·.2)) ((pairsOn candidates p).map (·.1)) := by
    rw [blockAt, pairsOn_mirrorOn hp hmirrors, List.map_map, List.map_map]
    rfl
  have hin := lt_size_entries (a := a) hp hs
  rw [entryNumber] at hin ⊢
  rw [← hblock]
  refine (consistent_run hne hpos hm hsize).getElem?_of_mem
    (w := (MultiIndex.linearIndex p (candidates.map (·.size)), mirrored a.test.components
      a.trial.components (blockAt candidates block (mirrorOn mirrors p)))) ?_ hs hin
  refine List.mem_flatMap.mpr ⟨mirrorOn mirrors p, (mem_visitedCells_iff hne hpos).mpr hq, ?_⟩
  rw [writesAt, skips, hlt, hback]
  exact List.mem_cons_of_mem _ List.mem_cons_self

/-- **A position that is left to its mirror** is not filled if one of its pairs is listed before. -/
theorem getElem?_unfilled (hp : IsPosition candidates p) (hskip : skips candidates symmetric p = true)
    (hfirst : ¬ FirstPosition candidates p) {s : Nat} (hs : s < a.test.components * a.trial.components) :
    (a.runEntries candidates mirrors symmetric block)[a.entryNumber candidates p s]? =
      some Scalar.zero := by
  have hin := lt_size_entries (a := a) hp hs
  rw [entryNumber] at hin ⊢
  refine (getElem?_of_not_written (consistent_run hne hpos hm hsize).size_eq (fun w hw hposition => ?_) hs
    _).trans ?_
  · obtain ⟨q, hq, hw⟩ := List.mem_flatMap.mp hw
    have hq := (mem_visitedCells_iff hne hpos).mp hq
    obtain ⟨hqskip, rfl | ⟨rfl, -, rfl⟩⟩ := mem_writesAt hw
    · rw [linearIndex_position_inj hq hp hposition, hskip] at hqskip
      cases hqskip
    · -- Mirrors have pairs that are not listed before.
      have heq := linearIndex_position_inj (hq.mirrorOn (hm rfl)) hp hposition
      exact hfirst (heq ▸ firstPosition_mirrorOn hq (hm rfl))
  · rw [Array.getElem?_eq_getElem hin, Array.getElem_replicate]

end Entries

end Assembler

end Galerkin
