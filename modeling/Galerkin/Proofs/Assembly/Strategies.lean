import Galerkin.Proofs.Assembly.Expansion
import Galerkin.Proofs.Assembly.Halves
import Galerkin.Proofs.Assembly.Totality
import Galerkin.Proofs.Assembly.Visits
import Galerkin.Proofs.Sparsity.Candidates

/-! # Two strategies

A sparse assembly goes over the neighbours of each test function, a banded one over the products of the
candidates that the supports lead to. Both go over the pairs of functions whose supports meet on every axis,
in different orders, and evaluate the same half of them for a symmetric form. So one succeeds if the other
does, and the two matrices have the same entries.

* **`exists_position_iff`** — positions of the candidates are pairs whose supports meet;
* **`Assembler.positionPairs_perm`** — both strategies go over the same pairs;
* **`Assembler.Evaluates`** — the evaluations that both need;
* **`Assembler.sparseTriplets_perm`**, **`Assembler.bandedTriplets_perm`** — the entries of each;
* **`Assembler.assembleSparse_perm_assembleBanded`** — the theorem;
* **`FormAssembler.bilinearOver`** — form assemblers to which it applies. -/

namespace Galerkin

variable {α : Type} {axes : List AxisSupports}

/-! ## (1) Pairs of functions -/

/-- The pairs of functions on an axis whose supports meet. -/
def AxisSupports.candidates (x : AxisSupports) : AxisCandidates :=
  candidatesOfSupport x.test.toList x.trial.toList

/-- The candidates of all axes. -/
def axisCandidates (axes : List AxisSupports) : List AxisCandidates := axes.map (·.candidates)

/-- The two lists of every axis are equally long. -/
theorem size_axisCandidates : ∀ c ∈ axisCandidates axes, c.test.size = c.trial.size :=
  List.forall_mem_map.mpr fun _ _ => size_candidatesOfSupport _ _

section Sorted

variable (htest : ∀ x ∈ axes, SortedSupports x.test) (htrial : ∀ x ∈ axes, SortedSupports x.trial)

include htest htrial

/-- No axis lists a pair twice. -/
theorem nodup_axisCandidates : ∀ c ∈ axisCandidates axes, c.pairs.Nodup :=
  List.forall_mem_map.mpr fun x hx => nodup_candidatesOfSupport (htest x hx) (htrial x hx)

/-- **The positions of the candidates are the pairs of functions whose supports meet on every axis.** -/
theorem exists_position_iff {test trial : List Nat} :
    (∃ p, IsPosition (axisCandidates axes) p ∧ (pairsOn (axisCandidates axes) p).map (·.1) = test ∧
        (pairsOn (axisCandidates axes) p).map (·.2) = trial) ↔
      (List.Forall₂ (· < ·) test (axes.map (·.test.size)) ∧
        List.Forall₂ (· < ·) trial (axes.map (·.trial.size))) ∧ MeetOnAxes axes test trial := by
  induction axes generalizing test trial with
  | nil =>
    constructor
    · rintro ⟨p, -, rfl, rfl⟩
      exact ⟨⟨.nil, .nil⟩, .nil⟩
    · rintro ⟨⟨htests, htrials⟩, -⟩
      obtain rfl := List.forall₂_nil_right_iff.mp htests
      obtain rfl := List.forall₂_nil_right_iff.mp htrials
      exact ⟨[], .nil, rfl, rfl⟩
  | cons x axes ih =>
    obtain ⟨hx, htest⟩ := List.forall_mem_cons.mp htest
    obtain ⟨hx', htrial⟩ := List.forall_mem_cons.mp htrial
    have hrest := @ih htest htrial
    -- On one axis the candidates are the pairs that meet.
    have hpairs : ∀ i j, (∃ k < x.candidates.size, x.candidates.pair k = (i, j)) ↔
        (i < x.test.size ∧ j < x.trial.size) ∧ (supportAt x.test i).Meets (supportAt x.trial j) := by
      intro i j
      exact (AxisCandidates.mem_pairs_iff (size_candidatesOfSupport _ _)).symm.trans
        (mem_candidatesOfSupport hx hx')
    constructor
    · rintro ⟨p, hp, rfl, rfl⟩
      obtain ⟨k, p, hk, hps, rfl⟩ := List.forall₂_cons_left_iff.mp hp
      obtain ⟨⟨hi, hj⟩, hmeets⟩ := (hpairs _ _).mp ⟨k, hk, rfl⟩
      obtain ⟨⟨htests, htrials⟩, hmeet⟩ := hrest.mp ⟨p, hps, rfl, rfl⟩
      exact ⟨⟨.cons hi htests, .cons hj htrials⟩, .cons hmeets hmeet⟩
    · rintro ⟨⟨hall, hall'⟩, hmeet⟩
      obtain ⟨i, test, hi, htests, rfl⟩ := List.forall₂_cons_right_iff.mp hall
      obtain ⟨j, trial, hj, htrials, rfl⟩ := List.forall₂_cons_right_iff.mp hall'
      obtain ⟨hmeets, hmeet⟩ := List.forall₂_cons.mp hmeet
      obtain ⟨k, hk, hpair⟩ := (hpairs i j).mpr ⟨⟨hi, hj⟩, hmeets⟩
      obtain ⟨p, hp, rfl, rfl⟩ := hrest.mpr ⟨⟨htests, htrials⟩, hmeet⟩
      refine ⟨k :: p, .cons hk hp, ?_, ?_⟩
      · exact congrArg (· :: _) (congrArg Prod.fst hpair)
      · exact congrArg (· :: _) (congrArg Prod.snd hpair)

end Sorted

namespace Assembler

variable {a : Assembler α}

/-- The pairs of functions whose supports meet on every axis, test function by test function. -/
def meetingPairs (a : Assembler α) (axes : List AxisSupports) : List (List Nat × List Nat) :=
  (gridNodes a.test.dofs).flatMap fun test => (a.meetingTrials axes test).map fun trial => (test, trial)

/-- No node of a grid occurs twice. -/
theorem nodup_gridNodes {shape : List Nat} (h : shape ≠ []) : (gridNodes shape).Nodup := by
  rw [gridNodes_eq_boxCells h]
  exact nodup_boxCells _

/-- No pair occurs twice. -/
theorem nodup_meetingPairs (htest : a.test.dofs ≠ []) (htrial : a.trial.dofs ≠ []) :
    (a.meetingPairs axes).Nodup := by
  rw [meetingPairs, List.nodup_flatMap]
  refine ⟨fun test _ => ?_, (nodup_gridNodes htest).imp fun hne => List.disjoint_left.mpr ?_⟩
  · exact ((nodup_gridNodes htrial).filter _).map fun _ _ h => (Prod.mk.inj h).2
  · intro pair hx hy
    obtain ⟨_, -, rfl⟩ := List.mem_map.mp hx
    obtain ⟨_, -, heq⟩ := List.mem_map.mp hy
    exact hne (Prod.mk.inj heq).1.symm

/-- The pairs that a sparse assembly goes over. -/
theorem mem_meetingPairs_iff {test trial : List Nat} : (test, trial) ∈ a.meetingPairs axes ↔
    (test ∈ gridNodes a.test.dofs ∧ trial ∈ gridNodes a.trial.dofs) ∧ MeetOnAxes axes test trial := by
  rw [meetingPairs, List.mem_flatMap]
  constructor
  · rintro ⟨test, htest, hpair⟩
    obtain ⟨trial, htrial, hpair⟩ := List.mem_map.mp hpair
    obtain ⟨rfl, rfl⟩ := Prod.mk.inj hpair
    obtain ⟨htrial, hmeet⟩ := List.mem_filter.mp htrial
    exact ⟨⟨htest, htrial⟩, of_decide_eq_true hmeet⟩
  · rintro ⟨⟨htest, htrial⟩, hmeet⟩
    exact ⟨test, htest, List.mem_map_of_mem (List.mem_filter.mpr ⟨htrial, decide_eq_true hmeet⟩)⟩

/-- The pairs of functions that a position stands for, as two multi-indices. -/
def functionsAt (candidates : List AxisCandidates) (p : List Nat) : List Nat × List Nat :=
  ((pairsOn candidates p).map (·.1), (pairsOn candidates p).map (·.2))

/-- **Both strategies go over the same pairs,** in different orders. -/
theorem positionPairs_perm (hne : axes ≠ []) (hsup : a.HasSupports axes)
    (htest : ∀ x ∈ axes, SortedSupports x.test) (htrial : ∀ x ∈ axes, SortedSupports x.trial) :
    ((gridNodes ((axisCandidates axes).map (·.size))).map (functionsAt (axisCandidates axes))).Perm
      (a.meetingPairs axes) := by
  have hsizes : (axisCandidates axes).map (·.size) ≠ [] := by
    rw [axisCandidates, List.map_map]
    exact fun h => hne (List.map_eq_nil_iff.mp h)
  have hposition : ∀ p ∈ gridNodes ((axisCandidates axes).map (·.size)),
      IsPosition (axisCandidates axes) p :=
    fun p hp => isPosition_iff.mpr ((mem_gridNodes hsizes).mp hp)
  refine (List.perm_ext_iff_of_nodup ?_ (nodup_meetingPairs (hsup.test_ne_nil hne)
    (hsup.trial_ne_nil hne))).mpr ?_
  · refine List.Nodup.map_on (fun p hp q hq heq => ?_) (nodup_gridNodes hsizes)
    obtain ⟨htests, htrials⟩ := Prod.mk.inj heq
    refine pairsOn_inj size_axisCandidates (nodup_axisCandidates htest htrial) (hposition p hp)
      (hposition q hq) ?_
    exact (List.zip_of_prod htests htrials).trans (List.zip_of_prod rfl rfl).symm
  · rintro ⟨test, trial⟩
    rw [mem_meetingPairs_iff, mem_gridNodes (hsup.test_ne_nil hne), mem_gridNodes (hsup.trial_ne_nil hne),
      hsup.test_dofs, hsup.trial_dofs, ← exists_position_iff htest htrial, List.mem_map]
    simp only [mem_gridNodes hsizes, ← isPosition_iff, functionsAt, Prod.mk.injEq]

/-- The entries of the pairs, pair by pair. -/
theorem meetingEntries_eq [Scalar α] (block : (test trial : List Nat) → Array α) :
    a.meetingEntries axes block =
      (a.meetingPairs axes).flatMap fun x => a.blockEntries x.1 x.2 (block x.1 x.2) := by
  rw [meetingPairs, List.flatMap_assoc]
  refine List.flatMap_congr fun test _ => ?_
  rw [List.flatMap_map]
  rfl

/-! ## (2) Evaluations -/

/-- **A bilinear form over dense supports:** the tables of every axis are sorted and not empty, every test
function meets a trial function, the default search finds neighbours, and the two tables of an axis are the
same if the form is symmetric. -/
structure BilinearOver (a : Assembler α) (axes : List AxisSupports) : Prop where
  checked : a.checked = .ok a
  bilinear : a.arity = .bilinear
  axes_ne_nil : axes ≠ []
  supports : a.HasSupports axes
  test_sorted : ∀ x ∈ axes, SortedSupports x.test
  dense : ∀ x ∈ axes, x.Dense
  finds : a.FindsNeighbors axes
  same : a.symmetric = true → ∀ x ∈ axes, x.test = x.trial

namespace BilinearOver

/-- There are test functions on every axis. -/
theorem dofs_pos (h : a.BilinearOver axes) : ∀ n ∈ a.test.dofs, 0 < n := test_dofs_pos h.checked h.supports

/-- The trial functions have sorted supports too. -/
theorem trial_sorted (h : a.BilinearOver axes) : ∀ x ∈ axes, SortedSupports x.trial :=
  fun x hx => (h.dense x hx).sorted

/-- A run that uses symmetry has one space. -/
theorem test_eq_trial (h : a.BilinearOver axes) {pool : WorkerPool} (huses : a.usesSymmetry pool = true) :
    a.test = a.trial := (checked_eq_ok h.checked).2 (Bool.and_eq_true_iff.mp huses).2

/-- A run that uses symmetry has one table of supports on every axis. -/
theorem same_of_uses (h : a.BilinearOver axes) {pool : WorkerPool} (huses : a.usesSymmetry pool = true) :
    ∀ x ∈ axes, x.test = x.trial := h.same (Bool.and_eq_true_iff.mp huses).2

/-- The candidates of an axis are its pairs of functions whose supports meet. -/
theorem mem_candidates_iff (h : a.BilinearOver axes) {x : AxisSupports} (hx : x ∈ axes) {i j : Nat} :
    (i, j) ∈ x.candidates.pairs ↔
      (i < x.test.size ∧ j < x.trial.size) ∧ (supportAt x.test i).Meets (supportAt x.trial j) :=
  mem_candidatesOfSupport (h.test_sorted x hx) (h.trial_sorted x hx)

/-- **With one table of supports the mirrored pairs are candidates too.** -/
theorem swap_mem_candidates (h : a.BilinearOver axes) {pool : WorkerPool}
    (huses : a.usesSymmetry pool = true) {x : AxisSupports} (hx : x ∈ axes) :
    ∀ y ∈ x.candidates.pairs, y.swap ∈ x.candidates.pairs := by
  have htable := h.same_of_uses huses x hx
  rintro ⟨i, j⟩ hy
  obtain ⟨⟨hi, hj⟩, hmeets⟩ := (h.mem_candidates_iff hx).mp hy
  rw [Prod.swap_prod_mk, h.mem_candidates_iff hx]
  rw [← htable] at hj hmeets ⊢
  exact ⟨⟨hj, hi⟩, Interval.meets_comm.mp hmeets⟩

/-- There are candidates on every axis. -/
theorem candidates_pos (h : a.BilinearOver axes) : ∀ c ∈ axisCandidates axes, 0 < c.size := by
  refine List.forall_mem_map.mpr fun x hx => ?_
  have hpos : 0 < x.test.size :=
    h.dofs_pos _ (h.supports.test_dofs ▸ List.mem_map_of_mem hx)
  obtain ⟨j, hj, hmeets⟩ := (h.dense x hx).meets 0 hpos
  have hmem := (h.mem_candidates_iff hx).mpr ⟨⟨hpos, hj⟩, hmeets⟩
  obtain ⟨k, hk, -⟩ := (AxisCandidates.mem_pairs_iff (size_candidatesOfSupport _ _)).mp hmem
  exact Nat.zero_lt_of_lt hk

/-- There are axes with candidates. -/
theorem candidates_ne_nil (h : a.BilinearOver axes) : axisCandidates axes ≠ [] :=
  fun hnil => h.axes_ne_nil (List.map_eq_nil_iff.mp hnil)

/-- Pairs whose supports meet are functions in range. -/
theorem lt_of_mem (h : a.BilinearOver axes) {test trial : List Nat}
    (hmem : (test, trial) ∈ a.meetingPairs axes) :
    List.Forall₂ (· < ·) test a.test.dofs ∧ List.Forall₂ (· < ·) trial a.trial.dofs := by
  have hgrid := (mem_meetingPairs_iff.mp hmem).1
  rwa [mem_gridNodes (h.supports.test_ne_nil h.axes_ne_nil),
    mem_gridNodes (h.supports.trial_ne_nil h.axes_ne_nil)] at hgrid

/-- **Pairs whose supports meet** are those of positions. -/
theorem mem_meetingPairs_iff_position (h : a.BilinearOver axes) {x : List Nat × List Nat} :
    x ∈ a.meetingPairs axes ↔
      ∃ p, IsPosition (axisCandidates axes) p ∧ functionsAt (axisCandidates axes) p = x := by
  have hperm := positionPairs_perm h.axes_ne_nil h.supports h.test_sorted h.trial_sorted
  have hsizes : (axisCandidates axes).map (·.size) ≠ [] :=
    fun hnil => h.candidates_ne_nil (List.map_eq_nil_iff.mp hnil)
  rw [← hperm.mem_iff, List.mem_map]
  simp only [mem_gridNodes hsizes, ← isPosition_iff]

/-- A position is not left to its mirror if its pair lies up to the diagonal. -/
theorem skips_eq_false_iff (h : a.BilinearOver axes) {pool : WorkerPool} {p : List Nat}
    (hp : IsPosition (axisCandidates axes) p) :
    skips (axisCandidates axes) (a.usesSymmetry pool) p = false ↔ (a.usesSymmetry pool = true →
      MultiIndex.linearIndex (functionsAt (axisCandidates axes) p).2 a.trial.dofs ≤
        MultiIndex.linearIndex (functionsAt (axisCandidates axes) p).1 a.test.dofs) := by
  have hin := h.lt_of_mem (h.mem_meetingPairs_iff_position.mpr ⟨p, hp, rfl⟩)
  rw [← Bool.not_eq_true, skips_eq_true_iff h.test_eq_trial hin.1 hin.2, not_and, Nat.not_lt]
  rfl

end BilinearOver

variable {e : Evaluator α} {symmetric : Bool}

/-- **The evaluations that both strategies need:** the blocks of all pairs whose supports meet, with
`symmetric` of those up to the diagonal. -/
def Evaluates (a : Assembler α) (axes : List AxisSupports) (symmetric : Bool) (e : Evaluator α) : Prop :=
  ∀ test trial, (test, trial) ∈ a.meetingPairs axes → (symmetric = true →
    MultiIndex.linearIndex trial a.trial.dofs ≤ MultiIndex.linearIndex test a.test.dofs) →
      a.blockBy e test trial = .ok (a.blockValue e test trial)

variable [Scalar α] {pool : WorkerPool}

/-! ## (3) The sparse assembly -/

/-- **A sparse assembly that succeeds** has made the evaluations. -/
theorem evaluates_of_sparseTriplets (h : a.BilinearOver axes) (he : a.workerEvaluator.result = .ok e)
    {triplets : Array (Triplet α)} (htriplets : (a.sparseTriplets pool).result = .ok triplets) :
    a.Evaluates axes (a.usesSymmetry pool) e := by
  intro test trial hmem hhalf
  obtain ⟨⟨htest, htrial⟩, hmeet⟩ := mem_meetingPairs_iff.mp hmem
  have hin := (h.lt_of_mem hmem).1
  rw [h.supports.test_dofs, List.forall₂_map_right_iff] at hin
  obtain ⟨row, hrow, -⟩ := row_of_sparseTriplets h.dofs_pos he htriplets test htest
  obtain ⟨ranges, hranges, hall⟩ := neighborRanges_eq_ok h.finds hin.flip
  -- The trial function is among the partners that the row goes over, so its block was evaluated.
  have hpartner : trial ∈ a.partners (a.usesSymmetry pool)
      (MultiIndex.linearIndex test a.test.dofs) ranges := by
    rw [partners_eq_filter h.supports h.axes_ne_nil (served_of_dense h.dense hin.flip) hall,
      List.mem_filter, Bool.or_eq_true, Bool.not_eq_true', decide_eq_true_iff]
    refine ⟨List.mem_filter.mpr ⟨htrial, decide_eq_true hmeet⟩, ?_⟩
    cases huses : a.usesSymmetry pool with
    | false => exact .inl rfl
    | true => exact .inr (hhalf huses)
  obtain ⟨values, hvalues, -⟩ := visited_of_rowTriplets hrow hranges trial hpartner
  exact blockBy_eq_blockValue hvalues

/-- **The entries of a sparse assembly** are those of the blocks of a run. -/
theorem sparseTriplets_perm (h : a.BilinearOver axes) (he : a.workerEvaluator.result = .ok e)
    (heval : a.Evaluates axes (a.usesSymmetry pool) e) :
    ∃ triplets, (a.sparseTriplets pool).result = .ok triplets ∧ triplets.toList.Perm
      (a.meetingEntries axes (a.runBlock (a.usesSymmetry pool) (a.blockValue e))) := by
  refine ⟨_, sparseTriplets_eq_rows h.checked h.bilinear h.axes_ne_nil h.supports h.dense h.finds he
    fun test htest trial htrial hmeet hhalf => ?_, flatMap_rowEntries_perm
      (h.supports.test_ne_nil h.axes_ne_nil) h.test_eq_trial h.same_of_uses⟩
  have hmem := mem_meetingPairs_iff.mpr ⟨⟨htest, htrial⟩, hmeet⟩
  have hin := h.lt_of_mem hmem
  rw [← blockBy_eq h.bilinear hin.1 hin.2]
  exact heval test trial hmem hhalf

/-! ## (4) The banded assembly -/

/-- **Tables whose functions and positions of candidates can be counted in words.** -/
structure CountedInWords (axes : List AxisSupports) : Prop where
  test : ∀ x ∈ axes, x.test.size < UInt64.size
  trial : ∀ x ∈ axes, x.trial.size < UInt64.size
  positions : MultiIndex.product ((axisCandidates axes).map (·.size)) < UInt64.size

omit [Scalar α] in
/-- The candidates of an assembly are those of its supports. -/
theorem supportCandidates_eq_ok (hsup : a.HasSupports axes) :
    a.supportCandidates = .ok (axisCandidates axes) := by
  have hlen : a.test.dofs.length = axes.length := by rw [hsup.test_dofs, List.length_map]
  rw [supportCandidates, axisCandidates, mapM_eq_ok_iff, List.forall₂_map_right_iff, List.forall₂_iff_get]
  refine ⟨by rw [List.length_range, hlen], fun k hk hk' => ?_⟩
  obtain ⟨htest, htrial⟩ := hsup.meshSupport k _ (List.getElem?_eq_getElem hk')
  rw [List.get_eq_getElem, List.getElem_range, htest, htrial]
  rfl

/-- An assembly goes over these candidates. -/
theorem assembleBanded_result (hsup : a.HasSupports axes) :
    (a.assembleBanded pool).result = (a.assembleBandedOver pool (axisCandidates axes)).result := by
  rw [assembleBanded, supportCandidates_eq_ok hsup]
  rfl

omit [Scalar α] in
/-- **The candidates of an axis are accepted.** -/
theorem BilinearOver.checkCandidates_eq_ok (h : a.BilinearOver axes) {k : Nat} {x : AxisSupports}
    (hk : axes[k]? = some x) : a.checkCandidates k x.candidates = .ok () := by
  have hx := List.mem_of_getElem? hk
  have hdofs : a.test.dofs.getD k 0 = x.test.size ∧ a.trial.dofs.getD k 0 = x.trial.size := by
    rw [h.supports.test_dofs, h.supports.trial_dofs, List.getD_eq_getElem?_getD, List.getD_eq_getElem?_getD,
      List.getElem?_map, List.getElem?_map, hk]
    exact ⟨rfl, rfl⟩
  refine require_bind_eq_ok_iff.mpr ⟨?_, forM_eq_ok_iff.mpr ?_⟩
  · rw [Bool.and_eq_true, decide_eq_true_iff, beq_iff_eq]
    exact ⟨h.candidates_pos _ (List.mem_map_of_mem hx), size_candidatesOfSupport _ _⟩
  · rintro ⟨i, j⟩ hy
    obtain ⟨⟨hi, hj⟩, -⟩ := (h.mem_candidates_iff hx).mp hy
    refine bind_eq_ok_iff.mpr ⟨(), checkIndex_eq_ok_iff.mpr ⟨Int.natCast_nonneg _, ?_⟩,
      checkIndex_eq_ok_iff.mpr ⟨Int.natCast_nonneg _, ?_⟩⟩
    · exact Int.ofNat_lt.mpr (hdofs.1 ▸ hi)
    · exact Int.ofNat_lt.mpr (hdofs.2 ▸ hj)

omit [Scalar α] in
/-- **The candidates of all axes are accepted,** and the mirrored pairs are found. -/
theorem BilinearOver.exists_mirrors (h : a.BilinearOver axes) :
    ∃ mirrors, a.prepareAxes (a.usesSymmetry pool) (axisCandidates axes) = .ok mirrors := by
  refine exists_mapM_eq_ok ?_
  rintro ⟨c, k⟩ hmem
  have hc := List.mem_zipIdx_iff_getElem?.mp hmem
  rw [axisCandidates, List.getElem?_map, Option.map_eq_some_iff] at hc
  obtain ⟨x, hk, rfl⟩ := hc
  change ∃ m, a.prepareAxis (a.usesSymmetry pool) k x.candidates = .ok m
  rw [prepareAxis, h.checkCandidates_eq_ok hk]
  cases huses : a.usesSymmetry pool with
  | false => exact ⟨_, rfl⟩
  | true =>
    obtain ⟨transpose, htranspose⟩ := exists_transposeIndex (size_candidatesOfSupport _ _)
      (h.swap_mem_candidates huses (List.mem_of_getElem? hk))
    exact ⟨_, bind_eq_ok_iff.mpr ⟨(), rfl, bind_eq_ok_iff.mpr ⟨transpose, htranspose, rfl⟩⟩⟩

omit [Scalar α] in
/-- **A matrix is made** from a block of entries for each position. -/
theorem BilinearOver.make_eq_ok (h : a.BilinearOver axes) (hwords : CountedInWords axes) {entries : Array α}
    (hsize : entries.size = MultiIndex.product ((axisCandidates axes).map (·.size)) *
      (a.test.components * a.trial.components)) :
    BandedMatrix.make (axisCandidates axes) a.test.words a.trial.words entries a.test.components
      a.trial.components = .ok (a.bandedMatrix (axisCandidates axes) entries) := by
  obtain ⟨hr, hc⟩ := components_pos h.checked
  refine BandedMatrix.make_eq_ok hr hc ?_ hsize
  rw [Layout.words, Layout.words, h.supports.test_dofs, h.supports.trial_dofs, List.map_map, List.map_map,
    axisCandidates, List.zip_map', List.zip_map']
  refine List.forall_mem_map.mpr fun x hx => ⟨size_candidatesOfSupport _ _, ?_⟩
  rintro ⟨i, j⟩ hy
  obtain ⟨⟨hi, hj⟩, -⟩ := (h.mem_candidates_iff hx).mp hy
  exact ⟨(UInt64.ofNat_lt_iff_lt (Nat.lt_trans hi (hwords.test x hx)) (hwords.test x hx)).mpr hi,
    (UInt64.ofNat_lt_iff_lt (Nat.lt_trans hj (hwords.trial x hx)) (hwords.trial x hx)).mpr hj⟩

/-- **A banded assembly that succeeds** has made the evaluations. -/
theorem evaluates_of_assembleBanded (h : a.BilinearOver axes) (he : a.workerEvaluator.result = .ok e)
    {m : BandedMatrix α} (hm : (a.assembleBanded pool).result = .ok m) :
    a.Evaluates axes (a.usesSymmetry pool) e := by
  rw [assembleBanded_result h.supports, assembleBandedOver_result he] at hm
  obtain ⟨_, _, hm⟩ := bind_eq_ok_iff.mp hm
  obtain ⟨mirrors, _, hm⟩ := bind_eq_ok_iff.mp hm
  obtain ⟨writes, hwrites, -⟩ := bind_eq_ok_iff.mp hm
  intro test trial hmem hhalf
  -- The pair belongs to a position, and that one is not left to its mirror.
  obtain ⟨p, hp, hfunctions⟩ := h.mem_meetingPairs_iff_position.mp hmem
  obtain ⟨rfl, rfl⟩ := Prod.mk.inj hfunctions
  obtain ⟨_, -, hstep⟩ := exists_step_of_mapM hwrites
    ((mem_visitedCells_iff h.candidates_ne_nil h.candidates_pos).mpr hp)
  obtain ⟨values, hvalues⟩ := exists_block_of_positionWrites hstep ((h.skips_eq_false_iff hp).mpr hhalf)
  exact blockBy_eq_blockValue hvalues

/-- **The entries of a banded assembly** are those of the blocks of a run. -/
theorem bandedTriplets_perm (h : a.BilinearOver axes) (hwords : CountedInWords axes)
    (he : a.workerEvaluator.result = .ok e) (hfills : a.FillsBlocks e)
    (heval : a.Evaluates axes (a.usesSymmetry pool) e) :
    ∃ m, (a.assembleBanded pool).result = .ok m ∧ (m.rows = a.rows ∧ m.cols = a.cols) ∧
      m.triplets.Perm (a.meetingEntries axes (a.runBlock (a.usesSymmetry pool) (a.blockValue e))) := by
  obtain ⟨mirrors, hmirrors : a.prepareAxes (a.usesSymmetry pool) _ = _⟩ := h.exists_mirrors
  have hown : ∀ p, IsPosition (axisCandidates axes) p →
      skips (axisCandidates axes) (a.usesSymmetry pool) p = false →
        a.blockBy e (functionsAt (axisCandidates axes) p).1 (functionsAt (axisCandidates axes) p).2 =
          .ok (blockAt (axisCandidates axes) (a.blockValue e) p) := fun p hp hskip =>
    heval _ _ (h.mem_meetingPairs_iff_position.mpr ⟨p, hp, rfl⟩) ((h.skips_eq_false_iff hp).mp hskip)
  have hresult := assembleBandedOver_eq rfl h.bilinear hmirrors he fun p hp hskip =>
    hown p (isPosition_of_visited h.candidates_pos hp) hskip
  rw [h.make_eq_ok hwords size_runEntries] at hresult
  refine ⟨_, (assembleBanded_result h.supports).trans hresult, ⟨rfl, rfl⟩, ?_⟩
  have hentries : ∀ p, IsPosition (axisCandidates axes) p → ∀ s < a.test.components * a.trial.components,
      (a.runEntries (axisCandidates axes) mirrors (a.usesSymmetry pool) (a.blockValue e)).getD
          (a.entryNumber (axisCandidates axes) p s) Scalar.zero =
        (blockAt (axisCandidates axes) (a.runBlock (a.usesSymmetry pool) (a.blockValue e)) p).getD s
          Scalar.zero := by
    intro p hp s hs
    have hin := h.lt_of_mem (h.mem_meetingPairs_iff_position.mpr ⟨p, hp, rfl⟩)
    exact getD_runEntries h.candidates_ne_nil h.candidates_pos size_axisCandidates
      (nodup_axisCandidates h.test_sorted h.trial_sorted) (prepareAxes_eq_ok hmirrors).2
      (fun q hq hskip => hfills.size_eq (hown q hq hskip)) h.test_eq_trial hp hin.1 hin.2 hs
  -- Block by block the entries are those of the same pairs in another order.
  have hperm := (positionPairs_perm h.axes_ne_nil h.supports h.test_sorted h.trial_sorted).flatMap_right
    fun x => a.blockEntries x.1 x.2 (a.runBlock (a.usesSymmetry pool) (a.blockValue e) x.1 x.2)
  rw [triplets_bandedMatrix h.candidates_ne_nil hwords.positions hentries, meetingEntries_eq]
  rwa [List.flatMap_map] at hperm

/-! ## (5) The theorem -/

omit [Scalar α] in
/-- **Entries in another order** make a matrix if the others do, with the same entries. -/
theorem ofTriplets_perm {ts us : Array (Triplet α)} {rows cols : GlobalIndex} {s : SparseMatrix α}
    (hs : SparseMatrix.ofTriplets ts rows cols = .ok s) (hperm : ts.toList.Perm us.toList) :
    ∃ t, SparseMatrix.ofTriplets us rows cols = .ok t ∧ (s.rows = t.rows ∧ s.cols = t.cols) ∧
      s.entries.toList.Perm t.entries.toList := by
  obtain ⟨hlimits, hinside, rfl⟩ := SparseMatrix.ofTriplets_eq_ok_iff.mp hs
  refine ⟨⟨rows, cols, us⟩, SparseMatrix.ofTriplets_eq_ok_iff.mpr ⟨hlimits, fun t ht => ?_, rfl⟩,
    ⟨rfl, rfl⟩, hperm⟩
  exact hinside t (Array.mem_toList_iff.mp (hperm.mem_iff.mpr (Array.mem_toList_iff.mpr ht)))

/-- A sparse assembly that succeeds has an evaluator that makes the evaluations. -/
theorem exists_evaluates_of_sparse (h : a.BilinearOver axes) {s : SparseMatrix α}
    (hs : (a.assembleSparse pool).result = .ok s) :
    ∃ e, a.workerEvaluator.result = .ok e ∧ a.Evaluates axes (a.usesSymmetry pool) e := by
  obtain ⟨triplets, htriplets, -⟩ := triplets_of_assembleSparse h.bilinear hs
  obtain ⟨e, he⟩ := exists_worker_of_sparseTriplets (h.supports.test_ne_nil h.axes_ne_nil) h.dofs_pos
    htriplets
  exact ⟨e, he, evaluates_of_sparseTriplets h he htriplets⟩

/-- So has a banded one. -/
theorem exists_evaluates_of_banded (h : a.BilinearOver axes) {m : BandedMatrix α}
    (hm : (a.assembleBanded pool).result = .ok m) :
    ∃ e, a.workerEvaluator.result = .ok e ∧ a.Evaluates axes (a.usesSymmetry pool) e := by
  have hover := (assembleBanded_result h.supports).symm.trans hm
  obtain ⟨e, he⟩ := exists_worker_of_assembleBandedOver h.candidates_ne_nil h.candidates_pos hover
  exact ⟨e, he, evaluates_of_assembleBanded h he hm⟩

/-- **Both assemblies have the same entries** if their evaluations are made. -/
theorem entries_of_evaluates (h : a.BilinearOver axes) (hwords : CountedInWords axes) {pool' : WorkerPool}
    (huses : a.usesSymmetry pool' = a.usesSymmetry pool) (he : a.workerEvaluator.result = .ok e)
    (hfills : a.FillsBlocks e) (heval : a.Evaluates axes (a.usesSymmetry pool) e) :
    ∃ triplets m, (a.assembleSparse pool).result = SparseMatrix.ofTriplets triplets a.rows a.cols ∧
      (a.assembleBanded pool').result = .ok m ∧
        m.toSparse = SparseMatrix.ofTriplets m.triplets.toArray a.rows a.cols ∧
          triplets.toList.Perm m.triplets := by
  obtain ⟨triplets, htriplets, hsparse⟩ := sparseTriplets_perm h he heval
  obtain ⟨m, hm, ⟨hrows, hcols⟩, hbanded⟩ := bandedTriplets_perm h hwords he hfills (huses.symm ▸ heval)
  rw [huses] at hbanded
  refine ⟨triplets, m, assembleSparse_result h.bilinear htriplets, hm, ?_, hsparse.trans hbanded.symm⟩
  rw [← hrows, ← hcols]
  rfl

/-- **A sparse assembly succeeds** if its evaluations do and the sizes are within the range of storage
indices. -/
theorem exists_assembleSparse (h : a.BilinearOver axes) (hrows : a.test.FitsStorage)
    (hcols : a.trial.FitsStorage) (he : a.workerEvaluator.result = .ok e)
    (heval : a.Evaluates axes (a.usesSymmetry pool) e) : ∃ s, (a.assembleSparse pool).result = .ok s := by
  obtain ⟨triplets, htriplets, hperm⟩ := sparseTriplets_perm h he heval
  refine ⟨_, (assembleSparse_result h.bilinear htriplets).trans
    (ofTriplets_of_meeting hrows hcols fun t ht => (?_ : a.IsMeetingEntry axes t))⟩
  have hmem := hperm.mem_iff.mp (Array.mem_toList_iff.mpr ht)
  rw [meetingEntries_eq] at hmem
  obtain ⟨⟨test, trial⟩, hpair, hmem⟩ := List.mem_flatMap.mp hmem
  obtain ⟨r, hr, hmem⟩ := List.mem_flatMap.mp hmem
  obtain ⟨c, hc, rfl⟩ := List.mem_map.mp hmem
  have hin := h.lt_of_mem hpair
  exact isMeetingEntry_of_meet hrows hcols hin.1 hin.2 (mem_meetingPairs_iff.mp hpair).2
    (List.mem_range.mp hr) (List.mem_range.mp hc) rfl rfl

/-- **The two strategies agree.** Let the supports on every axis be sorted and not empty, let every test
function meet a trial function, and let the tables of an axis be the same if the form is symmetric; the
values need not be. With two pools that agree in the use of symmetry, a sparse assembly succeeds if and only
if a banded one over the candidates of the supports makes a matrix that can be turned into a sparse one, and
then both have the same entries, each as often, in another order. Both succeed if all blocks of functions
whose supports meet are evaluated and the sizes are within the range of storage indices. -/
theorem assembleSparse_perm_assembleBanded (h : a.BilinearOver axes) (hwords : CountedInWords axes)
    (hfills : ∀ e, a.workerEvaluator.result = .ok e → a.FillsBlocks e) {pool pool' : WorkerPool}
    (hpools : pool.options.symmetric = pool'.options.symmetric) :
    ((∃ s, (a.assembleSparse pool).result = .ok s) ↔
      ∃ t, ((a.assembleBanded pool').result >>= BandedMatrix.toSparse) = .ok t) ∧
    (∀ s t, (a.assembleSparse pool).result = .ok s →
      ((a.assembleBanded pool').result >>= BandedMatrix.toSparse) = .ok t →
        (s.rows = t.rows ∧ s.cols = t.cols) ∧ s.entries.toList.Perm t.entries.toList) ∧
    (a.test.FitsStorage → a.trial.FitsStorage → ∀ e, a.workerEvaluator.result = .ok e →
      (∀ test trial, List.Forall₂ (· < ·) test a.test.dofs → List.Forall₂ (· < ·) trial a.trial.dofs →
        MeetOnAxes axes test trial → ∃ values, e.block test trial = .ok values) →
      ∃ s, (a.assembleSparse pool).result = .ok s) := by
  have huses : a.usesSymmetry pool' = a.usesSymmetry pool := by rw [usesSymmetry, usesSymmetry, hpools]
  have hboth := fun e he heval => entries_of_evaluates (e := e) h hwords huses he (hfills e he) heval
  -- An assembly that succeeds made the evaluations, and with these the other one succeeds.
  have hforth : ∀ s, (a.assembleSparse pool).result = .ok s →
      ∃ t, ((a.assembleBanded pool').result >>= BandedMatrix.toSparse) = .ok t ∧
        (s.rows = t.rows ∧ s.cols = t.cols) ∧ s.entries.toList.Perm t.entries.toList := by
    intro s hs
    obtain ⟨e, he, heval⟩ := exists_evaluates_of_sparse h hs
    obtain ⟨triplets, m, hsparse, hm, hmatrix, hperm⟩ := hboth e he heval
    have hperm : triplets.toList.Perm m.triplets.toArray.toList := hperm
    obtain ⟨t, ht, hentries⟩ := ofTriplets_perm (hsparse.symm.trans hs) hperm
    exact ⟨t, bind_eq_ok_iff.mpr ⟨m, hm, hmatrix.trans ht⟩, hentries⟩
  refine ⟨⟨fun ⟨s, hs⟩ => ?_, fun ⟨t, ht⟩ => ?_⟩, fun s t hs ht => ?_, fun hrows hcols e he hblock => ?_⟩
  · obtain ⟨t, ht, -⟩ := hforth s hs
    exact ⟨t, ht⟩
  · obtain ⟨m, hm, ht⟩ := bind_eq_ok_iff.mp ht
    obtain ⟨e, he, heval⟩ := exists_evaluates_of_banded h hm
    obtain ⟨triplets, m', hsparse, hm', hmatrix, hperm⟩ := hboth e he (huses ▸ heval)
    obtain rfl := Except.ok.inj (hm.symm.trans hm')
    obtain ⟨s, hs, -⟩ := ofTriplets_perm (hmatrix.symm.trans ht) hperm.symm
    exact ⟨s, hsparse.trans hs⟩
  · obtain ⟨t', ht', hentries⟩ := hforth s hs
    obtain rfl := Except.ok.inj (ht.symm.trans ht')
    exact hentries
  · refine exists_assembleSparse h hrows hcols he fun test trial hmem _ => ?_
    obtain ⟨htest, htrial⟩ := h.lt_of_mem hmem
    obtain ⟨values, hvalues⟩ := hblock test trial htest htrial (mem_meetingPairs_iff.mp hmem).2
    exact blockBy_eq_blockValue ((blockBy_eq h.bilinear htest htrial).trans hvalues)

/-- An assembler for a symmetric form whose blocks are not symmetric. -/
def skewAssembler : Assembler Rat :=
  { hatAssembler with evaluator := ⟨fun test trial => .ok #[test.sum, 1, 2, trial.sum], fun _ => .ok #[]⟩ }

/-- Such an assembler has the same entries with one worker and with three. -/
theorem assembleSparse_perm_assembleBanded_skew :
    skewAssembler.BilinearOver hatSupports ∧ CountedInWords hatSupports ∧
      ∃ s t, (skewAssembler.assembleSparse ⟨{}, 1⟩).result = .ok s ∧
        ((skewAssembler.assembleBanded ⟨{}, 3⟩).result >>= BandedMatrix.toSparse) = .ok t ∧
          s.entries.toList.Perm t.entries.toList := by
  have hform : skewAssembler.BilinearOver hatSupports :=
    { checked := rfl
      bilinear := rfl
      axes_ne_nil := List.cons_ne_nil _ _
      supports := ⟨rfl, rfl, hasSupports_hatAssembler.meshSupport⟩
      test_sorted := fun x hx => same_hatSupports x hx ▸ (dense_hatSupports x hx).sorted
      dense := dense_hatSupports
      finds := findsNeighbors_of_default ⟨rfl, rfl, hasSupports_hatAssembler.meshSupport⟩
        (fun x hx => (dense_hatSupports x hx).sorted) rfl
      same := fun _ => same_hatSupports }
  have hwords : CountedInWords hatSupports := ⟨by decide, by decide, by decide +kernel⟩
  have hfills : ∀ e, skewAssembler.workerEvaluator.result = .ok e → skewAssembler.FillsBlocks e := by
    intro e he test trial values h
    obtain rfl := Except.ok.inj he
    obtain rfl := Except.ok.inj h
    rfl
  have hfits : skewAssembler.test.FitsStorage ∧ skewAssembler.trial.FitsStorage := by
    unfold Layout.FitsStorage
    decide +kernel
  have hagree := @assembleSparse_perm_assembleBanded _ _ _ _ hform hwords hfills ⟨{}, 1⟩ ⟨{}, 3⟩ rfl
  obtain ⟨s, hs⟩ := hagree.2.2 hfits.1 hfits.2 _ rfl fun _ _ _ _ _ => ⟨_, rfl⟩
  obtain ⟨t, ht⟩ := hagree.1.mp ⟨s, hs⟩
  exact ⟨hform, hwords, s, t, hs, ht, (hagree.2.1 s t hs ht).2⟩

end Assembler

/-! ## (6) Form assemblers -/

section Bases

variable [Scalar α] [LinearOrder α] [OrderedScalar α]

/-- **Bases on the same meshes have dense supports** if no function vanishes on the domain. -/
theorem KernelBases.dense_supports {b : KernelBases α}
    (hmesh : ∀ p ∈ b.test.zip b.trial, p.1.elements = p.2.elements)
    (htest : ∀ v ∈ b.test, v.AllSupported) (htrial : ∀ u ∈ b.trial, u.AllSupported) :
    ∀ x ∈ b.supports, x.Dense := by
  intro x hx
  obtain ⟨v, u, hmem, rfl⟩ := exists_of_mem_supports hx
  obtain ⟨hv, hu⟩ := List.of_mem_zip hmem
  refine ⟨u.sortedSupports, fun j hj => htrial u hu j (u.size_meshSupport ▸ hj), fun i hi => ?_⟩
  rw [v.size_meshSupport] at hi
  exact exists_meets (hmesh _ hmem) hi (htest v hv i hi)

namespace FormAssembler

variable [Circular α] [ScalarText α] {k : CompiledKernel α} {bases : KernelBases α}
  {geometry : GeometryMap α} {f : FormAssembler α}

omit [LinearOrder α] [OrderedScalar α] in
/-- The spaces of an assembler that is made are checked. -/
theorem checked_of_make (h : (make (some k) bases geometry).result = .ok f) :
    f.assembler.checked = .ok f.assembler := by
  obtain ⟨rfl, rfl, -⟩ := make_eq_ok h
  obtain ⟨⟨⟩, hspaces, -⟩ := Outcome.bind_eq_ok_iff.mp h
  exact bind_eq_ok_iff.mpr ⟨(), hspaces, rfl⟩

/-- **A form assembler is one over dense supports** if its form is bilinear and no function of its bases
vanishes on the domain. -/
theorem bilinearOver (hmake : (make (some k) bases geometry).result = .ok f)
    (htrial : bases.trial.length = k.form.dim) (htest : bases.test.length = k.form.dim)
    (harity : k.form.arity = .bilinear)
    (hmesh : ∀ p ∈ bases.test.zip bases.trial, p.1.elements = p.2.elements)
    (htests : ∀ v ∈ bases.test, v.AllSupported) (htrials : ∀ u ∈ bases.trial, u.AllSupported) :
    f.assembler.BilinearOver bases.supports := by
  have hsup := hasSupports hmake htrial htest
  have hfind := findsNeighbors hmake htrial htest
  have hchecked := checked_of_make hmake
  have hlen := htrial.trans htest.symm
  obtain ⟨rfl, rfl, -, hdata⟩ := make_eq_ok hmake
  refine ⟨hchecked, harity, fun hnil => ?_, hsup, fun x hx => ?_,
    KernelBases.dense_supports hmesh htests htrials, hfind, fun hsymmetric => ?_⟩
  · have hsizes := (KernelBases.map_trial_supports hlen).symm.trans (congrArg (List.map _) hnil)
    exact (hdata.supports hlen).1 (List.map_eq_nil_iff.mp hsizes)
  · obtain ⟨v, u, -, rfl⟩ := KernelBases.exists_of_mem_supports hx
    exact v.sortedSupports
  · have huses : f.assembler.usesSymmetry ⟨{}, 1⟩ = true := Bool.and_eq_true_iff.mpr ⟨rfl, hsymmetric⟩
    obtain ⟨l, hl⟩ := exists_shared huses
    rw [hl]
    exact fun x hx => KernelBases.test_eq_trial hx

end FormAssembler

end Bases

end Galerkin
