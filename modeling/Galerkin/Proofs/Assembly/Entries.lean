import Galerkin.Proofs.Assembly.Neighbors
import Galerkin.Proofs.Exact
import Mathlib.Algebra.Order.Ring.Rat
import Mathlib.Data.Multiset.Bind
import Mathlib.Tactic.IntervalCases

/-! # Entries of a sparse matrix

An assembly that goes over the neighbours of every test function has the entries of the blocks of all
pairs of functions whose supports meet on every axis, each once. For a symmetric form it evaluates the
pairs up to the diagonal only and adds the entries of every other block at the mirrored positions too;
these are the same entries in another order.

* **`Assembler.meetingEntries`** — the entries of all pairs whose supports meet;
* **`Multiset.bind_lower_add_mirror`** — pairs below the diagonal with their mirrors are all pairs;
* **`Assembler.blockTriplets_mirror`** — a mirrored block has the entries of the block of the mirrored
  pair;
* **`Assembler.sparseTriplets_exact`** — the entries of an assembly. -/

namespace Galerkin

variable {α : Type}

/-! ## (1) Pairs and their mirrors -/

/-- **Pairs up to the diagonal, and the mirrors of those below it, are all pairs** of a symmetric
relation. -/
theorem bind_lower_add_mirror {β γ : Type} (m : Multiset β) {p : β → β → Prop}
    [∀ x y, Decidable (p x y)] (hp : ∀ x y, p x y ↔ p y x) (key : β → Nat) (f : β → β → Multiset γ) :
    (m.bind fun x => (m.filter fun y => p x y ∧ key y ≤ key x).bind fun y =>
      f x y + if key x ≠ key y then f y x else 0) =
        m.bind fun x => (m.filter (p x)).bind fun y => f x y := by
  simp only [Multiset.bind_filter]
  have hsplit : ∀ x y,
      (if p x y ∧ key y ≤ key x then f x y + (if key x ≠ key y then f y x else 0) else 0) =
        (if p x y ∧ key y ≤ key x then f x y else 0) + if p x y ∧ key y < key x then f y x else 0 := by
    intro x y
    by_cases hle : p x y ∧ key y ≤ key x
    · have hlt : (p x y ∧ key y < key x) ↔ key x ≠ key y := by
        have := hle.2
        exact ⟨fun h => by omega, fun h => ⟨hle.1, by omega⟩⟩
      simp only [if_pos hle, hlt]
    · rw [if_neg hle, if_neg hle, if_neg fun hlt => hle ⟨hlt.1, Nat.le_of_lt hlt.2⟩, add_zero]
  have hmirror : (m.bind fun x => m.bind fun y => if p x y ∧ key y < key x then f y x else 0) =
      m.bind fun x => m.bind fun y => if p x y ∧ key x < key y then f x y else 0 := by
    rw [Multiset.bind_bind]
    simp only [hp]
  have hjoin : ∀ x y, (if p x y ∧ key y ≤ key x then f x y else 0) +
      (if p x y ∧ key x < key y then f x y else 0) = if p x y then f x y else 0 := by
    intro x y
    by_cases hxy : p x y
    · rcases Nat.lt_or_ge (key x) (key y) with hlt | hge
      · simp [hxy, hlt]
      · simp [hxy, hge]
    · simp [hxy]
  simp only [hsplit, Multiset.bind_add, hmirror]
  simp only [← Multiset.bind_add, hjoin]

namespace Assembler

variable [Scalar α] {a : Assembler α} {axes : List AxisSupports}

/-! ## (2) Blocks -/

/-- The entries of the block of a pair of functions. -/
def blockEntries (a : Assembler α) (test trial : List Nat) (block : Array α) : List (Triplet α) :=
  (List.range a.test.components).flatMap fun r =>
    (List.range a.trial.components).map fun c =>
      ⟨UInt64.ofNat (MultiIndex.linearIndex test a.test.dofs * a.test.components + r),
        UInt64.ofNat (MultiIndex.linearIndex trial a.trial.dofs * a.trial.components + c),
        block.getD (r * a.trial.components + c) Scalar.zero⟩

/-- **The entries of the blocks of all pairs whose supports meet on every axis,** each once. -/
def meetingEntries (a : Assembler α) (axes : List AxisSupports)
    (block : (test trial : List Nat) → Array α) : List (Triplet α) :=
  (gridNodes a.test.dofs).flatMap fun test =>
    ((gridNodes a.trial.dofs).filter fun trial => decide (MeetOnAxes axes test trial)).flatMap
      fun trial => a.blockEntries test trial (block test trial)

/-- The entries of a block that is not mirrored. -/
theorem blockTriplets_own (test trial : List Nat) (block : Array α) :
    a.blockTriplets (MultiIndex.linearIndex test a.test.dofs)
      (MultiIndex.linearIndex trial a.trial.dofs) false block = a.blockEntries test trial block := by
  unfold blockTriplets blockEntries
  refine List.flatMap_congr fun r _ => ?_
  exact List.map_eq_flatMap.symm

/-- The entries of a block, the pairs of components in any order. -/
theorem coe_blockEntries (test trial : List Nat) (block : Array α) :
    (a.blockEntries test trial block : Multiset (Triplet α)) =
      (List.range a.test.components : Multiset Nat).bind fun r =>
        (List.range a.trial.components : Multiset Nat).bind fun c =>
          {⟨UInt64.ofNat (MultiIndex.linearIndex test a.test.dofs * a.test.components + r),
            UInt64.ofNat (MultiIndex.linearIndex trial a.trial.dofs * a.trial.components + c),
            block.getD (r * a.trial.components + c) Scalar.zero⟩} := by
  simp only [Multiset.bind_singleton, Multiset.map_coe]
  exact (Multiset.coe_bind _ _).symm

/-- **A mirrored block has the entries of the block of the mirrored pair,** if that one is its
transpose. -/
theorem blockTriplets_mirror (hspaces : a.test = a.trial) (test trial : List Nat)
    {block transposed : Array α}
    (hblock : ∀ r < a.test.components, ∀ c < a.trial.components,
      block.getD (r * a.trial.components + c) Scalar.zero =
        transposed.getD (c * a.test.components + r) Scalar.zero) :
    (a.blockTriplets (MultiIndex.linearIndex test a.test.dofs)
        (MultiIndex.linearIndex trial a.trial.dofs) true block : Multiset (Triplet α)) =
      a.blockEntries test trial block + a.blockEntries trial test transposed := by
  have hpairs : (a.blockTriplets (MultiIndex.linearIndex test a.test.dofs)
      (MultiIndex.linearIndex trial a.trial.dofs) true block : Multiset (Triplet α)) =
        (List.range a.test.components : Multiset Nat).bind fun r =>
          (List.range a.trial.components : Multiset Nat).bind fun c =>
            {⟨UInt64.ofNat (MultiIndex.linearIndex test a.test.dofs * a.test.components + r),
              UInt64.ofNat (MultiIndex.linearIndex trial a.trial.dofs * a.trial.components + c),
              block.getD (r * a.trial.components + c) Scalar.zero⟩} +
            {⟨UInt64.ofNat (MultiIndex.linearIndex trial a.trial.dofs * a.trial.components + c),
              UInt64.ofNat (MultiIndex.linearIndex test a.test.dofs * a.test.components + r),
              block.getD (r * a.trial.components + c) Scalar.zero⟩} := by
    refine (Multiset.coe_bind _ _).symm.trans (Multiset.bind_congr fun r _ => ?_)
    exact (Multiset.coe_bind _ _).symm
  rw [hpairs, coe_blockEntries, coe_blockEntries]
  simp only [Multiset.bind_add]
  refine congrArg _ ((Multiset.bind_bind _ _).trans ?_)
  rw [hspaces] at hblock ⊢
  refine Multiset.bind_congr fun c hc => Multiset.bind_congr fun r hr => ?_
  rw [Multiset.mem_coe, List.mem_range] at hc hr
  rw [hblock r hr c hc]

/-! ## (3) Rows -/

/-- Blocks that are the transposes of those of the mirrored pairs. -/
def MirroredBlocks (a : Assembler α) (axes : List AxisSupports)
    (block : (test trial : List Nat) → Array α) : Prop :=
  ∀ test ∈ gridNodes a.test.dofs, ∀ trial ∈ gridNodes a.trial.dofs, MeetOnAxes axes test trial →
    ∀ r < a.test.components, ∀ c < a.trial.components,
      (block test trial).getD (r * a.trial.components + c) Scalar.zero =
        (block trial test).getD (c * a.test.components + r) Scalar.zero

/-- The same for the blocks of pairs of two different functions. -/
def MirroredOffDiagonal (a : Assembler α) (axes : List AxisSupports)
    (block : (test trial : List Nat) → Array α) : Prop :=
  ∀ test ∈ gridNodes a.test.dofs, ∀ trial ∈ gridNodes a.trial.dofs, MeetOnAxes axes test trial →
    test ≠ trial → ∀ r < a.test.components, ∀ c < a.trial.components,
      (block test trial).getD (r * a.trial.components + c) Scalar.zero =
        (block trial test).getD (c * a.test.components + r) Scalar.zero

/-- Blocks that are mirrored everywhere are so off the diagonal. -/
theorem MirroredBlocks.offDiagonal {block : (test trial : List Nat) → Array α}
    (h : a.MirroredBlocks axes block) : a.MirroredOffDiagonal axes block :=
  fun test htest trial htrial hmeet _ => h test htest trial htrial hmeet

/-- The entries that a row of an assembly has. -/
def rowEntries (a : Assembler α) (axes : List AxisSupports) (symmetric : Bool)
    (block : (test trial : List Nat) → Array α) (test : List Nat) : List (Triplet α) :=
  let i := MultiIndex.linearIndex test a.test.dofs
  ((a.meetingTrials axes test).filter fun trial =>
    !symmetric || decide (MultiIndex.linearIndex trial a.trial.dofs ≤ i)).flatMap fun trial =>
      let j := MultiIndex.linearIndex trial a.trial.dofs
      a.blockTriplets i j (symmetric && i != j) (block test trial)

/-- The rows without mirrors have the entries of all pairs whose supports meet. -/
theorem flatMap_rowEntries_full (block : (test trial : List Nat) → Array α) :
    (gridNodes a.test.dofs).flatMap (a.rowEntries axes false block) = a.meetingEntries axes block := by
  refine List.flatMap_congr fun test _ => ?_
  have hall : (a.meetingTrials axes test).filter (fun trial => !false ||
      decide (MultiIndex.linearIndex trial a.trial.dofs ≤ MultiIndex.linearIndex test a.test.dofs)) =
        a.meetingTrials axes test := List.filter_eq_self.mpr fun _ _ => rfl
  rw [rowEntries, hall]
  exact List.flatMap_congr fun trial _ => a.blockTriplets_own test trial (block test trial)

/-- A row with mirrors has the entries of the pairs up to the diagonal and those of the mirrors of the
pairs below it. -/
theorem coe_rowEntries_symmetric (hspaces : a.test = a.trial)
    {block : (test trial : List Nat) → Array α} (hblock : a.MirroredOffDiagonal axes block)
    {test : List Nat} (htest : test ∈ gridNodes a.test.dofs) :
    (a.rowEntries axes true block test : Multiset (Triplet α)) =
      ((gridNodes a.test.dofs : Multiset (List Nat)).filter fun trial => MeetOnAxes axes test trial ∧
        MultiIndex.linearIndex trial a.test.dofs ≤ MultiIndex.linearIndex test a.test.dofs).bind
          fun trial => (a.blockEntries test trial (block test trial) : Multiset (Triplet α)) +
            if MultiIndex.linearIndex test a.test.dofs ≠ MultiIndex.linearIndex trial a.test.dofs
              then (a.blockEntries trial test (block trial test) : Multiset (Triplet α)) else 0 := by
  have hdofs : a.trial.dofs = a.test.dofs := by rw [hspaces]
  rw [rowEntries, ← Multiset.coe_bind, meetingTrials, List.filter_filter, Multiset.filter_coe, hdofs]
  have hfilter : (gridNodes a.test.dofs).filter (fun trial =>
      (!true || decide (MultiIndex.linearIndex trial a.test.dofs ≤
        MultiIndex.linearIndex test a.test.dofs)) && decide (MeetOnAxes axes test trial)) =
      (gridNodes a.test.dofs).filter fun trial => decide (MeetOnAxes axes test trial ∧
        MultiIndex.linearIndex trial a.test.dofs ≤ MultiIndex.linearIndex test a.test.dofs) := by
    refine List.filter_congr fun trial _ => ?_
    rw [Bool.not_true, Bool.false_or, Bool.decide_and, Bool.and_comm]
  rw [hfilter]
  refine Multiset.bind_congr fun trial htrial => ?_
  obtain ⟨htrial, hmeet⟩ := List.mem_filter.mp (Multiset.mem_coe.mp htrial)
  have hmeet := (of_decide_eq_true hmeet).1
  simp only [Bool.true_and]
  by_cases heq : MultiIndex.linearIndex test a.test.dofs = MultiIndex.linearIndex trial a.test.dofs
  · have hdiagonal := a.blockTriplets_own test trial (block test trial)
    rw [hdofs] at hdiagonal
    rw [if_neg (not_not.mpr heq), add_zero, bne_eq_false_iff_eq.mpr heq, hdiagonal]
  · have hmirror := blockTriplets_mirror hspaces test trial
      (hblock test htest trial (hdofs.symm ▸ htrial) hmeet fun h => heq (h ▸ rfl))
    rw [hdofs] at hmirror
    rw [if_pos heq, bne_iff_ne.mpr heq, hmirror]

/-- **The rows with mirrors have the same entries in another order.** -/
theorem flatMap_rowEntries_symmetric (hspaces : a.test = a.trial)
    (hsame : ∀ x ∈ axes, x.test = x.trial) {block : (test trial : List Nat) → Array α}
    (hblock : a.MirroredOffDiagonal axes block) :
    ((gridNodes a.test.dofs).flatMap (a.rowEntries axes true block)).Perm
      (a.meetingEntries axes block) := by
  have hdofs : a.trial.dofs = a.test.dofs := by rw [hspaces]
  rw [← Multiset.coe_eq_coe, ← Multiset.coe_bind]
  refine (Multiset.bind_congr fun test htest =>
    coe_rowEntries_symmetric hspaces hblock (Multiset.mem_coe.mp htest)).trans ?_
  refine (bind_lower_add_mirror _ (fun _ _ => meetOnAxes_comm hsame)
    (fun index => MultiIndex.linearIndex index a.test.dofs) _).trans ?_
  rw [meetingEntries, ← Multiset.coe_bind]
  refine Multiset.bind_congr fun test _ => ?_
  rw [← Multiset.coe_bind, Multiset.filter_coe, hdofs]

/-! ## (4) The theorem -/

omit [Scalar α] in
/-- What is checked of an assembler: there are functions on every axis, and a symmetric one has the same
spaces for tests and trials. -/
theorem checked_eq_ok (h : a.checked = .ok a) :
    ((a.test.dofs.zip a.trial.dofs).all fun (m, n) => decide (0 < m) && decide (0 < n)) = true ∧
      (a.symmetric = true → a.test = a.trial) := by
  obtain ⟨⟨⟩, hspaces, -⟩ := bind_eq_ok_iff.mp h
  obtain ⟨-, hspaces⟩ := require_bind_eq_ok_iff.mp hspaces
  obtain ⟨hdofs, hspaces⟩ := require_bind_eq_ok_iff.mp hspaces
  have hsame := require_eq_ok_iff.mp hspaces
  refine ⟨hdofs, fun hsymmetric => ?_⟩
  rw [hsymmetric, Bool.not_true, Bool.false_or] at hsame
  exact beq_iff_eq.mp hsame

omit [Scalar α] in
/-- There are components in both spaces. -/
theorem components_pos (h : a.checked = .ok a) : 0 < a.test.components ∧ 0 < a.trial.components := by
  obtain ⟨⟨⟩, hspaces, -⟩ := bind_eq_ok_iff.mp h
  have hcomponents := (require_bind_eq_ok_iff.mp hspaces).1
  rwa [Bool.and_eq_true, decide_eq_true_iff, decide_eq_true_iff] at hcomponents

omit [Scalar α] in
/-- There are test functions on every axis. -/
theorem test_dofs_pos (hchecked : a.checked = .ok a) (hsup : a.HasSupports axes) :
    ∀ n ∈ a.test.dofs, 0 < n := by
  have hpos := (checked_eq_ok hchecked).1
  rw [hsup.test_dofs, hsup.trial_dofs, List.zip_map', List.all_map] at hpos
  rw [hsup.test_dofs]
  intro n hn
  obtain ⟨x, hx, rfl⟩ := List.mem_map.mp hn
  have hboth := List.all_eq_true.mp hpos x hx
  rw [Function.comp_apply, Bool.and_eq_true, decide_eq_true_iff] at hboth
  exact hboth.1

/-- **An assembly among dense supports** has the entries of the rows of all test functions. -/
theorem sparseTriplets_eq_rows (hchecked : a.checked = .ok a) (harity : a.arity = .bilinear)
    (hne : axes ≠ []) (hsup : a.HasSupports axes) (hdense : ∀ x ∈ axes, x.Dense)
    (hfind : a.FindsNeighbors axes) {pool : WorkerPool} {e : Evaluator α}
    (he : a.workerEvaluator.result = .ok e) {block : (test trial : List Nat) → Array α}
    (hblock : ∀ test ∈ gridNodes a.test.dofs, ∀ trial ∈ gridNodes a.trial.dofs,
      MeetOnAxes axes test trial → (a.usesSymmetry pool = true →
        MultiIndex.linearIndex trial a.trial.dofs ≤ MultiIndex.linearIndex test a.test.dofs) →
          e.block test trial = .ok (block test trial)) :
    (a.sparseTriplets pool).result = .ok
      ((gridNodes a.test.dofs).flatMap (a.rowEntries axes (a.usesSymmetry pool) block)).toArray := by
  refine sparseTriplets_eq_ok (test_dofs_pos hchecked hsup) he fun test htest => ?_
  have hin := (mem_gridNodes (hsup.test_ne_nil hne)).mp htest
  rw [hsup.test_dofs, List.forall₂_map_right_iff] at hin
  refine rowTriplets_eq_ok hsup hfind hne harity (served_of_dense hdense hin.flip)
    fun trial htrial => ?_
  obtain ⟨htrial, hmeet⟩ := List.mem_filter.mp htrial
  exact hblock test htest trial htrial (of_decide_eq_true hmeet)

/-- **The entries of an assembly.** Let every test function have neighbours among sorted supports on every
axis, and let the default search find them. Then an assembly has the entries of the blocks of all pairs
whose supports meet on every axis, each once, in storage order of the pairs. If it uses the symmetry of
the form, supports and blocks being symmetric, it has the same entries in another order. -/
theorem sparseTriplets_exact (hchecked : a.checked = .ok a) (harity : a.arity = .bilinear)
    (hne : axes ≠ []) (hsup : a.HasSupports axes) (hdense : ∀ x ∈ axes, x.Dense)
    (hdefault : a.neighborRange = searchNeighbors axes.length a.meshSupport) {pool : WorkerPool}
    {e : Evaluator α} (he : a.workerEvaluator.result = .ok e)
    {block : (test trial : List Nat) → Array α}
    (hblock : ∀ test ∈ gridNodes a.test.dofs, ∀ trial ∈ gridNodes a.trial.dofs,
      MeetOnAxes axes test trial → e.block test trial = .ok (block test trial)) :
    (a.usesSymmetry pool = false → ∃ triplets, (a.sparseTriplets pool).result = .ok triplets ∧
      (a.assembleSparse pool).result = SparseMatrix.ofTriplets triplets a.rows a.cols ∧
      triplets.toList = a.meetingEntries axes block) ∧
    (a.usesSymmetry pool = true → (∀ x ∈ axes, x.test = x.trial) → a.MirroredBlocks axes block →
      ∃ triplets, (a.sparseTriplets pool).result = .ok triplets ∧
        (a.assembleSparse pool).result = SparseMatrix.ofTriplets triplets a.rows a.cols ∧
        triplets.toList.Perm (a.meetingEntries axes block)) := by
  have hfind := findsNeighbors_of_default hsup (fun x hx => (hdense x hx).sorted) hdefault
  have htriplets : (a.sparseTriplets pool).result = .ok _ :=
    sparseTriplets_eq_rows hchecked harity hne hsup hdense hfind he
      fun test htest trial htrial hmeet _ => hblock test htest trial htrial hmeet
  have hmatrix := assembleSparse_result harity htriplets
  constructor
  · intro hfull
    refine ⟨_, htriplets, hmatrix, ?_⟩
    rw [hfull]
    exact flatMap_rowEntries_full block
  · intro hsymmetric hsame hmirrored
    refine ⟨_, htriplets, hmatrix, ?_⟩
    rw [hsymmetric]
    have hform := (Bool.and_eq_true_iff.mp hsymmetric).2
    exact flatMap_rowEntries_symmetric ((checked_eq_ok hchecked).2 hform) hsame hmirrored.offDiagonal

/-- The supports of three functions of degree one over two elements, and of one function over one. -/
def hatSupports : List AxisSupports :=
  let hats := #[⟨0, 1⟩, ⟨0, 2⟩, ⟨1, 2⟩]
  [⟨hats, hats⟩, ⟨#[⟨0, 1⟩], #[⟨0, 1⟩]⟩]

/-- A block of two components that changes with the functions and is its own transpose. -/
def sumBlock (test trial : List Nat) : Array Rat :=
  #[test.sum + trial.sum, 1, 1, test.sum * trial.sum]

/-- A symmetric assembler over these supports. -/
def hatAssembler : Assembler Rat where
  name := "hats"
  arity := .bilinear
  test := ⟨[3, 1], 2⟩
  trial := ⟨[3, 1], 2⟩
  symmetric := true
  meshSupport axis _ := .ok ((hatSupports[axis.toNat]?.map (·.test)).getD #[])
  neighborRange := searchNeighbors 2 fun axis _ =>
    .ok ((hatSupports[axis.toNat]?.map (·.test)).getD #[])
  evaluator := ⟨fun test trial => .ok (sumBlock test trial), fun _ => .ok #[]⟩

/-- The two tables of an axis are the same. -/
theorem same_hatSupports : ∀ x ∈ hatSupports, x.test = x.trial := by
  simp [hatSupports]

/-- Every function meets itself. -/
theorem dense_hatSupports : ∀ x ∈ hatSupports, x.Dense := by
  unfold hatSupports
  rw [List.forall_mem_cons, List.forall_mem_singleton]
  exact ⟨⟨.of_pairwise (by decide), by decide, by decide⟩,
    ⟨.of_pairwise (by decide), by decide, by decide⟩⟩

/-- The assembler has these supports. -/
theorem hasSupports_hatAssembler : hatAssembler.HasSupports hatSupports := by
  refine ⟨rfl, rfl, fun k x hx => ?_⟩
  have htable : ((hatSupports[(k : Int).toNat]?.map (·.test)).getD #[]) = x.test := by
    rw [Int.toNat_natCast, hx]
    rfl
  exact ⟨congrArg Except.ok htable, congrArg Except.ok
    (htable.trans (same_hatSupports x (List.mem_of_getElem? hx)))⟩

/-- Such an assembler has the entries of all pairs of functions that meet, with and without the use of
its symmetry. -/
theorem sparseTriplets_exact_hats :
    (∃ triplets, (hatAssembler.sparseTriplets ⟨{ symmetric := false }, 1⟩).result = .ok triplets ∧
      (hatAssembler.assembleSparse ⟨{ symmetric := false }, 1⟩).result =
        SparseMatrix.ofTriplets triplets hatAssembler.rows hatAssembler.cols ∧
      triplets.toList = hatAssembler.meetingEntries hatSupports sumBlock) ∧
    ∃ triplets, (hatAssembler.sparseTriplets ⟨{}, 1⟩).result = .ok triplets ∧
      (hatAssembler.assembleSparse ⟨{}, 1⟩).result =
        SparseMatrix.ofTriplets triplets hatAssembler.rows hatAssembler.cols ∧
      triplets.toList.Perm (hatAssembler.meetingEntries hatSupports sumBlock) := by
  have hmirrored : hatAssembler.MirroredBlocks hatSupports sumBlock := by
    intro test _ trial _ _ r hr c hc
    change r < 2 at hr
    change c < 2 at hc
    interval_cases r <;> interval_cases c <;>
      simp [sumBlock, hatAssembler, add_comm, mul_comm]
  constructor
  · exact (sparseTriplets_exact rfl rfl (by decide) hasSupports_hatAssembler dense_hatSupports rfl rfl
      fun _ _ _ _ _ => rfl).1 rfl
  · exact (sparseTriplets_exact rfl rfl (by decide) hasSupports_hatAssembler dense_hatSupports rfl rfl
      fun _ _ _ _ _ => rfl).2 rfl same_hatSupports hmirrored

end Assembler

end Galerkin
