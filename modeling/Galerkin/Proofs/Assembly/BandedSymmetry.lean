import Galerkin.Proofs.Assembly.Banded
import Galerkin.Proofs.Assembly.Entries

/-! # The use of symmetry in a banded assembly

A symmetric run of a banded assembly leaves the positions above the diagonal to their mirrors. The mirror of
a position is looked up by its pairs, and of several positions with the same pair the first is found. So a
position is filled if none of its pairs is listed before, and then its entries are those of a run without
the use of symmetry; any other position above the diagonal keeps zeros. Without repeated pairs both runs have
the same entries.

* **`Assembler.mirrored_eq_of_transposed`** — a transposed block is the block of the mirrored pair;
* **`Assembler.assembleBandedOver_symmetric`** — the entries with and without the use of symmetry;
* **`Assembler.repeatedPair`** — an example with a position that is not filled. -/

namespace Galerkin.Assembler

variable {α : Type} [Scalar α] {a : Assembler α} {e : Evaluator α} {candidates : List AxisCandidates}
  {mirrors : List (Array Nat)} {block : (test trial : List Nat) → Array α}

/-- **A transposed block is the block of the mirrored pair,** if that one has the transposed entries. -/
theorem mirrored_eq_of_transposed {n : Nat} {values values' : Array α} (hsize : values'.size = n * n)
    (h : ∀ r < n, ∀ c < n, values'.getD (r * n + c) Scalar.zero = values.getD (c * n + r) Scalar.zero) :
    mirrored n n values = values' := by
  rw [mirrored, flatMap_range_map]
  refine Array.ext_getElem? fun s => ?_
  rw [List.getElem?_toArray, List.getElem?_map]
  by_cases hs : s < n * n
  · have hn : 0 < n := Nat.pos_of_mul_pos_left (Nat.zero_lt_of_lt hs)
    have hentry := h (s / n) (Nat.div_lt_of_lt_mul hs) (s % n) (Nat.mod_lt s hn)
    rw [Nat.div_add_mod', Array.getD_eq_getD_getElem?, Array.getElem?_eq_getElem (hsize.symm ▸ hs),
      Option.getD_some] at hentry
    rw [List.getElem?_range hs, Option.map_some, ← hentry, Array.getElem?_eq_getElem (hsize.symm ▸ hs)]
  · have hs := Nat.le_of_not_lt hs
    rw [List.getElem?_eq_none (by rwa [List.length_range]), Array.getElem?_eq_none (hsize.symm ▸ hs)]
    rfl

omit [Scalar α] in
/-- Candidates that are accepted with the use of symmetry are accepted without. -/
theorem prepareAxes_full (h : a.prepareAxes true candidates = .ok mirrors) :
    ∃ mirrors', a.prepareAxes false candidates = .ok mirrors' := by
  refine exists_mapM_eq_ok fun x hx => ?_
  obtain ⟨_, -, hstep⟩ := exists_step_of_mapM h hx
  obtain ⟨⟨⟩, hcheck, -⟩ := bind_eq_ok_iff.mp hstep
  exact ⟨#[], bind_eq_ok_iff.mpr ⟨(), hcheck, rfl⟩⟩

/-- **The entries at a position with and without the use of symmetry** are the same, unless the position lies
above the diagonal and one of its pairs is listed before. -/
theorem getElem?_runEntries_symmetric (hspaces : a.test = a.trial) (hne : candidates ≠ [])
    (hpos : ∀ c ∈ candidates, 0 < c.size) (hm : MirrorsOf candidates mirrors)
    (hsize : ∀ p, IsPosition candidates p → (blockAt candidates block p).size =
      a.test.components * a.trial.components) (mirrors' : List (Array Nat)) {p : List Nat}
    (hp : IsPosition candidates p)
    (htransposed : ∀ r < a.test.components, ∀ c < a.trial.components,
      (blockAt candidates block p).getD (r * a.trial.components + c) Scalar.zero =
        (block ((pairsOn candidates p).map (·.2)) ((pairsOn candidates p).map (·.1))).getD
          (c * a.trial.components + r) Scalar.zero)
    {s : Nat} (hs : s < a.test.components * a.trial.components) :
    (a.runEntries candidates mirrors true block)[a.entryNumber candidates p s]? =
      if compareAxes (pairsOn candidates p) = .gt ∧ ¬ FirstPosition candidates p then some Scalar.zero
        else (a.runEntries candidates mirrors' false block)[a.entryNumber candidates p s]? := by
  have hall : (a.runEntries candidates mirrors' false block)[a.entryNumber candidates p s]? =
      (blockAt candidates block p)[s]? :=
    getElem?_own hne hpos (fun h => absurd h Bool.false_ne_true) (fun p hp _ => hsize p hp) hp rfl hs
  -- Above the diagonal a run with symmetry has what the mirror writes, if it writes there at all.
  by_cases hgt : compareAxes (pairsOn candidates p) = .gt
  · have hskip : skips candidates true p = true := by
      rw [skips, hgt]
      rfl
    by_cases hfirst : FirstPosition candidates p
    · have hmirrored := getElem?_mirrored (a := a) hne hpos (fun _ => hm) (fun p hp _ => hsize p hp) hp
        hskip hfirst hs
      have hsame := hsize p hp
      rw [hspaces] at htransposed hsame
      rw [if_neg fun h => h.2 hfirst, hall, hmirrored, hspaces,
        mirrored_eq_of_transposed hsame htransposed]
    · rw [if_pos ⟨hgt, hfirst⟩]
      exact getElem?_unfilled hne hpos (fun _ => hm) (fun p hp _ => hsize p hp) hp hskip hfirst hs
  · have hskip : skips candidates true p = false := by
      rw [skips, Bool.true_and, beq_eq_false_iff_ne]
      exact hgt
    rw [if_neg fun h => hgt h.1, hall]
    exact getElem?_own hne hpos (fun _ => hm) (fun p hp _ => hsize p hp) hp hskip hs

/-- **The entries of a symmetric form with and without the use of symmetry.** Let the block of every pair of
functions have the transposed entries of that of the mirrored pair. Then both runs make a matrix of as many
entries, and a position has the same ones in both, unless it lies above the diagonal and one of its pairs is
listed before; then those of the symmetric run are zero. Without repeated pairs the entries are equal. -/
theorem assembleBandedOver_symmetric (hchecked : a.checked = .ok a) (harity : a.arity = .bilinear)
    (hsymmetric : a.symmetric = true) (hne : candidates ≠ [])
    (hlen : candidates.length = a.test.dofs.length)
    (hmirrors : a.prepareAxes true candidates = .ok mirrors) (he : a.workerEvaluator.result = .ok e)
    (hblock : ∀ test trial, List.Forall₂ (· < ·) test a.test.dofs →
      List.Forall₂ (· < ·) trial a.trial.dofs → e.block test trial = .ok (block test trial) ∧
        (block test trial).size = a.test.components * a.trial.components ∧
        ∀ r < a.test.components, ∀ c < a.trial.components,
          (block test trial).getD (r * a.trial.components + c) Scalar.zero =
            (block trial test).getD (c * a.trial.components + r) Scalar.zero)
    {pool full : WorkerPool} (hpool : pool.options.symmetric = true)
    (hfull : full.options.symmetric = false) :
    ∃ entries allEntries : Array α,
      (a.assembleBandedOver pool candidates).result = BandedMatrix.make candidates a.test.words
        a.trial.words entries a.test.components a.trial.components ∧
      (a.assembleBandedOver full candidates).result = BandedMatrix.make candidates a.test.words
        a.trial.words allEntries a.test.components a.trial.components ∧
      entries.size = allEntries.size ∧
      (∀ p, IsPosition candidates p → ∀ s < a.test.components * a.trial.components,
        entries[a.entryNumber candidates p s]? =
          if compareAxes (pairsOn candidates p) = .gt ∧ ¬ FirstPosition candidates p then some Scalar.zero
            else allEntries[a.entryNumber candidates p s]?) ∧
      ((∀ c ∈ candidates, c.pairs.Nodup) → entries = allEntries) := by
  have hspaces := (checked_eq_ok hchecked).2 hsymmetric
  obtain ⟨mirrors', hmirrors'⟩ := prepareAxes_full hmirrors
  have hpoolSym : a.usesSymmetry pool = true := by
    rw [usesSymmetry, hpool, hsymmetric]
    rfl
  have hfullSym : a.usesSymmetry full = false := by
    rw [usesSymmetry, hfull]
    rfl
  have hsizes := prepareAxes_sizes hmirrors
  have hpos : ∀ c ∈ candidates, 0 < c.size := fun c hc => (hsizes c hc).1
  have hblockAt : ∀ p, IsPosition candidates p → _ := fun p hp =>
    have hrange := pairsOn_lt hmirrors hlen hspaces hp
    hblock _ _ hrange.1 hrange.2
  have hevaluated : ∀ p ∈ visitedCells (candidates.map (·.size)),
      a.blockBy e ((pairsOn candidates p).map (·.1)) ((pairsOn candidates p).map (·.2)) =
        .ok (blockAt candidates block p) := by
    intro p hp
    have hp := (mem_visitedCells_iff hne hpos).mp hp
    have hrange := pairsOn_lt hmirrors hlen hspaces hp
    rw [blockBy_eq harity hrange.1 hrange.2]
    exact (hblockAt p hp).1
  have hposition := fun p (hp : IsPosition candidates p) s
      (hs : s < a.test.components * a.trial.components) =>
    getElem?_runEntries_symmetric hspaces hne hpos ((prepareAxes_eq_ok hmirrors).2 rfl)
      (fun p hp => (hblockAt p hp).2.1) mirrors' hp (hblockAt p hp).2.2 hs
  refine ⟨a.runEntries candidates mirrors true block, a.runEntries candidates mirrors' false block,
    assembleBandedOver_eq hpoolSym harity hmirrors he fun p hp _ => hevaluated p hp,
    assembleBandedOver_eq hfullSym harity hmirrors' he fun p hp _ => hevaluated p hp,
    size_runEntries.trans size_runEntries.symm, hposition, fun hnodup => ?_⟩
  -- Without repeated pairs every position above the diagonal is filled.
  refine ext_positions size_runEntries (size_runEntries.trans size_runEntries.symm) fun p hp s hs => ?_
  have hfirst := firstPosition_of_nodup (fun c hc => (hsizes c hc).2) hnodup hp
  exact (hposition p hp s hs).trans (if_neg fun h => h.2 hfirst)

/-- Candidates with a pair that is listed twice, and its mirror between. -/
def repeatedPair : List AxisCandidates := [.ofPairs [(0, 1), (1, 0), (0, 1)], .ofPairs [(0, 0)]]

/-- The entries of an assembly over these candidates, at every position but the last one the same with and
without the use of symmetry. -/
theorem assembleBandedOver_symmetric_repeatedPair :
    hatAssembler.prepareAxes true repeatedPair = .ok [#[1, 0, 1], #[0]] ∧
      ∃ entries allEntries : Array Rat,
        (hatAssembler.assembleBandedOver ⟨{}, 1⟩ repeatedPair).result =
          BandedMatrix.make repeatedPair hatAssembler.test.words hatAssembler.trial.words entries 2 2 ∧
        (hatAssembler.assembleBandedOver ⟨{ symmetric := false }, 1⟩ repeatedPair).result =
          BandedMatrix.make repeatedPair hatAssembler.test.words hatAssembler.trial.words allEntries 2 2 ∧
        ∀ s < 4, entries[0 + s]? = allEntries[0 + s]? ∧ entries[8 + s]? = some 0 := by
  have hmirrors : hatAssembler.prepareAxes true repeatedPair = .ok [#[1, 0, 1], #[0]] := by decide +kernel
  have hblock : ∀ test trial, List.Forall₂ (· < ·) test hatAssembler.test.dofs →
      List.Forall₂ (· < ·) trial hatAssembler.trial.dofs →
        hatAssembler.evaluator.block test trial = .ok (sumBlock test trial) ∧
          (sumBlock test trial).size = 2 * 2 ∧ ∀ r < 2, ∀ c < 2,
            (sumBlock test trial).getD (r * 2 + c) Scalar.zero =
              (sumBlock trial test).getD (c * 2 + r) Scalar.zero := by
    intro test trial _ _
    refine ⟨rfl, rfl, fun r hr c hc => ?_⟩
    interval_cases r <;> interval_cases c <;> simp [sumBlock, add_comm, mul_comm]
  obtain ⟨entries, allEntries, hentries, hall, -, hposition, -⟩ :=
    @assembleBandedOver_symmetric _ _ hatAssembler hatAssembler.evaluator repeatedPair _ sumBlock rfl rfl
      rfl (List.cons_ne_nil _ _) rfl hmirrors rfl hblock ⟨{}, 1⟩ ⟨{ symmetric := false }, 1⟩ rfl rfl
  exact ⟨hmirrors, entries, allEntries, hentries, hall, fun s hs =>
    ⟨(hposition [0, 0] (by decide) s hs).trans (if_neg (by decide)),
      (hposition [2, 0] (by decide) s hs).trans (if_pos (by decide))⟩⟩

/-- **A repeated pair above the diagonal is not filled** by a run that uses symmetry: the second of its
positions keeps zeros, where a run without the use of symmetry has the block of the pair. -/
theorem entries_repeatedPair :
    (hatAssembler.assembleBandedOver ⟨{}, 1⟩ repeatedPair).result.toOption.map (·.entries) =
        some #[1, 1, 1, 0, 1, 1, 1, 0, 0, 0, 0, 0] ∧
      (hatAssembler.assembleBandedOver ⟨{ symmetric := false }, 1⟩ repeatedPair).result.toOption.map
        (·.entries) = some #[1, 1, 1, 0, 1, 1, 1, 0, 1, 1, 1, 0] := by
  constructor
  · decide +kernel
  · decide +kernel

end Galerkin.Assembler
