import Galerkin.Proofs.Assembly.Banded
import Galerkin.Proofs.Assembly.Entries

/-! # The evaluated half

For a symmetric form only one of two mirrored pairs of functions is evaluated, and the other one has the
transposed block. A sparse assembly compares the numbers of the two functions, a banded one their indices
axis by axis; both choose the pairs up to the diagonal. No symmetry of the values is needed: what a run
puts above the diagonal are the blocks of `runBlock`.

* **`Assembler.compareAxes_eq_compare`** — comparing axis by axis compares the numbers;
* **`Assembler.runBlock`** — the block that a run has for a pair of functions;
* **`Assembler.flatMap_rowEntries_perm`** — the entries of the rows of a sparse assembly;
* **`Assembler.getD_runEntries`** — the entries at a position of a banded assembly. -/

namespace Galerkin.Assembler

variable {α : Type}

/-! ## (1) Comparisons -/

/-- **Comparing the functions of a pair axis by axis compares their numbers.** -/
theorem compareAxes_eq_compare {pairs : List (Nat × Nat)} {extents : List Nat}
    (htest : List.Forall₂ (· < ·) (pairs.map (·.1)) extents)
    (htrial : List.Forall₂ (· < ·) (pairs.map (·.2)) extents) :
    compareAxes pairs = compare (MultiIndex.linearIndex (pairs.map (·.2)) extents)
      (MultiIndex.linearIndex (pairs.map (·.1)) extents) := by
  induction pairs generalizing extents with
  | nil =>
    obtain rfl := List.forall₂_nil_left_iff.mp htest
    rfl
  | cons x pairs ih =>
    obtain ⟨i, j⟩ := x
    obtain ⟨n, extents, hi, htests, rfl⟩ := List.forall₂_cons_left_iff.mp htest
    obtain ⟨hj, htrials⟩ := List.forall₂_cons.mp htrial
    have hi' := MultiIndex.linearIndex_lt htests
    have hj' := MultiIndex.linearIndex_lt htrials
    rw [compareAxes_cons, List.map_cons, List.map_cons, MultiIndex.linearIndex_cons htests.length_eq,
      MultiIndex.linearIndex_cons htrials.length_eq]
    -- The first index weighs more than all later ones together.
    rcases Nat.lt_trichotomy i j with hlt | rfl | hgt
    · rw [if_neg (Nat.ne_of_lt hlt), Nat.compare_eq_gt.mpr hlt]
      exact (Nat.compare_eq_gt.mpr (mul_add_lt_of_lt hlt (MultiIndex.linearIndex_lt htests) _)).symm
    · rw [if_pos rfl, ih htests htrials]
      simp only [Nat.compare_eq_ite_lt, Nat.add_lt_add_iff_left]
    · rw [if_neg (Nat.ne_of_gt hgt), Nat.compare_eq_lt.mpr hgt]
      exact (Nat.compare_eq_lt.mpr (mul_add_lt_of_lt hgt (MultiIndex.linearIndex_lt htrials) _)).symm

variable [Scalar α] {a : Assembler α} {axes : List AxisSupports} {symmetric : Bool}
  {block : (test trial : List Nat) → Array α} {test trial : List Nat}

/-! ## (2) Blocks of a run -/

/-- The entries of a transposed block. -/
theorem getD_mirrored {nr nc r c : Nat} (hr : r < nr) (hc : c < nc) (values : Array α) :
    (mirrored nr nc values).getD (c * nr + r) Scalar.zero = values.getD (r * nc + c) Scalar.zero := by
  have hlt : c * nr + r < nc * nr := mul_add_lt_of_lt hc hr 0
  rw [mirrored, flatMap_range_map, Array.getD_eq_getD_getElem?, List.getElem?_toArray, List.getElem?_map,
    List.getElem?_range hlt, Option.map_some, Option.getD_some, mul_add_div_of_lt hr,
    Nat.mul_add_mod_of_lt hr]

/-- **The block that a run has for a pair of functions:** the evaluated one, and above the diagonal of a
symmetric form the transposed one of the mirrored pair. -/
def runBlock (a : Assembler α) (symmetric : Bool) (block : (test trial : List Nat) → Array α)
    (test trial : List Nat) : Array α :=
  if symmetric = true ∧ MultiIndex.linearIndex test a.test.dofs < MultiIndex.linearIndex trial a.trial.dofs
    then mirrored a.test.components a.trial.components (block trial test)
    else block test trial

/-- A run evaluates the pairs up to the diagonal. -/
theorem runBlock_eq (h : symmetric = true →
    MultiIndex.linearIndex trial a.trial.dofs ≤ MultiIndex.linearIndex test a.test.dofs) :
    a.runBlock symmetric block test trial = block test trial :=
  if_neg fun ⟨hsymmetric, hlt⟩ => Nat.not_lt.mpr (h hsymmetric) hlt

/-- A run transposes above the diagonal. -/
theorem runBlock_eq_mirrored
    (h : MultiIndex.linearIndex test a.test.dofs < MultiIndex.linearIndex trial a.trial.dofs) :
    a.runBlock true block test trial =
      mirrored a.test.components a.trial.components (block trial test) := if_pos ⟨rfl, h⟩

/-- **The blocks of a run are transposed off the diagonal,** whatever the evaluated ones are. -/
theorem mirroredOffDiagonal_runBlock (hspaces : a.test = a.trial) (hne : a.test.dofs ≠ []) :
    a.MirroredOffDiagonal axes (a.runBlock true block) := by
  have hdofs : a.trial.dofs = a.test.dofs := by rw [hspaces]
  have hcomponents : a.trial.components = a.test.components := by rw [hspaces]
  intro test htest trial htrial _ hdifferent r hr c hc
  rw [hdofs] at htrial
  rw [hcomponents] at hc ⊢
  -- One of the two pairs is evaluated, and the other one has the transposed block.
  rcases Nat.lt_trichotomy (MultiIndex.linearIndex test a.test.dofs)
    (MultiIndex.linearIndex trial a.test.dofs) with hlt | heq | hgt
  · rw [runBlock_eq_mirrored (hdofs.symm ▸ hlt), runBlock_eq fun _ => hdofs.symm ▸ Nat.le_of_lt hlt,
      hcomponents]
    exact getD_mirrored hc hr _
  · exact absurd (MultiIndex.linearIndex_inj ((mem_gridNodes hne).mp htest)
      ((mem_gridNodes hne).mp htrial) heq) hdifferent
  · rw [runBlock_eq fun _ => hdofs.symm ▸ Nat.le_of_lt hgt, runBlock_eq_mirrored (hdofs.symm ▸ hgt),
      hcomponents]
    exact (getD_mirrored hr hc _).symm

/-! ## (3) Rows of a sparse assembly -/

/-- A row has entries of evaluated pairs and their mirrors only. -/
theorem rowEntries_runBlock :
    a.rowEntries axes symmetric (a.runBlock symmetric block) test =
      a.rowEntries axes symmetric block test := by
  refine List.flatMap_congr fun trial htrial => ?_
  have hhalf := (List.mem_filter.mp htrial).2
  refine congrArg (a.blockTriplets _ _ _) (runBlock_eq fun hsymmetric => ?_)
  rw [hsymmetric, Bool.not_true, Bool.false_or] at hhalf
  exact of_decide_eq_true hhalf

/-- **The rows of a sparse assembly** have the entries of the blocks of a run, with and without the use of
symmetry. -/
theorem flatMap_rowEntries_perm (hne : a.test.dofs ≠ []) (hspaces : symmetric = true → a.test = a.trial)
    (hsame : symmetric = true → ∀ x ∈ axes, x.test = x.trial) :
    ((gridNodes a.test.dofs).flatMap (a.rowEntries axes symmetric block)).Perm
      (a.meetingEntries axes (a.runBlock symmetric block)) := by
  have hrows : a.rowEntries axes symmetric block =
      a.rowEntries axes symmetric (a.runBlock symmetric block) := funext fun _ => rowEntries_runBlock.symm
  rw [hrows]
  cases symmetric with
  | false => rw [flatMap_rowEntries_full]
  | true =>
    exact flatMap_rowEntries_symmetric (hspaces rfl) (hsame rfl)
      (mirroredOffDiagonal_runBlock (hspaces rfl) hne)

/-! ## (4) Positions of a banded assembly -/

variable {candidates : List AxisCandidates} {mirrors : List (Array Nat)} {p : List Nat}

omit [Scalar α] in
/-- **A position is left to its mirror** if its pair of functions lies above the diagonal. -/
theorem skips_eq_true_iff (hspaces : symmetric = true → a.test = a.trial)
    (htest : List.Forall₂ (· < ·) ((pairsOn candidates p).map (·.1)) a.test.dofs)
    (htrial : List.Forall₂ (· < ·) ((pairsOn candidates p).map (·.2)) a.trial.dofs) :
    skips candidates symmetric p = true ↔ symmetric = true ∧
      MultiIndex.linearIndex ((pairsOn candidates p).map (·.1)) a.test.dofs <
        MultiIndex.linearIndex ((pairsOn candidates p).map (·.2)) a.trial.dofs := by
  rw [skips, Bool.and_eq_true, beq_iff_eq]
  refine and_congr_right fun hsymmetric => ?_
  have hdofs : a.trial.dofs = a.test.dofs := by rw [hspaces hsymmetric]
  rw [hdofs] at htrial ⊢
  rw [compareAxes_eq_compare htest htrial, Nat.compare_eq_gt]

section Positions

variable (hne : candidates ≠ []) (hpos : ∀ c ∈ candidates, 0 < c.size)
  (hlen : ∀ c ∈ candidates, c.test.size = c.trial.size) (hnodup : ∀ c ∈ candidates, c.pairs.Nodup)
  (hm : symmetric = true → MirrorsOf candidates mirrors)
  (hsize : ∀ p, IsPosition candidates p → skips candidates symmetric p = false →
    (blockAt candidates block p).size = a.test.components * a.trial.components)

include hne hpos hlen hnodup hm hsize

/-- **The entries at a position of a banded assembly** are those of the block of a run, if no pair is listed
twice. -/
theorem getD_runEntries (hspaces : symmetric = true → a.test = a.trial) (hp : IsPosition candidates p)
    (htest : List.Forall₂ (· < ·) ((pairsOn candidates p).map (·.1)) a.test.dofs)
    (htrial : List.Forall₂ (· < ·) ((pairsOn candidates p).map (·.2)) a.trial.dofs) {s : Nat}
    (hs : s < a.test.components * a.trial.components) :
    (a.runEntries candidates mirrors symmetric block).getD (a.entryNumber candidates p s) Scalar.zero =
      (blockAt candidates (a.runBlock symmetric block) p).getD s Scalar.zero := by
  have hhalf := skips_eq_true_iff hspaces htest htrial
  rw [Array.getD_eq_getD_getElem?, Array.getD_eq_getD_getElem?]
  refine congrArg (Option.getD · Scalar.zero) ?_
  -- A position is filled from its mirror or by itself; no pair is listed before.
  by_cases hskip : skips candidates symmetric p = true
  · rw [getElem?_mirrored hne hpos hm hsize hp hskip (firstPosition_of_nodup hlen hnodup hp) hs, blockAt,
      runBlock, if_pos (hhalf.mp hskip)]
  · rw [getElem?_own hne hpos hm hsize hp (Bool.not_eq_true _ ▸ hskip) hs, blockAt, blockAt, runBlock,
      if_neg (mt hhalf.mpr hskip)]

end Positions

end Galerkin.Assembler
