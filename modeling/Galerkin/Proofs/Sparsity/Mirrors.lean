import Galerkin.Proofs.Sparsity.Candidates
import Galerkin.Proofs.Sparsity.Transpose

/-! # Candidates in order and the exchange of their roles

Candidates of sorted supports are the pairs whose supports meet, in strictly increasing order. Exchanging
test and trial function maps a list of different pairs to itself exactly if the mirror of each pair is
listed; then the positions of the mirrors are a permutation that is its own inverse.

* **`exists_transposeIndex_iff`** — when the positions of the mirrored pairs are found;
* **`AxisCandidates.IsTranspose.perm_range`** — these positions are a permutation of all positions;
* **`candidates_mirrored`** — candidates, their order and their mirrors. -/

namespace Galerkin

open AxisCandidates

variable {c : AxisCandidates} {m : List Nat}

/-! ## (1) Positions of mirrored pairs -/

/-- **The positions of the mirrored pairs are found exactly if every mirror is listed.** -/
theorem exists_transposeIndex_iff : (∃ m, transposeIndex c = .ok m) ↔
    c.test.size = c.trial.size ∧ ∀ x ∈ c.pairs, x.swap ∈ c.pairs := by
  constructor
  · rintro ⟨m, hm⟩
    have hlen : c.test.size = c.trial.size := beq_iff_eq.mp (require_bind_eq_ok_iff.mp hm).1
    refine ⟨hlen, fun x hx => ?_⟩
    obtain ⟨p, hp, rfl⟩ := (mem_pairs_iff hlen).mp hx
    have hmirror := isTranspose_of_transposeIndex hlen hm
    exact (mem_pairs_iff hlen).mpr ⟨_, hmirror.lt p hp, hmirror.pair_eq p hp⟩
  · rintro ⟨hlen, hswap⟩
    exact exists_transposeIndex hlen hswap

/-- There is one position for each pair. -/
theorem length_transposeIndex (h : transposeIndex c = .ok m) : m.length = c.size := by
  obtain ⟨hlen, hm⟩ := require_bind_eq_ok_iff.mp h
  rw [← (mapM_eq_ok_iff.mp hm).length_eq, length_pairs (beq_iff_eq.mp hlen)]

/-- **Positions of mirrors are a permutation of all positions** if each is the mirror of its mirror. -/
theorem AxisCandidates.IsTranspose.perm_range (h : c.IsTranspose m.toArray) (hlength : m.length = c.size)
    (hinvolution : ∀ p < c.size, m.getD (m.getD p 0) 0 = p) : m.Perm (List.range c.size) := by
  have hget : ∀ p (hp : p < m.length), m[p] = m.getD p 0 := fun p hp =>
    List.getElem_eq_getD 0
  have hbound : ∀ p < c.size, m.getD p 0 < c.size := fun p hp => by
    have hlt := h.lt p hp
    rwa [Array.getD_eq_getD_getElem?, List.getElem?_toArray, ← List.getD_eq_getElem?_getD] at hlt
  -- Different positions have different mirrors, for they are the mirrors of these.
  have hnodup : m.Nodup := by
    rw [List.nodup_iff_injective_getElem]
    rintro ⟨p, hp⟩ ⟨q, hq⟩ heq
    rw [Fin.mk.injEq, ← hinvolution p (hlength ▸ hp), ← hinvolution q (hlength ▸ hq), ← hget p hp,
      ← hget q hq]
    exact congrArg (m.getD · 0) heq
  refine (List.perm_ext_iff_of_nodup hnodup List.nodup_range).mpr fun p => ?_
  rw [List.mem_range]
  constructor
  · intro hp
    obtain ⟨q, hq, rfl⟩ := List.getElem_of_mem hp
    rw [hget q hq]
    exact hbound q (hlength ▸ hq)
  · intro hp
    have hq : m.getD p 0 < m.length := hlength ▸ hbound p hp
    have hmem : m[m.getD p 0] ∈ m := List.getElem_mem hq
    rwa [hget _ hq, hinvolution p hp] at hmem

/-! ## (2) Candidates of supports -/

/-- **Candidates and their mirrors.** Sorted tables of supports, empty ones included, lead to the pairs whose
supports have an element in common, in strictly increasing lexicographic order. In a list of different pairs
the positions of the mirrored pairs are found exactly if every mirror is listed; they are a permutation that
is its own inverse and exchanges the two functions of a pair. Candidates of a table with itself contain their
mirrors. -/
theorem candidates_mirrored {test trial : Array Interval} (htest : SortedSupports test)
    (htrial : SortedSupports trial) (hnodup : c.pairs.Nodup) :
    ((∀ i j, (i, j) ∈ (candidatesOfSupport test.toList trial.toList).pairs ↔
        (i < test.size ∧ j < trial.size) ∧
          ((supportAt test i).intersect (supportAt trial j)).isEmpty = false) ∧
      (candidatesOfSupport test.toList trial.toList).pairs.Nodup ∧
      (candidatesOfSupport test.toList trial.toList).pairs.Pairwise
        fun x y => x.1 < y.1 ∨ x.1 = y.1 ∧ x.2 < y.2) ∧
    ((∃ m, transposeIndex c = .ok m) ↔
      c.test.size = c.trial.size ∧ ∀ x ∈ c.pairs, x.swap ∈ c.pairs) ∧
    (∀ m, transposeIndex c = .ok m → m.Perm (List.range c.size) ∧
      ∀ p < c.size, m.getD (m.getD p 0) 0 = p ∧
        c.test.getD (m.getD p 0) 0 = c.trial.getD p 0 ∧
        c.trial.getD (m.getD p 0) 0 = c.test.getD p 0) ∧
    ∃ m, transposeIndex (candidatesOfSupport test.toList test.toList) = .ok m := by
  refine ⟨⟨fun i j => ?_, nodup_candidatesOfSupport htest htrial,
    pairwise_candidatesOfSupport htest htrial⟩, exists_transposeIndex_iff, fun m hm => ?_, ?_⟩
  · rw [mem_candidatesOfSupport htest htrial, ← Bool.not_eq_true, Interval.isEmpty_intersect, not_not]
  · have hlen := (exists_transposeIndex_iff.mp ⟨m, hm⟩).1
    have hmirror := isTranspose_of_transposeIndex hlen hm
    have hget : ∀ p, m.toArray.getD p 0 = m.getD p 0 := fun p => by
      rw [Array.getD_eq_getD_getElem?, List.getElem?_toArray, List.getD_eq_getElem?_getD]
    have hinvolution : ∀ p < c.size, m.getD (m.getD p 0) 0 = p := fun p hp => by
      rw [← hget, ← hget p]
      exact hmirror.mirror_mirror hp (firstAt_of_nodup hlen hnodup hp)
    refine ⟨hmirror.perm_range (length_transposeIndex hm) hinvolution, fun p hp => ⟨hinvolution p hp, ?_⟩⟩
    have hpair := hmirror.pair_eq p hp
    rw [hget p] at hpair
    exact Prod.mk.inj hpair
  · -- Meeting is mutual, so the mirror of a candidate is a candidate.
    refine exists_transposeIndex_iff.mpr ⟨size_candidatesOfSupport _ _, ?_⟩
    rintro ⟨i, j⟩ hmem
    obtain ⟨⟨hi, hj⟩, hmeets⟩ := (mem_candidatesOfSupport htest htest).mp hmem
    exact (mem_candidatesOfSupport htest htest).mpr ⟨⟨hj, hi⟩, Interval.meets_comm.mp hmeets⟩

/-- Supports with empty ones between and behind the others. -/
def gappedSupports : Array Interval := #[⟨0, 2⟩, ⟨2, 2⟩, ⟨2, 3⟩, ⟨3, 3⟩]

/-- Other supports on the same elements, with an empty one between them. -/
def overlappingSupports : Array Interval := #[⟨0, 1⟩, ⟨1, 1⟩, ⟨1, 3⟩]

/-- Two tables with empty supports, and a list of three pairs of which one is its own mirror. -/
theorem candidates_mirrored_gapped :
    SortedSupports gappedSupports ∧ SortedSupports overlappingSupports ∧
      (ofPairs [(2, 0), (1, 1), (0, 2)]).pairs.Nodup ∧
      ((0, 2) ∈ (candidatesOfSupport gappedSupports.toList overlappingSupports.toList).pairs ∧
        (1, 2) ∉ (candidatesOfSupport gappedSupports.toList overlappingSupports.toList).pairs) ∧
      ∃ m, transposeIndex (ofPairs [(2, 0), (1, 1), (0, 2)]) = .ok m ∧ m.Perm (List.range 3) ∧
        ∀ p < 3, m.getD (m.getD p 0) 0 = p := by
  have hgapped : SortedSupports gappedSupports := .of_pairwise (by decide)
  have hoverlapping : SortedSupports overlappingSupports := .of_pairwise (by decide)
  have hnodup : (ofPairs [(2, 0), (1, 1), (0, 2)]).pairs.Nodup := by decide
  obtain ⟨⟨hmem, -⟩, hfound, hmirrors, -⟩ := candidates_mirrored hgapped hoverlapping hnodup
  obtain ⟨m, hm⟩ := hfound.mpr (by decide)
  obtain ⟨hperm, hinvolution⟩ := hmirrors m hm
  refine ⟨hgapped, hoverlapping, hnodup, ⟨(hmem 0 2).mpr (by decide), mt (hmem 1 2).mp (by decide)⟩,
    m, hm, hperm, fun p hp => (hinvolution p hp).1⟩

end Galerkin
