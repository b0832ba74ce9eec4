import Galerkin.Proofs.Assembly.Neighbors
import Galerkin.Proofs.Basis.Supports
import Galerkin.Proofs.Sparsity.Candidates
import Mathlib.Algebra.Order.Field.Rat

/-! # Three descriptions of which functions couple

Which functions of a knot vector couple with a given one is found in three ways: by the search of the knot
vector, by the search of an assembler over the same supports, and by listing candidates. All three lead to
the functions whose supports have an element in common, also where supports are empty: a function without
elements lies at an end of the mesh, where neither search reaches it from a function with elements.

* **`Interval.eq_of_contains`** — an interval with an index is given by its indices;
* **`KnotVector.contains_neighbors`** — what a search leads to are the functions that couple;
* **`KnotVector.coupling_agrees`** — the three descriptions. -/

namespace Galerkin

/-- **An interval with an index is given by its indices.** -/
theorem Interval.eq_of_contains {s t : Interval} (hs : s.first < s.last)
    (h : ∀ j, s.contains j = true ↔ t.contains j = true) : s = t := by
  simp only [contains_iff] at h
  -- The first index and the last one lie in both intervals, the ones next to them in neither.
  have hfirst := h s.first
  have hlast := h (s.last - 1)
  have hfirst' := h t.first
  have hlast' := h (t.last - 1)
  obtain ⟨a, b⟩ := s
  obtain ⟨c, d⟩ := t
  simp only at hs hfirst hlast hfirst' hlast'
  rw [mk.injEq]
  omega

namespace KnotVector

variable {α : Type} [Scalar α] [LinearOrder α] [OrderedScalar α] (kv : KnotVector α) {i j : Nat}

/-! ## (1) Functions that couple -/

omit [LinearOrder α] [OrderedScalar α] in
/-- A number that is too large for a function has no elements. -/
theorem lt_dofs_of_supported (h : kv.Supported j) : j < kv.dofs := by
  refine lt_of_not_ge fun hge => ?_
  have hnone : kv.meshSupport[j]? = none := Array.getElem?_eq_none (kv.size_meshSupport.trans_le hge)
  rw [Supported, supportOf, supportAt, Array.getD_eq_getD_getElem?, hnone] at h
  exact Nat.lt_irrefl 0 h

/-- **Overlapping supports have elements:** a support without elements does not reach over an element. -/
theorem supported_of_overlap (hi : i < kv.dofs) (hj : j < kv.dofs)
    (hstart : (kv.supportOf i).first < (kv.supportOf j).last)
    (hend : (kv.supportOf j).first < (kv.supportOf i).last) : kv.Supported i := by
  unfold Supported
  by_contra hempty
  have hlast := (kv.supportOf_le hi).2
  have hlast' := (kv.supportOf_le hj).2
  rcases kv.support_of_isEmpty hi (not_lt.mp hempty) with hzero | htop
  · omega
  · omega

/-- **What a search leads to are the functions that couple.** -/
theorem contains_neighbors (hi : i < kv.dofs) {range : Interval}
    (h : Neighbors (kv.supportOf i) kv.meshSupport range) :
    range.contains j = true ↔ (kv.supportOf i).Meets (kv.supportOf j) := by
  rw [Interval.contains_iff, h.contains_iff, kv.size_meshSupport, Interval.meets_iff]
  constructor
  · rintro ⟨hj, hstart, hend⟩
    exact ⟨⟨kv.supported_of_overlap hi hj hstart hend, kv.supported_of_overlap hj hi hend hstart⟩,
      hstart, hend⟩
  · rintro ⟨⟨-, hsupported⟩, hstart, hend⟩
    exact ⟨kv.lt_dofs_of_supported hsupported, hstart, hend⟩

/-- **Candidates are the pairs of functions that couple.** -/
theorem mem_candidates : (i, j) ∈ (candidatesOfSupport kv.meshSupport.toList kv.meshSupport.toList).pairs ↔
    (kv.supportOf i).Meets (kv.supportOf j) := by
  rw [mem_candidatesOfSupport kv.sortedSupports kv.sortedSupports, kv.size_meshSupport]
  refine and_iff_right_of_imp fun hmeets => ?_
  obtain ⟨⟨hi, hj⟩, -⟩ := Interval.meets_iff.mp hmeets
  exact ⟨kv.lt_dofs_of_supported hi, kv.lt_dofs_of_supported hj⟩

/-! ## (2) The three descriptions -/

/-- **Three descriptions of the coupling functions agree.** The search of the knot vector, the default search
of an assembler with the supports of the knot vector on an axis, and the candidates of these supports lead,
for every function, to the functions whose supports have an element in common with its own. Both searches
return the same interval around the function if it has elements. -/
theorem coupling_agrees (hi : i < kv.dofs) {β : Type} {a : Assembler β} {dim axis : Nat} (haxis : axis < dim)
    (htest : a.meshSupport axis .test = .ok kv.meshSupport)
    (htrial : a.meshSupport axis .trial = .ok kv.meshSupport) :
    ∃ joint neighbors, kv.jointSupportRange i = .ok joint ∧
      Assembler.searchNeighbors dim a.meshSupport axis i = .ok neighbors ∧
      (∀ j, let couples :=
          ((supportAt kv.meshSupport i).intersect (supportAt kv.meshSupport j)).isEmpty = false
        (joint.contains j = true ↔ couples) ∧ (neighbors.contains j = true ↔ couples) ∧
          ((i, j) ∈ (candidatesOfSupport kv.meshSupport.toList kv.meshSupport.toList).pairs ↔ couples)) ∧
      ((supportAt kv.meshSupport i).isEmpty = false → joint = neighbors ∧ joint.contains i = true) := by
  have hi' : i < kv.meshSupport.size := kv.size_meshSupport.symm ▸ hi
  obtain ⟨joint, hjoint, hjointSpec⟩ := jointRange_spec hi' kv.sortedSupports
  obtain ⟨neighbors, hneighbors, hneighborsSpec⟩ :=
    Assembler.searchNeighbors_spec haxis htest htrial hi' kv.sortedSupports
  have hcouples : ∀ j,
      ((supportAt kv.meshSupport i).intersect (supportAt kv.meshSupport j)).isEmpty = false ↔
      (kv.supportOf i).Meets (kv.supportOf j) := by
    intro j
    rw [← Bool.not_eq_true, Interval.isEmpty_intersect, not_not]
    exact Iff.rfl
  have hcontains : ∀ j, joint.contains j = true ↔ (kv.supportOf i).Meets (kv.supportOf j) :=
    fun j => kv.contains_neighbors hi hjointSpec
  have hcontains' : ∀ j, neighbors.contains j = true ↔ (kv.supportOf i).Meets (kv.supportOf j) :=
    fun j => kv.contains_neighbors hi hneighborsSpec
  refine ⟨joint, neighbors, hjoint, hneighbors, fun j => ?_, fun hfull => ?_⟩
  · rw [hcouples j]
    exact ⟨hcontains j, hcontains' j, kv.mem_candidates⟩
  · -- A function with elements couples with itself, so that the common interval is not empty.
    have hself : (kv.supportOf i).Meets (kv.supportOf i) := by
      rw [← Bool.not_eq_true, Interval.isEmpty_iff, not_le] at hfull
      exact Interval.meets_iff.mpr ⟨⟨hfull, hfull⟩, hfull, hfull⟩
    have hin := (hcontains i).mpr hself
    have hbounds := Interval.contains_iff.mp hin
    refine ⟨Interval.eq_of_contains (Nat.lt_of_le_of_lt hbounds.1 hbounds.2) fun j => ?_, hin⟩
    rw [hcontains j, hcontains' j]

/-- Linear functions on one element, with one function without elements at each end. -/
def trimmedKnots : KnotVector ℚ := ⟨1, #[-1, 0, 0, 1, 1, 2], by decide +kernel⟩

/-- An assembler without entries over trimmed functions on two axes. -/
def trimmedAssembler : Assembler ℚ where
  name := "trimmed"
  arity := .bilinear
  test := ⟨[4, 4], 1⟩
  trial := ⟨[4, 4], 1⟩
  symmetric := false
  meshSupport _ _ := .ok trimmedKnots.meshSupport
  neighborRange := Assembler.searchNeighbors 2 fun _ _ => .ok trimmedKnots.meshSupport
  evaluator := ⟨fun _ _ => .ok #[], fun _ => .ok #[]⟩

/-- The second of four functions, between two without elements, couples with itself and the third. -/
theorem coupling_agrees_trimmedKnots :
    1 < trimmedKnots.dofs ∧ trimmedAssembler.meshSupport 1 .test = .ok trimmedKnots.meshSupport ∧
      trimmedKnots.meshSupport = #[⟨0, 0⟩, ⟨0, 1⟩, ⟨0, 1⟩, ⟨1, 1⟩] ∧
      ∃ range, trimmedKnots.jointSupportRange 1 = .ok range ∧
        trimmedAssembler.neighborRange 1 1 = .ok range ∧ range.contains 1 = true ∧
        range.contains 2 = true ∧ range.contains 0 = false ∧ range.contains 3 = false := by
  have hdofs : 1 < trimmedKnots.dofs := by decide +kernel
  have hsupports : trimmedKnots.meshSupport = #[⟨0, 0⟩, ⟨0, 1⟩, ⟨0, 1⟩, ⟨1, 1⟩] := by decide +kernel
  obtain ⟨joint, neighbors, hjoint, hneighbors, hcouples, hsame⟩ :=
    trimmedKnots.coupling_agrees (a := trimmedAssembler) hdofs (show 1 < 2 by decide) rfl rfl
  obtain ⟨rfl, hself⟩ := hsame (by rw [hsupports]; rfl)
  have hmeets : ∀ j, joint.contains j = true ↔
      ((supportAt trimmedKnots.meshSupport 1).intersect
        (supportAt trimmedKnots.meshSupport j)).isEmpty = false := fun j => (hcouples j).1
  rw [hsupports] at hmeets
  refine ⟨hdofs, rfl, hsupports, joint, hjoint, hneighbors, hself, (hmeets 2).mpr (by decide), ?_, ?_⟩
  · exact Bool.eq_false_iff.mpr (mt (hmeets 0).mp (by decide))
  · exact Bool.eq_false_iff.mpr (mt (hmeets 3).mp (by decide))

end KnotVector

end Galerkin
