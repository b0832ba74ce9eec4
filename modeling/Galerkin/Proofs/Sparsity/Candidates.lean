import Galerkin.Proofs.Index.Linear
import Galerkin.Proofs.Index.Meeting
import Galerkin.Sparsity.Candidates

/-! # Pairs of functions whose supports meet

Candidates of an axis are found in one pass over both tables of supports: trial functions that have ended
are passed over for good, and the following ones are looked at until one starts behind the test function.
Among sorted supports this leaves no pair out.

* **`candidatePairs_eq`** — the pairs of a pass, test function by test function;
* **`mem_candidatesOfSupport`** — the pairs are those of functions whose supports meet;
* **`pairwise_candidatesOfSupport`** — they are listed in lexicographic order, so no pair is listed twice. -/

namespace Galerkin

variable {s : Interval} {test : List Interval} {trial : List (Interval × Nat)} {i j : Nat}

/-! ## (1) One pass -/

/-- Numbered supports that do not decrease in either end. -/
def SortedPairs (trial : List (Interval × Nat)) : Prop :=
  trial.Pairwise fun t u => t.1.first ≤ u.1.first ∧ t.1.last ≤ u.1.last

/-- Passing over those that have ended leaves out nothing else. -/
theorem skipEnded_eq_filter (h : SortedPairs trial) :
    skipEnded s trial = trial.filter fun t => decide (s.first < t.1.last) := by
  have hends : trial.Pairwise fun t u => decide (u.1.last ≤ s.first) = true →
      decide (t.1.last ≤ s.first) = true := by
    refine h.imp fun {t u} htu hu => ?_
    rw [decide_eq_true_iff] at hu ⊢
    exact Nat.le_trans htu.2 hu
  refine (dropWhile_eq_filter hends).trans (List.filter_congr fun t _ => ?_)
  rw [← decide_not, decide_eq_decide, Nat.not_le]

/-- **A test function meets the following trial functions** up to the first one that starts behind it, and
none of those passed over. -/
theorem meeting_skipEnded (h : SortedPairs trial) :
    meeting s (skipEnded s trial) = (trial.filter fun t => decide (s.Meets t.1)).map Prod.snd := by
  have hstarts : (skipEnded s trial).Pairwise fun t u => decide (u.1.first < s.last) = true →
      decide (t.1.first < s.last) = true := by
    rw [skipEnded_eq_filter h]
    refine (List.Pairwise.filter _ h).imp fun {t u} htu hu => ?_
    rw [decide_eq_true_iff] at hu ⊢
    exact Nat.lt_of_le_of_lt htu.1 hu
  refine congrArg (List.map Prod.snd) ?_
  refine (congrArg (List.filter _) (takeWhile_eq_filter hstarts)).trans ?_
  -- Two supports meet if each starts before the other one ends, and their intersection is not empty.
  rw [skipEnded_eq_filter h, List.filter_filter, List.filter_filter]
  refine List.filter_congr fun t _ => ?_
  have hempty : (!(s.intersect t.1).isEmpty) = decide (s.Meets t.1) := by
    rw [Bool.eq_iff_iff, Bool.not_eq_true', ← Bool.not_eq_true, Interval.isEmpty_intersect, not_not,
      decide_eq_true_iff]
  change ((!(s.intersect t.1).isEmpty && decide (t.1.first < s.last)) && decide (s.first < t.1.last)) = _
  rw [Bool.eq_iff_iff, hempty, Bool.and_eq_true, Bool.and_eq_true, and_assoc]
  simp only [decide_eq_true_iff]
  exact ⟨fun hall => hall.1, fun hmeets =>
    ⟨hmeets, (Interval.meets_iff.mp hmeets).2.2, (Interval.meets_iff.mp hmeets).2.1⟩⟩

/-- **The pairs of a pass:** for each test function the trial functions that it meets. -/
theorem candidatePairs_eq (htest : test.Pairwise fun s t => s.first ≤ t.first)
    (htrial : SortedPairs trial) (i : Nat) :
    candidatePairs i test trial = (test.zipIdx i).flatMap fun x =>
      (trial.filter fun t => decide (x.1.Meets t.1)).map fun t => (x.2, t.2) := by
  induction test generalizing i trial with
  | nil => rfl
  | cons s test ih =>
    obtain ⟨hs, htest⟩ := List.pairwise_cons.mp htest
    have hskip := skipEnded_eq_filter (s := s) htrial
    have hrest : SortedPairs (skipEnded s trial) := by
      rw [hskip]
      exact List.Pairwise.filter _ htrial
    rw [candidatePairs, meeting_skipEnded htrial, ih htest hrest, List.zipIdx_cons, List.flatMap_cons,
      List.map_map]
    refine congrArg (_ ++ ·) (List.flatMap_congr fun x hx => ?_)
    -- What has ended before a test function starts meets none of the later ones.
    have hstart := hs x.1 (List.fst_mem_of_mem_zipIdx hx)
    rw [hskip, List.filter_filter]
    refine congrArg (List.map _) (List.filter_congr fun t _ => ?_)
    rw [Bool.and_eq_left_iff_imp]
    simp only [decide_eq_true_iff]
    exact fun hmeets => Nat.lt_of_le_of_lt hstart (Interval.meets_iff.mp hmeets).2.1

/-! ## (2) Candidates -/

/-- The two lists of candidates are equally long. -/
theorem size_candidatesOfSupport (test trial : List Interval) :
    (candidatesOfSupport test trial).test.size = (candidatesOfSupport test trial).trial.size := by
  rw [candidatesOfSupport, AxisCandidates.ofPairs, List.size_toArray, List.size_toArray,
    List.length_map, List.length_map]

section Tables

variable {test trial : Array Interval} (htest : SortedSupports test) (htrial : SortedSupports trial)

include htest htrial

/-- The candidates of two tables, test function by test function. -/
theorem pairs_candidatesOfSupport : (candidatesOfSupport test.toList trial.toList).pairs =
    test.toList.zipIdx.flatMap fun x =>
      (trial.toList.zipIdx.filter fun t => decide (x.1.Meets t.1)).map fun t => (x.2, t.2) := by
  have hpairs : SortedPairs trial.toList.zipIdx := by
    have hends := htrial.pairwise
    rwa [← List.zipIdx_map_fst 0 trial.toList, List.pairwise_map] at hends
  rw [candidatesOfSupport, AxisCandidates.pairs_ofPairs]
  exact candidatePairs_eq (htest.pairwise.imp fun h => h.1) hpairs 0

/-- **The candidates are the pairs of functions whose supports meet.** -/
theorem mem_candidatesOfSupport : (i, j) ∈ (candidatesOfSupport test.toList trial.toList).pairs ↔
    (i < test.size ∧ j < trial.size) ∧ (supportAt test i).Meets (supportAt trial j) := by
  have hget : ∀ (table : Array Interval) (x : Interval × Nat),
      x ∈ table.toList.zipIdx ↔ x.2 < table.size ∧ supportAt table x.2 = x.1 := by
    intro table x
    rw [List.mem_zipIdx_iff_getElem?, Array.getElem?_toList, Array.getElem?_eq_some_iff, ← exists_prop]
    refine exists_congr fun hx => ?_
    rw [supportAt, Array.getD_eq_getD_getElem?, Array.getElem?_eq_getElem hx, Option.getD_some]
  rw [pairs_candidatesOfSupport htest htrial, List.mem_flatMap]
  constructor
  · rintro ⟨x, hx, hpair⟩
    obtain ⟨t, ht, hpair⟩ := List.mem_map.mp hpair
    obtain ⟨ht, hmeets⟩ := List.mem_filter.mp ht
    obtain ⟨rfl, rfl⟩ := Prod.mk.inj hpair
    obtain ⟨hi, hxs⟩ := (hget test x).mp hx
    obtain ⟨hj, hts⟩ := (hget trial t).mp ht
    rw [hxs, hts]
    exact ⟨⟨hi, hj⟩, of_decide_eq_true hmeets⟩
  · rintro ⟨⟨hi, hj⟩, hmeets⟩
    refine ⟨(supportAt test i, i), (hget test _).mpr ⟨hi, rfl⟩,
      List.mem_map.mpr ⟨(supportAt trial j, j), ?_, rfl⟩⟩
    exact List.mem_filter.mpr ⟨(hget trial _).mpr ⟨hj, rfl⟩, decide_eq_true hmeets⟩

/-- **The candidates are listed in lexicographic order,** first by test function and then by trial
function. -/
theorem pairwise_candidatesOfSupport : (candidatesOfSupport test.toList trial.toList).pairs.Pairwise
    fun x y => x.1 < y.1 ∨ x.1 = y.1 ∧ x.2 < y.2 := by
  have hnumbers : ∀ l : List Interval, l.zipIdx.Pairwise fun x y => x.2 < y.2 := by
    intro l
    rw [← List.pairwise_map (f := Prod.snd), List.zipIdx_map_snd]
    exact List.pairwise_lt_range'
  rw [pairs_candidatesOfSupport htest htrial, List.pairwise_flatMap]
  refine ⟨fun x _ => ?_, (hnumbers test.toList).imp fun {x y} hlt => ?_⟩
  · -- The pairs of one test function.
    rw [List.pairwise_map]
    exact (List.Pairwise.filter _ (hnumbers trial.toList)).imp fun hlt => .inr ⟨rfl, hlt⟩
  · intro p hp q hq
    obtain ⟨_, -, rfl⟩ := List.mem_map.mp hp
    obtain ⟨_, -, rfl⟩ := List.mem_map.mp hq
    exact .inl hlt

/-- **No pair is listed twice.** -/
theorem nodup_candidatesOfSupport : (candidatesOfSupport test.toList trial.toList).pairs.Nodup := by
  refine (pairwise_candidatesOfSupport htest htrial).imp ?_
  rintro x _ h rfl
  omega

end Tables

end Galerkin
