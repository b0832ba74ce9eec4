import Galerkin.Proofs.Steps
import Galerkin.Sparsity.Candidates

/-! # Mirrored pairs of candidates

For each candidate pair the position of the pair with the roles exchanged is looked up. Where the same pair
is listed several times, the first of these positions is found, so the later ones are not the mirror of any
position.

* **`AxisCandidates.FirstAt`** — positions whose pair is not listed before;
* **`AxisCandidates.IsTranspose`** — what positions of mirrored pairs satisfy;
* **`isTranspose_of_transposeIndex`**, **`exists_transposeIndex`** — they are found if they are there. -/

namespace Galerkin

namespace AxisCandidates

variable {c : AxisCandidates} {m : Array Nat} {p q : Nat}

/-! ## (1) Pairs -/

/-- There are as many pairs as positions. -/
theorem length_pairs (hlen : c.test.size = c.trial.size) : c.pairs.length = c.size := by
  rw [pairs, List.length_zip, Array.length_toList, Array.length_toList, ← hlen, Nat.min_self, size]

/-- The pair at a position. -/
theorem getElem?_pairs (hlen : c.test.size = c.trial.size) (hp : p < c.size) :
    c.pairs[p]? = some (c.pair p) := by
  have htest : c.test[p]? = some (c.test.getD p 0) := by
    rw [Array.getD_eq_getD_getElem?, Array.getElem?_eq_getElem hp, Option.getD_some]
  have htrial : c.trial[p]? = some (c.trial.getD p 0) := by
    rw [Array.getD_eq_getD_getElem?, Array.getElem?_eq_getElem (hlen ▸ hp), Option.getD_some]
  rw [pairs, List.getElem?_zip_eq_some]
  exact ⟨(Array.getElem?_toList ..).trans htest, (Array.getElem?_toList ..).trans htrial⟩

/-- **The pairs listed** are those at the positions. -/
theorem mem_pairs_iff (hlen : c.test.size = c.trial.size) {x : Nat × Nat} :
    x ∈ c.pairs ↔ ∃ p < c.size, c.pair p = x := by
  rw [List.mem_iff_getElem?]
  constructor
  · rintro ⟨p, hp⟩
    have hlt : p < c.size := by
      rw [← length_pairs hlen]
      exact (List.getElem?_eq_some_iff.mp hp).1
    exact ⟨p, hlt, Option.some.inj ((getElem?_pairs hlen hlt).symm.trans hp)⟩
  · rintro ⟨p, hp, rfl⟩
    exact ⟨p, getElem?_pairs hlen hp⟩

/-- **Without repetitions a pair has one position.** -/
theorem pair_inj (hlen : c.test.size = c.trial.size) (hnodup : c.pairs.Nodup) (hp : p < c.size)
    (hq : q < c.size) (h : c.pair p = c.pair q) : p = q := by
  have hpairs : c.pairs[p]? = c.pairs[q]? := by rw [getElem?_pairs hlen hp, getElem?_pairs hlen hq, h]
  exact (List.getElem?_inj ((length_pairs hlen).symm ▸ hp) hnodup).mp hpairs

/-- **Whether the pair at a position is not listed before.** -/
def FirstAt (c : AxisCandidates) (p : Nat) : Prop := ∀ q < p, c.pair q ≠ c.pair p

instance (c : AxisCandidates) (p : Nat) : Decidable (c.FirstAt p) :=
  inferInstanceAs (Decidable (∀ q < p, c.pair q ≠ c.pair p))

/-- Such positions differ if their pairs do. -/
theorem FirstAt.unique (hp : c.FirstAt p) (hq : c.FirstAt q) (h : c.pair p = c.pair q) : p = q := by
  rcases Nat.lt_trichotomy p q with hlt | heq | hgt
  · exact absurd h (hq p hlt)
  · exact heq
  · exact absurd h.symm (hp q hgt)

/-- Without repetitions no pair is listed before. -/
theorem firstAt_of_nodup (hlen : c.test.size = c.trial.size) (hnodup : c.pairs.Nodup)
    (hp : p < c.size) : c.FirstAt p :=
  fun _ hq h => Nat.ne_of_lt hq (pair_inj hlen hnodup (Nat.lt_trans hq hp) hp h)

/-! ## (2) Mirrors -/

/-- **Positions of mirrored pairs:** of several the first. -/
structure IsTranspose (c : AxisCandidates) (m : Array Nat) : Prop where
  lt : ∀ p < c.size, m.getD p 0 < c.size
  pair_eq : ∀ p < c.size, c.pair (m.getD p 0) = (c.pair p).swap
  firstAt : ∀ p < c.size, c.FirstAt (m.getD p 0)

/-- **A position is the mirror of its mirror** if its pair is not listed before. -/
theorem IsTranspose.mirror_mirror (h : c.IsTranspose m) (hp : p < c.size) (hfirst : c.FirstAt p) :
    m.getD (m.getD p 0) 0 = p := by
  have hmirror := h.lt p hp
  refine (h.firstAt _ hmirror).unique hfirst ?_
  rw [h.pair_eq _ hmirror, h.pair_eq p hp, Prod.swap_swap]

end AxisCandidates

variable {c : AxisCandidates}

open AxisCandidates

/-- A search for a mirrored pair finds its first position. -/
theorem mirrorPosition_eq_ok_iff (hlen : c.test.size = c.trial.size) {i j p : Nat} :
    mirrorPosition c i j = .ok p ↔ p < c.size ∧ c.pair p = (j, i) ∧ c.FirstAt p := by
  have hfind : mirrorPosition c i j = .ok p ↔ c.pairs.findIdx? (· == (j, i)) = some p := by
    unfold mirrorPosition
    cases c.pairs.findIdx? (· == (j, i)) with
    | none => simp
    | some q => simp
  rw [hfind, List.findIdx?_eq_some_iff_getElem]
  have hget : ∀ q (hq : q < c.pairs.length), c.pairs[q] = c.pair q := fun q hq =>
    Option.some.inj ((List.getElem?_eq_getElem hq).symm.trans
      (getElem?_pairs hlen (length_pairs hlen ▸ hq)))
  constructor
  · rintro ⟨hp, heq, hbefore⟩
    rw [hget p hp, beq_iff_eq] at heq
    refine ⟨length_pairs hlen ▸ hp, heq, fun q hq h => hbefore q hq ?_⟩
    rw [hget q (Nat.lt_trans hq hp), h, heq, beq_self_eq_true]
  · rintro ⟨hp, heq, hfirst⟩
    rw [← length_pairs hlen] at hp
    refine ⟨hp, by rw [hget p hp, heq, beq_self_eq_true], fun q hq h => hfirst q hq ?_⟩
    rw [hget q (Nat.lt_trans hq hp), beq_iff_eq] at h
    rw [h, heq]

/-- **The positions found are those of the mirrored pairs.** -/
theorem isTranspose_of_transposeIndex (hlen : c.test.size = c.trial.size) {m : List Nat}
    (h : transposeIndex c = .ok m) : c.IsTranspose m.toArray := by
  have hall := mapM_eq_ok_iff.mp (require_bind_eq_ok_iff.mp h).2
  have hspec : ∀ p < c.size, m.toArray.getD p 0 < c.size ∧
      c.pair (m.toArray.getD p 0) = (c.pair p).swap ∧ c.FirstAt (m.toArray.getD p 0) := by
    intro p hp
    have hp' : p < c.pairs.length := (length_pairs hlen).symm ▸ hp
    have hpair : c.pairs[p] = c.pair p := Option.some.inj
      ((List.getElem?_eq_getElem hp').symm.trans (getElem?_pairs hlen hp))
    have hstep := hall.get hp' (hall.length_eq ▸ hp')
    simp only [List.get_eq_getElem, hpair] at hstep
    have hp' : p < m.length := hall.length_eq ▸ hp'
    have hget : m.toArray.getD p 0 = m[p] := by
      rw [Array.getD_eq_getD_getElem?, List.getElem?_toArray, List.getElem?_eq_getElem hp',
        Option.getD_some]
    rw [hget]
    exact (mirrorPosition_eq_ok_iff hlen).mp hstep
  exact ⟨fun p hp => (hspec p hp).1, fun p hp => (hspec p hp).2.1, fun p hp => (hspec p hp).2.2⟩

/-- **Mirrored pairs are found** if they are listed. -/
theorem exists_transposeIndex (hlen : c.test.size = c.trial.size)
    (h : ∀ x ∈ c.pairs, x.swap ∈ c.pairs) : ∃ m, transposeIndex c = .ok m := by
  have hsteps : ∀ x ∈ c.pairs, ∃ p, mirrorPosition c x.1 x.2 = .ok p := by
    intro x hx
    unfold mirrorPosition
    cases hfind : c.pairs.findIdx? (· == (x.2, x.1)) with
    | some p => exact ⟨p, rfl⟩
    | none =>
      have hnone := List.findIdx?_eq_none_iff.mp hfind _ (h x hx)
      exact absurd (hnone.symm.trans (beq_self_eq_true (x.2, x.1))) Bool.false_ne_true
  obtain ⟨m, hm⟩ := exists_mapM_eq_ok hsteps
  exact ⟨m, require_bind_eq_ok_iff.mpr ⟨beq_iff_eq.mpr hlen, hm⟩⟩

end Galerkin
