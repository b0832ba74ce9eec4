import Galerkin.Proofs.Basis.Search
import Galerkin.Proofs.Basis.Unity

/-! # Where functions are positive

Functions that are not over an element vanish at the points that the element holds. This is sharp: at every
other point, the end of the element apart, such a function is positive. Which one depends on the side: over a
knot interval the first piece is positive before the end of the interval, the last one behind its start, and
every other one at the points of the interval behind its first knot.

* **`eval_splinePiece_first_pos`**, **`eval_splinePiece_last_pos`**, **`eval_splinePiece_pos`** — positive
  pieces;
* **`KnotVector.exists_pos_before`**, **`KnotVector.exists_pos_behind`** — positive functions that are not over
  an element;
* **`KnotVector.holds_of_vanishing`** — an element holds the points where all those vanish. -/

open Polynomial

namespace Galerkin

/-! ## (1) Pieces -/

section Pieces

variable {K : Type} [Field K] [LinearOrder K] [IsStrictOrderedRing K] {t : Nat → K} {s p i last : Nat} {x : K}

/-- **The first piece over an interval** is positive before the end of the interval, also before its start. -/
theorem eval_splinePiece_first_pos (hknots : KnotsUpTo t last) (hs : t s < t (s + 1)) (hlast : s + 1 ≤ last)
    (hi : i + p = s) (hx : x < t (s + 1)) : 0 < (splinePiece t s p i).eval x := by
  induction p generalizing i with
  | zero =>
    rw [splinePiece, if_pos (by omega), eval_one]
    exact zero_lt_one
  | succ p ih =>
    -- The left share comes from a piece that ends before the interval.
    have hindex : i + p + 2 = s + 1 := by omega
    have hstart : t (i + 1) ≤ t s := hknots _ _ (by omega) (by omega)
    rw [eval_splinePiece_succ, splinePiece_eq_zero (i := i) (.inr (by omega)), eval_zero, mul_zero, zero_add,
      hindex]
    apply mul_pos
    · exact div_pos (sub_pos.mpr hx) (sub_pos.mpr (hstart.trans_lt hs))
    · exact ih (by omega)

/-- **The last piece over an interval** is positive behind the start of the interval, also behind its end. -/
theorem eval_splinePiece_last_pos (hknots : KnotsUpTo t last) (hs : t s < t (s + 1))
    (hlast : s + p + 1 ≤ last) (hx : t s < x) : 0 < (splinePiece t s p s).eval x := by
  induction p with
  | zero =>
    rw [splinePiece, if_pos rfl, eval_one]
    exact zero_lt_one
  | succ p ih =>
    -- The right share comes from a piece that starts behind the interval.
    have hend : t (s + 1) ≤ t (s + p + 1) := hknots _ _ (by omega) (by omega)
    rw [eval_splinePiece_succ, splinePiece_eq_zero (i := s + 1) (.inl (by omega)), eval_zero, mul_zero,
      add_zero]
    apply mul_pos
    · exact div_pos (sub_pos.mpr hx) (sub_pos.mpr (hs.trans_le hend))
    · exact ih (by omega)

/-- **A piece is positive at the points of its interval** behind the first knot of the piece. -/
theorem eval_splinePiece_pos (hknots : KnotsUpTo t last) (hi : i + p + 1 ≤ last) (hfirst : i ≤ s)
    (hend : s ≤ i + p) (hlow : t s ≤ x) (hhigh : x < t (s + 1)) (hx : t i < x) :
    0 < (splinePiece t s p i).eval x := by
  induction p generalizing i with
  | zero =>
    rw [splinePiece, if_pos (by omega), eval_one]
    exact zero_lt_one
  | succ p ih =>
    rcases Nat.eq_or_lt_of_le hend with hlast | hlt
    · exact eval_splinePiece_first_pos hknots (hlow.trans_lt hhigh) (by omega) hlast.symm hhigh
    · -- The piece reaches over the interval already in the degree below, so the left share is positive.
      have hindex : i + 1 + p + 1 = i + p + 2 := by omega
      have hpiece := ih (by omega) hfirst (by omega) hx
      have hover : t (s + 1) ≤ t (i + p + 1) := hknots _ _ (by omega) (by omega)
      have hnonneg := eval_splinePiece_nonneg hknots (i := i + 1) (p := p) (by omega) hlow hhigh.le
      have hright := (shares_nonneg hknots (by omega) hlow hhigh.le hnonneg).2
      rw [hindex] at hright
      rw [eval_splinePiece_succ]
      refine add_pos_of_pos_of_nonneg (mul_pos (div_pos (sub_pos.mpr hx) (sub_pos.mpr ?_)) hpiece) hright
      exact hx.trans (hhigh.trans_le hover)

end Pieces

namespace KnotVector

/-! ## (2) Functions -/

variable {K : Type} [Field K] [LinearOrder K] {kv : KnotVector K} {e f : Nat} {u : K}

/-- The value of a function at a point is that of its piece on the span of the point. -/
theorem jetAt_get_zero (m f : Nat) (u : K) :
    (kv.jetAt m u).get f 0 = (splinePiece kv.knot (kv.findSpan u) kv.degree f).eval u :=
  kv.jetAt_get_eq m u (Nat.zero_le m)

/-- A function that starts behind the start of an element is not over the element. -/
theorem not_contains_of_start (he : e < kv.elements) (hf : f < kv.dofs)
    (h : knotAt kv.mesh (e + 1) ≤ kv.knot f) : (kv.supportOf f).contains e = false := by
  have hsize := kv.size_mesh
  rw [← Bool.not_eq_true, kv.contains_supportOf hf he]
  rintro ⟨hstart, -⟩
  exact absurd (h.trans hstart) (not_le.mpr (kv.mesh_lt (Nat.lt_succ_self e) (by omega)))

/-- A function that ends at the start of an element, or before, is not over the element. -/
theorem not_contains_of_end (he : e < kv.elements) (hf : f < kv.dofs)
    (h : kv.knot (f + kv.degree + 1) ≤ knotAt kv.mesh e) : (kv.supportOf f).contains e = false := by
  rw [← Bool.not_eq_true, kv.contains_supportOf hf he]
  exact fun hover => absurd hover.2 (not_lt.mpr h)

variable [IsStrictOrderedRing K]

/-- **The first function over the span of a point** is positive there, unless the point lies at the upper end of
the domain or behind it. -/
theorem jetAt_get_first_pos (hupper : u < kv.knot kv.dofs) (m : Nat) :
    0 < (kv.jetAt m u).get (kv.findSpan u - kv.degree) 0 := by
  have hspan := kv.isSpanFor_findSpan u
  have hdegree := hspan.degree_le
  have hlast := hspan.lt_dofs
  rw [jetAt_get_zero]
  exact eval_splinePiece_first_pos kv.knotsUpTo hspan.proper (by omega) (by omega) (hspan.lt_end hupper)

/-- **Before an element that is not the first** some function is positive that is not over the element: the
first one over the span of the point. -/
theorem exists_pos_before (he : e < kv.elements) (hpos : e ≠ 0) (hu : u < knotAt kv.mesh e) (m : Nat) :
    ∃ f < kv.dofs, (kv.supportOf f).contains e = false ∧ 0 < (kv.jetAt m u).get f 0 := by
  have hsize := kv.size_mesh
  have hspan := kv.isSpanFor_findSpan u
  have hdegree := hspan.degree_le
  have hlast := hspan.lt_dofs
  obtain ⟨j, -, hj, hknot⟩ := kv.mem_mesh.mp ⟨e, by omega, rfl⟩
  have hlower : kv.knot kv.degree < knotAt kv.mesh e :=
    kv.lower_eq ▸ (kv.mesh_lt (Nat.pos_of_ne_zero hpos) (by omega) : kv.lower < _)
  have hupper : u < kv.knot kv.dofs := hu.trans_le (hknot ▸ kv.knot_mono hj (by omega))
  -- The span of the point starts before the element, and so it ends before the element.
  have hstart : kv.knot (kv.findSpan u) < knotAt kv.mesh e := by
    rcases lt_or_ge u (kv.knot kv.degree) with hout | hin
    · rwa [kv.knot_findSpan_start hout]
    · exact (hspan.start_le hin).trans_lt hu
  have hend : kv.knot (kv.findSpan u + 1) ≤ knotAt kv.mesh e := by
    rw [← hknot] at hstart ⊢
    refine kv.knot_mono ?_ (by omega)
    by_contra hle
    exact absurd hstart (not_lt.mpr (kv.knot_mono (by omega) (by omega)))
  have hindex : kv.findSpan u - kv.degree + kv.degree = kv.findSpan u := by omega
  refine ⟨kv.findSpan u - kv.degree, by omega, not_contains_of_end he (by omega) ?_,
    jetAt_get_first_pos hupper m⟩
  rwa [hindex]

/-- **Behind an element that is not the last** some function is positive that is not over the element. -/
theorem exists_pos_behind (he : e + 1 < kv.elements) (hu : knotAt kv.mesh (e + 1) < u) (m : Nat) :
    ∃ f < kv.dofs, (kv.supportOf f).contains e = false ∧ 0 < (kv.jetAt m u).get f 0 := by
  have hsize := kv.size_mesh
  have hspan := kv.isSpanFor_findSpan u
  have hdegree := hspan.degree_le
  have hlast := hspan.lt_dofs
  obtain ⟨j, hj, hjdofs, hknot⟩ := kv.mem_mesh.mp ⟨e + 1, by omega, rfl⟩
  have hlower : kv.knot kv.degree ≤ u := ((kv.knot_mono hj (by omega)).trans hknot.le).trans hu.le
  -- The end of the element is a knot before the end of the span of the point.
  have hbefore : kv.knot j < kv.knot (kv.findSpan u + 1) := by
    rcases lt_or_ge u (kv.knot kv.dofs) with hin | hout
    · exact (hknot.trans_lt hu).trans (hspan.lt_end hin)
    · rw [kv.knot_findSpan_end hout, hknot, ← kv.upper_eq]
      exact kv.mesh_lt he (by omega)
  have hjspan : j ≤ kv.findSpan u := by
    by_contra hlt
    exact absurd hbefore (not_lt.mpr (kv.knot_mono (by omega) (by omega)))
  rcases lt_or_ge u (kv.knot kv.dofs) with hin | hout
  · by_cases hreach : kv.findSpan u ≤ j + kv.degree
    · -- The function that starts with the next element reaches over the point.
      refine ⟨j, by omega, not_contains_of_start (by omega) (by omega) hknot.ge, ?_⟩
      rw [jetAt_get_zero]
      exact eval_splinePiece_pos kv.knotsUpTo (by omega) hjspan hreach (hspan.start_le hlower)
        (hspan.lt_end hin) (hknot.trans_lt hu)
    · -- If it ends before the point, the first function over the span starts behind the element.
      refine ⟨kv.findSpan u - kv.degree, by omega, not_contains_of_start (by omega) (by omega) ?_,
        jetAt_get_first_pos hin m⟩
      exact hknot.ge.trans (kv.knot_mono (by omega) (by omega))
  · -- Behind the domain it is the last function.
    refine ⟨kv.findSpan u, hlast, not_contains_of_start (by omega) hlast ?_, ?_⟩
    · exact hknot.ge.trans (kv.knot_mono hjspan (by omega))
    · rw [jetAt_get_zero]
      refine eval_splinePiece_last_pos kv.knotsUpTo hspan.proper (by omega) (hspan.proper.trans_le ?_)
      rwa [kv.knot_findSpan_end hout]

/-- **A point where all functions vanish that are not over an element is held by the element,** if it is not
the end of the element: there the continuity of the functions decides. -/
theorem holds_of_vanishing (he : e < kv.elements) (hne : u ≠ knotAt kv.mesh (e + 1)) {m : Nat}
    (h : ∀ f < kv.dofs, (kv.supportOf f).contains e = false → (kv.jetAt m u).get f 0 = 0) :
    kv.Holds u e := by
  constructor
  · by_contra hbefore
    obtain ⟨hpos, hu⟩ := not_or.mp hbefore
    obtain ⟨f, hf, hout, hvalue⟩ := exists_pos_before he hpos (not_le.mp hu) m
    exact hvalue.ne' (h f hf hout)
  · by_contra hbehind
    obtain ⟨hu, hlast⟩ := not_or.mp hbehind
    obtain ⟨f, hf, hout, hvalue⟩ := exists_pos_behind (by omega) (lt_of_le_of_ne (not_lt.mp hu) hne.symm) m
    exact hvalue.ne' (h f hf hout)

end KnotVector

end Galerkin
