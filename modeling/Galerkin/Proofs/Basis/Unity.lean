import Galerkin.Proofs.Basis.Activity
import Galerkin.Proofs.Basis.Derivatives
import Mathlib.Algebra.BigOperators.Ring.Finset

/-! # Partition of unity

Over a knot interval of positive length the pieces of all B-splines of one degree add up to one: raising
the degree splits every piece between two neighbors, and nothing is lost at the ends. So at every point
the values of all basis functions add up to one, and their derivatives of any order to zero. Over the
interval itself both shares of a piece have factors that are not negative; so the values are not negative at
the points of the domain. Outside, where a point is within the tolerance only, they may be.

* **`sum_splinePiece`** — the pieces over an interval add up to one;
* **`eval_splinePiece_nonneg`** — over their interval they are not negative;
* **`KnotVector.sum_jetAt`**, **`KnotVector.jetAt_get_nonneg`** — the functions at a point;
* **`KnotVector.sum_evaluateDerivatives`** — the entries of a table;
* **`KnotVector.partition_of_unity`** — what every table satisfies. -/

open Polynomial

namespace Galerkin

variable {K : Type} [Field K] [LinearOrder K]

/-! ## (1) Pieces -/

section Pieces

variable {t : Nat → K} {s p i : Nat}

/-- **The two shares of a piece** when the degree is raised are the whole piece, if the interval has
positive length and the knots do not decrease. -/
theorem shares_splinePiece {last : Nat} (hknots : KnotsUpTo t last) (hs : t s < t (s + 1))
    (hi : i + p + 1 ≤ last) :
    C (t (i + p + 1) - t i)⁻¹ * (X - C (t i)) * splinePiece t s p i +
      C (t (i + p + 1) - t i)⁻¹ * (C (t (i + p + 1)) - X) * splinePiece t s p i = splinePiece t s p i := by
  by_cases hout : s < i ∨ i + p < s
  · rw [splinePiece_eq_zero hout, mul_zero, mul_zero, add_zero]
  · -- The knots of the piece enclose the interval, so they differ.
    have hlow : t i ≤ t s := hknots i s (by omega) (by omega)
    have hhigh : t (s + 1) ≤ t (i + p + 1) := hknots (s + 1) (i + p + 1) (by omega) hi
    have hne : t (i + p + 1) - t i ≠ 0 := sub_ne_zero.mpr ((hlow.trans_lt hs).trans_le hhigh).ne'
    have hinv : C (t (i + p + 1) - t i)⁻¹ * (C (t (i + p + 1)) - C (t i)) = (1 : K[X]) := by
      rw [← C_sub, ← C_mul, inv_mul_cancel₀ hne, C_1]
    linear_combination splinePiece t s p i * hinv

/-- **The pieces over an interval of positive length add up to one,** if all B-splines that reach over it
are among them. -/
theorem sum_splinePiece {last n : Nat} (hknots : KnotsUpTo t last) (hs : t s < t (s + 1)) (hp : p ≤ s)
    (hn : s < n) (hlast : n + p ≤ last) : ∑ i ∈ Finset.range n, splinePiece t s p i = 1 := by
  induction p with
  | zero =>
    simp only [splinePiece]
    rw [Finset.sum_ite_eq', if_pos (Finset.mem_range.mpr hn)]
  | succ p ih =>
    let left (i : Nat) : K[X] := C (t (i + p + 1) - t i)⁻¹ * (X - C (t i)) * splinePiece t s p i
    let right (i : Nat) : K[X] :=
      C (t (i + p + 1) - t i)⁻¹ * (C (t (i + p + 1)) - X) * splinePiece t s p i
    have hsplit : ∀ i, splinePiece t s (p + 1) i = left i + right (i + 1) := by
      intro i
      have hindex : i + 1 + p + 1 = i + p + 2 := by omega
      rw [splinePiece_succ]
      simp only [left, right, hindex]
    -- The shares of the right neighbors, counted from the first piece on: the first and the last are zero.
    have hfirst : right 0 = 0 := by
      simp only [right]
      rw [splinePiece_eq_zero (.inr (by omega)), mul_zero]
    have hend : right n = 0 := by
      simp only [right]
      rw [splinePiece_eq_zero (.inl hn), mul_zero]
    have hshift : ∑ i ∈ Finset.range n, right (i + 1) = ∑ i ∈ Finset.range n, right i := by
      have hcount := (Finset.sum_range_succ' right n).symm.trans (Finset.sum_range_succ right n)
      rwa [hfirst, hend, add_zero, add_zero] at hcount
    calc ∑ i ∈ Finset.range n, splinePiece t s (p + 1) i
        = ∑ i ∈ Finset.range n, left i + ∑ i ∈ Finset.range n, right (i + 1) := by
          rw [← Finset.sum_add_distrib]
          exact Finset.sum_congr rfl fun i _ => hsplit i
      _ = ∑ i ∈ Finset.range n, (left i + right i) := by rw [hshift, Finset.sum_add_distrib]
      _ = ∑ i ∈ Finset.range n, splinePiece t s p i := by
          refine Finset.sum_congr rfl fun i hi => shares_splinePiece hknots hs ?_
          have hlt := Finset.mem_range.mp hi
          omega
      _ = 1 := ih (by omega) (by omega)

omit [Field K] in
/-- **The knots of a piece enclose its interval,** unless the piece vanishes. -/
theorem knots_enclose {last : Nat} (hknots : KnotsUpTo t last) (hi : i + p + 1 ≤ last) (hfirst : i ≤ s)
    (hend : s ≤ i + p) {x : K} (hlow : t s ≤ x) (hhigh : x ≤ t (s + 1)) :
    t i ≤ x ∧ x ≤ t (i + p + 1) :=
  ⟨(hknots i s hfirst (by omega)).trans hlow, hhigh.trans (hknots (s + 1) (i + p + 1) (by omega) hi)⟩

/-- **Neither share of a piece is negative** over its interval, if the piece is not: both factors are quotients
of differences of ordered knots and points. -/
theorem shares_nonneg [IsStrictOrderedRing K] {last : Nat} (hknots : KnotsUpTo t last) (hi : i + p + 1 ≤ last)
    {x : K} (hlow : t s ≤ x) (hhigh : x ≤ t (s + 1)) (hpiece : 0 ≤ (splinePiece t s p i).eval x) :
    0 ≤ (x - t i) / (t (i + p + 1) - t i) * (splinePiece t s p i).eval x ∧
      0 ≤ (t (i + p + 1) - x) / (t (i + p + 1) - t i) * (splinePiece t s p i).eval x := by
  by_cases hout : s < i ∨ i + p < s
  · rw [splinePiece_eq_zero hout, eval_zero, mul_zero, mul_zero]
    exact ⟨le_refl _, le_refl _⟩
  · obtain ⟨hstart, hend⟩ := knots_enclose hknots hi (by omega) (by omega) hlow hhigh
    have hlength := sub_nonneg.mpr (hstart.trans hend)
    exact ⟨mul_nonneg (div_nonneg (sub_nonneg.mpr hstart) hlength) hpiece,
      mul_nonneg (div_nonneg (sub_nonneg.mpr hend) hlength) hpiece⟩

/-- **Pieces are not negative** over their interval. -/
theorem eval_splinePiece_nonneg [IsStrictOrderedRing K] {last : Nat} (hknots : KnotsUpTo t last)
    (hi : i + p + 1 ≤ last) {x : K} (hlow : t s ≤ x) (hhigh : x ≤ t (s + 1)) :
    0 ≤ (splinePiece t s p i).eval x := by
  induction p generalizing i with
  | zero =>
    rw [splinePiece]
    split
    · rw [eval_one]
      exact zero_le_one
    · rw [eval_zero]
  | succ p ih =>
    have hindex : i + 1 + p + 1 = i + p + 2 := by omega
    have hleft := (shares_nonneg hknots (by omega) hlow hhigh (ih (i := i) (by omega))).1
    have hright := (shares_nonneg hknots (by omega) hlow hhigh (ih (i := i + 1) (by omega))).2
    rw [hindex] at hright
    rw [eval_splinePiece_succ]
    exact add_nonneg hleft hright

end Pieces

namespace KnotVector

variable (kv : KnotVector K)

/-! ## (2) Derivatives at a point -/

/-- There is one factor for each order. -/
theorem length_derivativeFactors (p count k : Nat) (factor : K) :
    (derivativeFactors p count k factor).length = count := by
  induction count generalizing k factor with
  | zero => rfl
  | succ count ih => rw [derivativeFactors, List.length_cons, ih]

/-- At most as many derivatives are listed as are asked for. -/
theorem size_getD_spanDerivatives_le (s : SpanPoint K) (orders r : Nat) :
    ((spanDerivatives s orders).getD r #[]).size ≤ orders + 1 := by
  rw [spanDerivatives, Array.getD_eq_getD_getElem?, Array.getElem?_map]
  cases (Array.range (s.degree + 1))[r]? with
  | none => exact Nat.zero_le _
  | some r =>
    rw [Option.map_some, Option.getD_some, List.size_toArray, List.length_cons, List.length_zipWith,
      length_derivativeFactors]
    exact Nat.succ_le_succ (Nat.min_le_right _ _)

/-- Derivatives of higher orders than asked for are zero. -/
theorem jetAt_get_of_lt {m k : Nat} (hk : m < k) (u : K) (f : Nat) : (kv.jetAt m u).get f k = 0 := by
  rw [Jet.get, Scalar.zero_exact]
  split
  · rfl
  · rw [Array.getD_eq_getD_getElem?, Array.getElem?_eq_none, Option.getD_none]
    refine (size_getD_spanDerivatives_le ..).trans ?_
    omega

/-- **Values add up to one, and derivatives to zero,** over all functions at a point. -/
theorem sum_jetAt (m : Nat) (u : K) (k : Nat) :
    ∑ f ∈ Finset.range kv.dofs, (kv.jetAt m u).get f k = if k = 0 then 1 else 0 := by
  rcases Nat.lt_or_ge m k with hgt | hle
  · rw [if_neg (by omega)]
    exact Finset.sum_eq_zero fun f _ => kv.jetAt_get_of_lt hgt u f
  · have hspan := kv.isSpanFor_findSpan u
    have hpieces : ∑ f ∈ Finset.range kv.dofs, splinePiece kv.knot (kv.findSpan u) kv.degree f = 1 :=
      sum_splinePiece kv.knotsUpTo hspan.proper hspan.degree_le hspan.lt_dofs (le_refl _)
    rw [Finset.sum_congr rfl fun f _ => kv.jetAt_get_eq m u hle, ← eval_finsetSum,
      ← iterate_derivative_sum, hpieces]
    rcases Nat.eq_zero_or_pos k with rfl | hpos
    · exact eval_one
    · rw [iterate_derivative_one hpos, eval_zero, if_neg hpos.ne']

/-- **No function is negative at a point of the domain.** -/
theorem jetAt_get_nonneg [IsStrictOrderedRing K] (m : Nat) {u : K} (hlower : kv.lower ≤ u)
    (hupper : u ≤ kv.upper) {f : Nat} (hf : f < kv.dofs) : 0 ≤ (kv.jetAt m u).get f 0 := by
  rw [kv.lower_eq] at hlower
  rw [kv.upper_eq] at hupper
  have hspan := kv.isSpanFor_findSpan u
  rw [kv.jetAt_get_eq m u (Nat.zero_le m)]
  exact eval_splinePiece_nonneg kv.knotsUpTo (by omega) (hspan.start_le hlower) (hspan.le_end hupper)

/-! ## (3) Tables -/

section Tables

variable [ScalarText K] {points : List K} {maxDeriv : Int} {text : K → String} {table : DerivativeTable K}

/-- **A table of derivatives adds up to one or zero** over all functions, at every point that it has. -/
theorem sum_evaluateDerivatives (h : kv.evaluateDerivatives points maxDeriv text = .ok table) {q : Nat}
    (hq : q < table.points) (k : Nat) :
    ∑ f ∈ Finset.range kv.dofs, table.get f q k = if k = 0 then 1 else 0 := by
  have hcount : table.points = points.length := by rw [evaluateDerivatives_eq_ok h]
  have hpoint : points[q]? = some points[q] := List.getElem?_eq_getElem (hcount ▸ hq)
  rw [Finset.sum_congr rfl fun f _ => evaluateDerivatives_get h hpoint f k]
  exact kv.sum_jetAt maxDeriv.toNat _ k

/-- **Basis functions are a partition of unity.** Lists of accepted points have a table of derivatives. In
every table the values of all functions at a point add up to one and their derivatives of each order to
zero, and at the points of the domain no value is negative. -/
theorem partition_of_unity [IsStrictOrderedRing K] (points : List K) (maxDeriv : Int)
    (text : K → String) :
    (0 ≤ maxDeriv → (∀ u ∈ points, kv.Accepts u) →
      ∃ table, kv.evaluateDerivatives points maxDeriv text = .ok table) ∧
    ∀ table, kv.evaluateDerivatives points maxDeriv text = .ok table →
      table.functions = kv.dofs ∧ table.points = points.length ∧
        ∀ q u, points[q]? = some u →
          ∑ f ∈ Finset.range table.functions, table.get f q 0 = 1 ∧
            (∀ k : Nat, 1 ≤ k → (k : Int) ≤ maxDeriv →
              ∑ f ∈ Finset.range table.functions, table.get f q k = 0) ∧
            (kv.lower ≤ u → u ≤ kv.upper → ∀ f < table.functions, 0 ≤ table.get f q 0) := by
  refine ⟨fun hnonneg haccepts => ⟨_, kv.evaluateDerivatives_eq_ok_iff.mpr ⟨⟨hnonneg, haccepts⟩, rfl⟩⟩,
    fun table h => ?_⟩
  have hfunctions : table.functions = kv.dofs := by rw [evaluateDerivatives_eq_ok h]
  have hcount : table.points = points.length := by rw [evaluateDerivatives_eq_ok h]
  refine ⟨hfunctions, hcount, fun q u hu => ?_⟩
  have hq : q < table.points := hcount ▸ (List.getElem?_eq_some_iff.mp hu).1
  rw [hfunctions]
  refine ⟨(kv.sum_evaluateDerivatives h hq 0).trans (if_pos rfl), fun k hk _ => ?_,
    fun hlower hupper f hf => ?_⟩
  · exact (kv.sum_evaluateDerivatives h hq k).trans (if_neg (by omega))
  · rw [evaluateDerivatives_get h hu]
    exact kv.jetAt_get_nonneg _ hlower hupper hf

end Tables

end KnotVector

/-- The quadratic functions with a double knot, at the double knot and at the upper end of the domain, where
only one of them is not zero. -/
theorem partition_of_unity_doubleKnots :
    doubleKnots.Accepts 1 ∧ doubleKnots.Accepts 2 ∧ doubleKnots.upper = 2 ∧
      ∃ table, doubleKnots.evaluateDerivatives [1, 2] 2 = .ok table ∧ table.functions = 5 ∧
        ∑ f ∈ Finset.range 5, table.get f 0 0 = 1 ∧ ∑ f ∈ Finset.range 5, table.get f 1 2 = 0 ∧
          ∀ f < 5, 0 ≤ table.get f 1 0 := by
  have hone : doubleKnots.Accepts 1 := by
    unfold KnotVector.Accepts
    decide +kernel
  have htwo : doubleKnots.Accepts 2 := by
    unfold KnotVector.Accepts
    decide +kernel
  have hlower : doubleKnots.lower ≤ 2 := by decide +kernel
  have hupper : doubleKnots.upper = 2 := by decide +kernel
  obtain ⟨hexists, hevery⟩ := doubleKnots.partition_of_unity [1, 2] 2 ScalarText.places
  obtain ⟨table, htable⟩ := hexists (by decide) (by simp [hone, htwo])
  obtain ⟨hfunctions, -, hpoints⟩ := hevery table htable
  have hdofs : table.functions = 5 := hfunctions.trans rfl
  obtain ⟨hunit, -, -⟩ := hpoints 0 1 rfl
  obtain ⟨-, hsums, hnonneg⟩ := hpoints 1 2 rfl
  rw [hdofs] at hunit hsums hnonneg
  exact ⟨hone, htwo, hupper, table, htable, hdofs, hunit, hsums 2 (by decide) (by decide),
    hnonneg hlower hupper.ge⟩

end Galerkin
