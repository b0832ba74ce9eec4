import Galerkin.Basis.KnotVector
import Mathlib.Algebra.Polynomial.Derivative
import Mathlib.Algebra.Polynomial.Eval.Degree
import Mathlib.Tactic.ComputeDegree
import Mathlib.Tactic.LinearCombination

/-! # B-splines and their polynomial pieces

The recursion of Cox and de Boor defines B-splines over a sequence of knots. Between two knots next to each
other a B-spline is a polynomial, its piece there, which a recursion of the same shape defines. The
derivative of a piece is a difference of pieces of the degree below. Quotients by zero are zero.

* **`bspline`** — the recursion;
* **`splinePiece`** — the polynomial piece over a knot interval, and **`eval_splinePiece`**: it has the
  values of the B-spline there;
* **`derivative_splinePiece`** — the derivative of a piece. -/

open Polynomial

namespace Galerkin

variable {K : Type} [Field K]

/-! ## (1) The recursion -/

/-- **The B-spline of degree `p` over the knots from number `i` on,** by the recursion of Cox and
de Boor. -/
def bspline [LinearOrder K] (t : Nat → K) : (p i : Nat) → (x : K) → K
  | 0, i, x => if t i ≤ x ∧ x < t (i + 1) then 1 else 0
  | p + 1, i, x =>
    (x - t i) / (t (i + p + 1) - t i) * bspline t p i x +
      (t (i + p + 2) - x) / (t (i + p + 2) - t (i + 1)) * bspline t p (i + 1) x

/-- **The piece of a B-spline over the interval from knot `s` to the next one,** as a polynomial. -/
noncomputable def splinePiece (t : Nat → K) (s : Nat) : (p i : Nat) → K[X]
  | 0, i => if i = s then 1 else 0
  | p + 1, i =>
    C (t (i + p + 1) - t i)⁻¹ * (X - C (t i)) * splinePiece t s p i +
      C (t (i + p + 2) - t (i + 1))⁻¹ * (C (t (i + p + 2)) - X) * splinePiece t s p (i + 1)

/-- Knots up to number `last` that do not decrease. -/
def KnotsUpTo [LinearOrder K] (t : Nat → K) (last : Nat) : Prop := ∀ i j, i ≤ j → j ≤ last → t i ≤ t j

variable {t : Nat → K} {s p i : Nat}

/-- A piece of positive degree. -/
theorem splinePiece_succ : splinePiece t s (p + 1) i =
    C (t (i + p + 1) - t i)⁻¹ * (X - C (t i)) * splinePiece t s p i +
      C (t (i + p + 2) - t (i + 1))⁻¹ * (C (t (i + p + 2)) - X) * splinePiece t s p (i + 1) := rfl

/-- The value of a piece, by its recursion. -/
theorem eval_splinePiece_succ (x : K) : (splinePiece t s (p + 1) i).eval x =
    (x - t i) / (t (i + p + 1) - t i) * (splinePiece t s p i).eval x +
      (t (i + p + 2) - x) / (t (i + p + 2) - t (i + 1)) * (splinePiece t s p (i + 1)).eval x := by
  rw [splinePiece_succ]
  simp only [eval_add, eval_mul, eval_sub, eval_C, eval_X]
  rw [div_eq_inv_mul, div_eq_inv_mul]

/-- **A piece vanishes over intervals that its knots do not enclose.** -/
theorem splinePiece_eq_zero (h : s < i ∨ i + p < s) : splinePiece t s p i = 0 := by
  induction p generalizing i with
  | zero => exact if_neg (by omega)
  | succ p ih =>
    rw [splinePiece_succ, ih (i := i) (by omega), ih (i := i + 1) (by omega), mul_zero, mul_zero, add_zero]

/-- The degree of a piece is at most that of the B-spline. -/
theorem natDegree_splinePiece_le : (splinePiece t s p i).natDegree ≤ p := by
  induction p generalizing i with
  | zero =>
    rw [splinePiece]
    split
    · exact natDegree_one.le
    · exact natDegree_zero.le
  | succ p ih =>
    have hfactor : ∀ (a : K) (q r : K[X]), q.natDegree ≤ 1 → r.natDegree ≤ p →
        (C a * q * r).natDegree ≤ p + 1 := by
      intro a q r hq hr
      refine natDegree_mul_le.trans ?_
      have := natDegree_C_mul_le a q
      omega
    rw [splinePiece_succ]
    refine natDegree_add_le_of_degree_le (hfactor _ _ _ ?_ ih) (hfactor _ _ _ ?_ ih)
    · exact natDegree_X_sub_C_le _
    · compute_degree

variable [LinearOrder K]

/-- **A piece has the values of the B-spline** over its interval. -/
theorem eval_splinePiece {last : Nat} (hknots : KnotsUpTo t last) (hs : s + 1 ≤ last)
    (hi : i + p + 1 ≤ last) {x : K} (hlow : t s ≤ x) (hhigh : x < t (s + 1)) :
    (splinePiece t s p i).eval x = bspline t p i x := by
  induction p generalizing i with
  | zero =>
    rw [splinePiece, bspline]
    rcases Nat.lt_trichotomy i s with hlt | rfl | hgt
    · -- The interval of the B-spline ends before the point.
      have hend := (hknots (i + 1) s hlt (by omega)).trans hlow
      rw [if_neg hlt.ne, if_neg fun h => absurd h.2 (not_lt.mpr hend), eval_zero]
    · rw [if_pos rfl, if_pos ⟨hlow, hhigh⟩, eval_one]
    · have hstart := hhigh.trans_le (hknots (s + 1) i hgt (by omega))
      rw [if_neg hgt.ne', if_neg fun h => absurd h.1 (not_le.mpr hstart), eval_zero]
  | succ p ih => rw [eval_splinePiece_succ, bspline, ih (by omega), ih (by omega)]

/-! ## (2) Derivatives -/

/-- Knot differences that enclose a common one: where that one is zero, its inverse is too. -/
theorem inv_mul_quotient_eq {last : Nat} (hknots : KnotsUpTo t last) {a b c d : Nat} (hab : a ≤ b)
    (hbc : b ≤ c) (hcd : c ≤ d) (hd : d ≤ last) :
    (t c - t b)⁻¹ * ((t d - t b)⁻¹ * (t d - t b)) = (t c - t b)⁻¹ * ((t c - t a)⁻¹ * (t c - t a)) := by
  by_cases hzero : t c - t b = 0
  · rw [hzero, inv_zero, zero_mul, zero_mul]
  · have hlt : t b < t c := lt_of_le_of_ne (hknots b c hbc (by omega)) fun h => hzero (by rw [h, sub_self])
    have hright : t d - t b ≠ 0 := sub_ne_zero.mpr (hlt.trans_le (hknots c d hcd hd)).ne'
    have hleft : t c - t a ≠ 0 := sub_ne_zero.mpr ((hknots a b hab (by omega)).trans_lt hlt).ne'
    rw [inv_mul_cancel₀ hright, inv_mul_cancel₀ hleft]

/-- **The derivative of a piece** is a difference of pieces of the degree below. -/
theorem derivative_splinePiece {last : Nat} (hknots : KnotsUpTo t last) (hi : i + p + 2 ≤ last) :
    derivative (splinePiece t s (p + 1) i) = C ((p : K) + 1) *
      (C (t (i + p + 1) - t i)⁻¹ * splinePiece t s p i -
        C (t (i + p + 2) - t (i + 1))⁻¹ * splinePiece t s p (i + 1)) := by
  induction p generalizing i with
  | zero =>
    have hconst : ∀ j, derivative (splinePiece t s 0 j) = 0 := by
      intro j
      rw [splinePiece]
      split
      · exact derivative_one
      · exact derivative_zero
    rw [splinePiece_succ]
    simp only [derivative_add, derivative_mul, derivative_sub, derivative_C, derivative_X, hconst]
    simp only [Nat.cast_zero, zero_add, C_1]
    ring
  | succ p ih =>
    -- Both sides differ by a multiple of the piece in the middle of the recursion of depth two.
    have hmiddle := congrArg C (inv_mul_quotient_eq hknots (a := i) (b := i + 1) (c := i + p + 2)
      (d := i + p + 3) (by omega) (by omega) (by omega) hi)
    have hleft := ih (i := i) (by omega)
    have hright := ih (i := i + 1) (by omega)
    have hindex : i + 1 + p = i + p + 1 := by omega
    rw [splinePiece_succ (p := p + 1)]
    simp only [derivative_add, derivative_mul, derivative_sub, derivative_C, derivative_X, hleft, hright]
    rw [splinePiece_succ (i := i), splinePiece_succ (i := i + 1)]
    simp only [hindex, C_mul, C_sub, C_add, Nat.cast_add, Nat.cast_one, C_1] at hmiddle ⊢
    linear_combination (C (p : K) + 1) * splinePiece t s p (i + 1) * hmiddle

end Galerkin
