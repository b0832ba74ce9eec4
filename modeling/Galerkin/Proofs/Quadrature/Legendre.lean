import Galerkin.Proofs.Exact
import Galerkin.Quadrature.Gauss
import Mathlib.Algebra.Polynomial.Derivative
import Mathlib.Tactic.LinearCombination
import Mathlib.Tactic.NormNum

/-! # Legendre polynomials

The search for Gauss nodes evaluates a Legendre polynomial and its derivative without coefficients. The
polynomials obey a recurrence of three terms, so the values at a point do. The derivative is a combination of
the last two polynomials over `1 - X * X`; that this is so follows from the recurrence and its derivative.

* **`legendrePolynomial`** — the polynomials;
* **`legendrePair_eq_eval`** — the recurrence gives their values;
* **`derivative_neighbors`** — their derivatives, from neighbouring polynomials;
* **`newtonRoot_one_eq_self_iff`**, **`newtonRoot_of_root`** — the fixed points of Newton's method;
* **`legendre_exact`** — value, derivative and fixed points. -/

open Polynomial

namespace Galerkin

/-! ## (1) The polynomials -/

/-- **The Legendre polynomial of degree `n`,** by the recurrence of three terms. -/
noncomputable def legendrePolynomial (K : Type) [Field K] : (n : Nat) → K[X]
  | 0 => 1
  | 1 => X
  | k + 2 => C (k + 2 : K)⁻¹ * ((2 * k + 3 : K[X]) * X * legendrePolynomial K (k + 1) -
      (k + 1 : K[X]) * legendrePolynomial K k)

section Polynomials

variable {K : Type} [Field K]

@[simp] theorem legendrePolynomial_zero : legendrePolynomial K 0 = 1 := rfl

@[simp] theorem legendrePolynomial_one : legendrePolynomial K 1 = X := rfl

/-- The value of a polynomial, by the recurrence. -/
theorem eval_legendrePolynomial_add_two (k : Nat) (x : K) : (legendrePolynomial K (k + 2)).eval x =
    ((2 * k + 3) * x * (legendrePolynomial K (k + 1)).eval x -
      (k + 1) * (legendrePolynomial K k).eval x) / (k + 2) := by
  rw [legendrePolynomial, div_eq_inv_mul]
  simp

variable [CharZero K]

/-- **The recurrence of three terms,** without a quotient. -/
theorem add_two_mul_legendrePolynomial (k : Nat) :
    (k + 2 : K[X]) * legendrePolynomial K (k + 2) =
      (2 * k + 3 : K[X]) * X * legendrePolynomial K (k + 1) -
        (k + 1 : K[X]) * legendrePolynomial K k := by
  have hne : (k + 2 : K) ≠ 0 := by exact_mod_cast Nat.succ_ne_zero (k + 1)
  have hinv : (k + 2 : K[X]) * C (k + 2 : K)⁻¹ = 1 := by
    rw [← C_eq_natCast, ← C_ofNat, ← C_add, ← C_mul, mul_inv_cancel₀ hne, C_1]
  rw [legendrePolynomial, ← mul_assoc, hinv, one_mul]

/-! ## (2) Derivatives -/

/-- The derivative of the recurrence of three terms. -/
theorem add_two_mul_derivative_legendrePolynomial (k : Nat) :
    (k + 2 : K[X]) * derivative (legendrePolynomial K (k + 2)) =
      (2 * k + 3 : K[X]) * (legendrePolynomial K (k + 1) + X * derivative (legendrePolynomial K (k + 1))) -
        (k + 1 : K[X]) * derivative (legendrePolynomial K k) := by
  have hderiv := congrArg derivative (add_two_mul_legendrePolynomial (K := K) k)
  simp only [derivative_mul, derivative_sub, derivative_add, derivative_X, derivative_natCast, derivative_one,
    derivative_ofNat] at hderiv
  linear_combination hderiv

/-- **Derivatives without differentiation,** from neighbouring polynomials: that of each polynomial comes from
it and the next one, and that of the next one from the same two. -/
theorem derivative_neighbors (k : Nat) :
    (1 - X * X) * derivative (legendrePolynomial K k) =
      (k + 1 : K[X]) * (X * legendrePolynomial K k - legendrePolynomial K (k + 1)) ∧
    (1 - X * X) * derivative (legendrePolynomial K (k + 1)) =
      (k + 1 : K[X]) * (legendrePolynomial K k - X * legendrePolynomial K (k + 1)) := by
  induction k with
  | zero => simp
  | succ k ih =>
    obtain ⟨hprevious, hlast⟩ := ih
    have hrec := add_two_mul_legendrePolynomial (K := K) k
    have hderiv := add_two_mul_derivative_legendrePolynomial (K := K) k
    rw [Nat.cast_succ]
    constructor
    · linear_combination hlast + hrec
    -- The derivative of the recurrence gives `k + 2` times the new derivative from the two known ones.
    · have hne : (k + 2 : K[X]) ≠ 0 := by exact_mod_cast Nat.succ_ne_zero (k + 1)
      refine mul_left_cancel₀ hne ?_
      linear_combination (1 - X * X) * hderiv + (2 * k + 3 : K[X]) * X * hlast -
        (k + 1 : K[X]) * hprevious + (k + 2 : K[X]) * X * hrec

/-- **The derivative of a Legendre polynomial** comes from it and the one before. -/
theorem eval_derivative_legendrePolynomial (k : Nat) {x : K} (hx : x * x ≠ 1) :
    (derivative (legendrePolynomial K (k + 1))).eval x = (k + 1) / (1 - x * x) *
      ((legendrePolynomial K k).eval x - x * (legendrePolynomial K (k + 1)).eval x) := by
  have hne : 1 - x * x ≠ 0 := sub_ne_zero.mpr hx.symm
  have heval := congrArg (eval x) (derivative_neighbors (K := K) k).2
  simp only [eval_mul, eval_sub, eval_add, eval_X, eval_one, eval_natCast] at heval
  rw [div_mul_eq_mul_div, eq_div_iff hne, mul_comm, heval]

end Polynomials

/-! ## (3) The loop -/

section Loop

variable {K : Type} [Field K] [LinearOrder K] {n : Nat} {x : K}

/-- **What the loop keeps:** the values of two neighbouring polynomials, the one of the lower degree first. -/
theorem legendrePair_eq_eval (x : K) (m : Nat) : legendrePair x m =
    ((legendrePolynomial K m).eval x, (legendrePolynomial K (m + 1)).eval x) := by
  induction m with
  | zero => simp [legendrePair]
  | succ m ih =>
    rw [legendrePair, ih, eval_legendrePolynomial_add_two]
    simp only [Scalar.ofNat_exact]
    push_cast
    rfl

/-- **Value and derivative** at every point but the ends of the reference interval. -/
theorem legendre_eq_eval [CharZero K] (hn : 1 ≤ n) (hx : x * x ≠ 1) : legendre n x =
    ((legendrePolynomial K n).eval x, (derivative (legendrePolynomial K n)).eval x) := by
  obtain ⟨k, rfl⟩ := Nat.exists_eq_add_of_le' hn
  rw [legendre, Nat.add_sub_cancel, legendrePair_eq_eval, eval_derivative_legendrePolynomial k hx]
  simp

end Loop

/-! ## (4) Newton's method -/

section Newton

variable {α : Type} [Scalar α]

/-- **A search of one step** moves the point by the quotient of value and derivative. -/
theorem newtonRoot_one (n : Nat) (z : α) :
    newtonRoot n 1 z = z - (legendre n z).1 / (legendre n z).2 := by
  simp only [newtonRoot, ite_self]

variable {K : Type} [Field K] [LinearOrder K] {n : Nat} {z : K}

/-- **Newton's method stays at a root.** -/
theorem newtonRoot_of_root (h : (legendre n z).1 = 0) (steps : Nat) : newtonRoot n steps z = z := by
  induction steps with
  | zero => rfl
  | succ steps ih =>
    have hnext : z - (legendre n z).1 / (legendre n z).2 = z := by rw [h, zero_div, sub_zero]
    simp only [newtonRoot, hnext, ih, ite_self]

/-- **The fixed points of a step** are the roots, where the derivative is not zero. -/
theorem newtonRoot_one_eq_self_iff (h : (legendre n z).2 ≠ 0) :
    newtonRoot n 1 z = z ↔ (legendre n z).1 = 0 := by
  rw [newtonRoot_one, sub_eq_self, div_eq_zero_iff, or_iff_left h]

end Newton

/-! ## (5) Value, derivative and fixed points -/

section Exact

variable {K : Type} [Field K] [LinearOrder K] [IsStrictOrderedRing K] {n : Nat} {x : K}

/-- **The recurrence is right.** From degree one on and at every point other than the ends of the reference
interval it gives the value of the Legendre polynomial and of its derivative. Hence a point at which the
derivative is not zero and which a step of Newton's method does not move is a root; and no search leaves a
root. -/
theorem legendre_exact (hn : 1 ≤ n) (hx : x * x ≠ 1) :
    legendre n x = ((legendrePolynomial K n).eval x, (derivative (legendrePolynomial K n)).eval x) ∧
    ((derivative (legendrePolynomial K n)).eval x ≠ 0 → newtonRoot n 1 x = x →
      (legendrePolynomial K n).IsRoot x) ∧
    ((legendrePolynomial K n).IsRoot x → ∀ steps, newtonRoot n steps x = x) := by
  have hpair := legendre_eq_eval hn hx
  refine ⟨hpair, fun hderiv hfixed => ?_, fun hroot steps => newtonRoot_of_root ?_ steps⟩
  · have hzero := (newtonRoot_one_eq_self_iff (by rwa [hpair])).mp hfixed
    rwa [hpair] at hzero
  · rwa [hpair]

/-- The polynomial of degree five at one half, and its root in the middle: a search that starts there ends
there. -/
theorem legendre_exact_five :
    (legendrePolynomial ℚ 5).eval (1 / 2) = 23 / 256 ∧
    (derivative (legendrePolynomial ℚ 5)).eval (1 / 2) = -285 / 128 ∧
    (legendrePolynomial ℚ 5).IsRoot 0 ∧ newtonRoot 5 100 (0 : ℚ) = 0 := by
  have hhalf : legendre 5 (1 / 2 : ℚ) = (23 / 256, -285 / 128) := by decide +kernel
  have hmiddle : legendre 5 (0 : ℚ) = (0, 15 / 8) := by decide +kernel
  have hfixed : newtonRoot 5 1 (0 : ℚ) = 0 := by decide +kernel
  obtain ⟨hpair, -⟩ := legendre_exact (n := 5) (x := (1 / 2 : ℚ)) (by decide) (by decide +kernel)
  rw [hhalf, Prod.mk.injEq] at hpair
  obtain ⟨hpair', hroot, hstay⟩ := legendre_exact (n := 5) (x := (0 : ℚ)) (by decide) (by decide +kernel)
  rw [hmiddle, Prod.mk.injEq] at hpair'
  have hderiv : (derivative (legendrePolynomial ℚ 5)).eval 0 ≠ 0 := by
    rw [← hpair'.2]
    decide +kernel
  have hzero := hroot hderiv hfixed
  exact ⟨hpair.1.symm, hpair.2.symm, hzero, hstay hzero 100⟩

end Exact

end Galerkin
