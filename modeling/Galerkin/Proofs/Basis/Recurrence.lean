import Galerkin.Basis.Derivatives
import Galerkin.Proofs.Basis.Splines
import Galerkin.Proofs.Exact
import Mathlib.Algebra.BigOperators.Intervals
import Mathlib.Data.Nat.Factorial.BigOperators

/-! # The recurrence on one span

The values of the B-splines that are nonzero on a knot span come from those of the degree below, and the
coefficients of their derivatives from those of the order below. Both recurrences stay inside a triangle;
what lies outside it belongs to pieces that vanish on the span.

* **`SpanPoint.valueRow_eq`** — the values of all degrees are those of the pieces;
* **`SpanPoint.iterate_derivative_eq`** — derivatives are combinations of pieces of lower degree;
* **`SpanPoint.getD_spanDerivatives`** — values and derivatives on a span. -/

open Polynomial

namespace Galerkin

variable {K : Type} [Field K] [LinearOrder K]

namespace SpanPoint

variable (s : SpanPoint K)

/-- The piece on the span of the B-spline of degree `d` with number `i`. -/
noncomputable def piece (d i : Nat) : K[X] := splinePiece (knotAt s.knots) s.span d i

/-- The length of a knot interval is the difference of its ends. -/
theorem knotDifference_eq (i c : Nat) : s.knotDifference i c =
    knotAt s.knots (s.span + c + 1) - knotAt s.knots (s.span + 1 - (i - c)) := by
  rw [knotDifference, right, left, Nat.add_assoc]
  ring

/-! ## (1) Values -/

/-- **What is distributed to the functions of a row:** each gets a share from the function before it and
one from that with its own number, where there are such functions. -/
theorem distribute_eq (j : Nat) (v : Nat → K) (saved : K) (r n : Nat) :
    s.distribute j saved r ((List.range' r n).map v) = (List.range' r (n + 1)).map fun i =>
      (if i = r then saved else s.left (j - (i - 1)) * (v (i - 1) / s.knotDifference j (i - 1))) +
        if i < r + n then s.right (i + 1) * (v i / s.knotDifference j i) else 0 := by
  induction n generalizing saved r with
  | zero => simp [distribute]
  | succ n ih =>
    rw [List.range'_succ, List.map_cons, distribute, ih, List.range'_succ (n := n + 1), List.map_cons,
      if_pos rfl, if_pos (by omega)]
    refine congrArg _ (List.map_congr_left fun i hi => ?_)
    rw [List.mem_range'_1] at hi
    have hnot : ¬ i = r := by omega
    have hend : i < r + 1 + n ↔ i < r + (n + 1) := by omega
    simp only [hend, if_neg hnot]
    by_cases hfirst : i = r + 1
    · rw [if_pos hfirst, hfirst, Nat.add_sub_cancel]
    · rw [if_neg hfirst]

/-- **The values of degree `j`** are those of the pieces on the span. -/
theorem valueRow_eq {j : Nat} (hj : j ≤ s.span) : s.valueRow j =
    (List.range' 0 (j + 1)).map fun r => (s.piece j (s.span - j + r)).eval s.point := by
  induction j with
  | zero =>
    simp [valueRow, piece, splinePiece]
  | succ j ih =>
    rw [valueRow, ih (by omega), distribute_eq]
    refine List.map_congr_left fun r hr => ?_
    rw [List.mem_range'_1] at hr
    set m := s.span - (j + 1) + r with hm
    -- The share of the function before, and the share of the function itself.
    have hbefore : (if r = 0 then 0 else s.left (j + 1 - (r - 1)) *
        ((s.piece j (s.span - j + (r - 1))).eval s.point / s.knotDifference (j + 1) (r - 1))) =
          (s.point - knotAt s.knots m) / (knotAt s.knots (m + j + 1) - knotAt s.knots m) *
            (s.piece j m).eval s.point := by
      by_cases hr0 : r = 0
      · rw [if_pos hr0, piece, splinePiece_eq_zero (by omega), eval_zero, mul_zero]
      · have hindex : s.span - j + (r - 1) = m := by omega
        have hlow : s.span + 1 - (j + 1 - (r - 1)) = m := by omega
        have hhigh : s.span + (r - 1) + 1 = m + j + 1 := by omega
        rw [if_neg hr0, knotDifference_eq, left, hindex, hlow, hhigh]
        ring
    have hown : (if r < 0 + (j + 1) then s.right (r + 1) *
        ((s.piece j (s.span - j + r)).eval s.point / s.knotDifference (j + 1) r) else 0) =
          (knotAt s.knots (m + j + 2) - s.point) /
            (knotAt s.knots (m + j + 2) - knotAt s.knots (m + 1)) *
            (s.piece j (m + 1)).eval s.point := by
      by_cases hrj : r < 0 + (j + 1)
      · have hindex : s.span - j + r = m + 1 := by omega
        have hlow : s.span + 1 - (j + 1 - r) = m + 1 := by omega
        have hhigh : s.span + r + 1 = m + j + 2 := by omega
        rw [if_pos hrj, knotDifference_eq, right, hindex, hlow, ← Nat.add_assoc, hhigh]
        ring
      · rw [if_neg hrj, piece, splinePiece_eq_zero (by omega), eval_zero, mul_zero]
    rw [Scalar.zero_exact, hbefore, hown]
    exact eval_splinePiece_succ s.point |>.symm

/-- The row of a degree. -/
theorem getD_valueRows {p j : Nat} (hj : j ≤ p) : (s.valueRows p).getD j #[] = (s.valueRow j).toArray := by
  rw [valueRows, valueRowsFrom_eq, List.map_map, Array.getD_eq_getD_getElem?, List.getElem?_toArray,
    List.getElem?_map, List.getElem?_range' (by omega)]
  simp

/-- **A value of a row** by function and degree. -/
theorem rowValue_eq {p r j : Nat} (hj : j ≤ p) (hp : p ≤ s.span) (hr : r ≤ j) :
    rowValue (s.valueRows p) r j = (s.piece j (s.span - j + r)).eval s.point := by
  rw [rowValue, s.getD_valueRows hj, s.valueRow_eq (hj.trans hp), Array.getD_eq_getD_getElem?,
    List.getElem?_toArray, List.getElem?_map, List.getElem?_range' (by omega)]
  simp

/-! ## (2) Coefficients -/

/-- **The coefficients of order `k`** of function `r`. -/
def coefficients (r : Nat) : (k : Nat) → Array K
  | 0 => #[Scalar.one]
  | k + 1 => coefficientStep s r (k + 1) (coefficients r k)

/-- One coefficient, zero behind the last one. -/
def coefficient (r k j : Nat) : K := (s.coefficients r k).getD j Scalar.zero

/-- There is one coefficient more than the order. -/
theorem size_coefficients (r k : Nat) : (s.coefficients r k).size = k + 1 := by
  cases k with
  | zero => rfl
  | succ k => rw [coefficients, coefficientStep, Array.size_map, Array.size_range]

/-- The coefficients behind the last one are zero. -/
theorem coefficient_eq_zero {r k j : Nat} (h : k < j) : s.coefficient r k j = 0 := by
  have hnone : (s.coefficients r k)[j]? = none :=
    Array.getElem?_eq_none ((s.size_coefficients r k).trans_le h)
  rw [coefficient, Array.getD_eq_getD_getElem?, hnone, Option.getD_none, Scalar.zero_exact]

/-- The coefficient that comes before one, zero before the first. -/
def coefficientBefore (r k j : Nat) : K := if j = 0 then 0 else s.coefficient r k (j - 1)

/-- **Inside the triangle a coefficient is a difference of neighbours** over a knot difference. -/
theorem coefficient_succ {r k j : Nat} (hk : k + 1 ≤ s.degree) (hj : j ≤ k + 1) (hlow : k + 1 ≤ r + j)
    (hhigh : r + j ≤ s.degree) : s.coefficient r (k + 1) j =
      (s.coefficient r k j - s.coefficientBefore r k j) /
        s.knotDifference (s.degree - k) (r + j - (k + 1)) := by
  have hdegree : s.degree - (k + 1) + 1 = s.degree - k := by omega
  have hin : j < k + 1 + 1 := by omega
  rw [coefficient, coefficients, coefficientStep, Array.getD_eq_getD_getElem?, Array.getElem?_map,
    Array.getElem?_range, if_pos hin, Option.map_some, Option.getD_some, hdegree]
  change (if j = 0 then if k + 1 ≤ r then s.coefficient r k 0 / _ else _ else
    if j = k + 1 then if r ≤ s.degree - (k + 1) then -s.coefficient r k k / _ else _ else
      if _ then (s.coefficient r k j - s.coefficient r k (j - 1)) / _ else _) = _
  unfold coefficientBefore
  -- First, last and inner coefficients are set one by one; each bound holds inside the triangle.
  by_cases hfirst : j = 0
  · rw [if_pos hfirst, if_pos hfirst, if_pos (by omega), hfirst, sub_zero, Nat.add_zero r]
  · rw [if_neg hfirst, if_neg hfirst]
    by_cases hlast : j = k + 1
    · have hindex : r + j - (k + 1) = r := by omega
      rw [if_pos hlast, if_pos (by omega), hindex, hlast, s.coefficient_eq_zero (Nat.lt_succ_self k),
        zero_sub, Nat.add_sub_cancel]
    · have hinner : innerFirst r (k + 1) ≤ j ∧ j ≤ innerLast s.degree r (k + 1) := by
        unfold innerFirst innerLast
        constructor
        · split <;> omega
        · split <;> omega
      rw [if_neg hlast, if_pos hinner]

/-! ## (3) Derivatives -/

/-- The combination of the pieces of degree `p - k` with the coefficients of order `k`. -/
noncomputable def combination (r k : Nat) : K[X] :=
  ∑ j ∈ Finset.range (k + 1),
    C (s.coefficient r k j) * s.piece (s.degree - k) (s.span - s.degree + r + j)

/-- Pieces outside the triangle vanish. -/
theorem piece_eq_zero {r k j : Nat} (hspan : s.degree ≤ s.span) (hk : k ≤ s.degree)
    (h : r + j < k ∨ s.degree < r + j) : s.piece (s.degree - k) (s.span - s.degree + r + j) = 0 :=
  splinePiece_eq_zero (by omega)

/-- **The derivative of a combination** is a multiple of the next one. -/
theorem derivative_combination {r k : Nat}
    (hknots : KnotsUpTo (knotAt s.knots) (s.span + s.degree + 1)) (hspan : s.degree ≤ s.span)
    (hr : r ≤ s.degree) (hk : k + 1 ≤ s.degree) : derivative (s.combination r k) =
      C ((s.degree - k : Nat) : K) * s.combination r (k + 1) := by
  obtain ⟨q, hq⟩ : ∃ q, s.degree - k = q + 1 := ⟨s.degree - k - 1, by omega⟩
  have hq' : s.degree - (k + 1) = q := by omega
  set m := s.span - s.degree + r with hm
  -- The inverse of the knot difference that belongs to piece `j`.
  let inverse (j : Nat) : K :=
    (knotAt s.knots (m + j + q + 1) - knotAt s.knots (m + j))⁻¹
  have hstep : ∀ j ∈ Finset.range (k + 1),
      derivative (C (s.coefficient r k j) * s.piece (q + 1) (m + j)) =
        C ((q + 1 : Nat) : K) * (C (s.coefficient r k j * inverse j) * s.piece q (m + j) -
          C (s.coefficientBefore r k (j + 1) * inverse (j + 1)) * s.piece q (m + (j + 1))) := by
    intro j hj
    rw [Finset.mem_range] at hj
    have hpiece := derivative_splinePiece (s := s.span) hknots (p := q) (i := m + j) (by omega)
    have hnext : m + j + q + 2 = m + (j + 1) + q + 1 := by omega
    rw [derivative_C_mul, piece, hpiece, hnext, Nat.add_assoc m j 1]
    simp only [piece, inverse, coefficientBefore, Nat.add_sub_cancel, if_neg (Nat.succ_ne_zero j),
      C_mul, C_add, C_1, Nat.cast_add, Nat.cast_one]
    ring
  have hnext : ∀ j ∈ Finset.range (k + 1 + 1),
      C (s.coefficient r (k + 1) j) * s.piece q (m + j) =
        C (s.coefficient r k j * inverse j) * s.piece q (m + j) -
          C (s.coefficientBefore r k j * inverse j) * s.piece q (m + j) := by
    intro j hj
    rw [Finset.mem_range] at hj
    by_cases hin : k + 1 ≤ r + j ∧ r + j ≤ s.degree
    · have hhigh : s.span + (r + j - (k + 1)) + 1 = m + j + q + 1 := by omega
      have hlow : s.span + 1 - (q + 1 - (r + j - (k + 1))) = m + j := by omega
      rw [s.coefficient_succ hk (by omega) hin.1 hin.2, knotDifference_eq, hq, hhigh, hlow,
        div_eq_mul_inv, sub_mul, C_sub, sub_mul]
    · have hzero : s.piece q (m + j) = 0 := hq' ▸ s.piece_eq_zero hspan hk (by omega)
      rw [hzero, mul_zero, mul_zero, mul_zero, sub_zero]
  rw [combination, combination, hq, hq', derivative_sum, Finset.sum_congr rfl hstep,
    Finset.sum_congr rfl hnext, ← Finset.mul_sum, Finset.sum_sub_distrib, Finset.sum_sub_distrib,
    Finset.sum_range_succ (n := k + 1), Finset.sum_range_succ' (n := k + 1)]
  rw [s.coefficient_eq_zero (Nat.lt_succ_self k), coefficientBefore, if_pos rfl]
  simp only [zero_mul, C_0, add_zero]

/-- **Derivatives of a piece** are combinations of pieces of lower degree. -/
theorem iterate_derivative_eq {r k : Nat}
    (hknots : KnotsUpTo (knotAt s.knots) (s.span + s.degree + 1)) (hspan : s.degree ≤ s.span)
    (hr : r ≤ s.degree) (hk : k ≤ s.degree) :
    derivative^[k] (s.piece s.degree (s.span - s.degree + r)) =
      C ((s.degree.descFactorial k : Nat) : K) * s.combination r k := by
  induction k with
  | zero =>
    have hone : s.coefficient r 0 0 = 1 := Scalar.one_exact
    rw [Function.iterate_zero_apply, combination, Finset.sum_range_one, hone, Nat.descFactorial_zero,
      Nat.cast_one, C_1, one_mul, one_mul, Nat.sub_zero, Nat.add_zero]
  | succ k ih =>
    rw [Function.iterate_succ_apply', ih (by omega), derivative_C_mul,
      s.derivative_combination hknots hspan hr hk, Nat.descFactorial_succ, Nat.cast_mul, C_mul]
    ring

/-! ## (4) Values and derivatives -/

omit [LinearOrder K] in
/-- The sum over the inner positions is that over all positions between the first and the last. -/
theorem sum_innerRange {p r k : Nat} (g : Nat → K) (hk : k ≤ p)
    (hzero : ∀ j, r + j < k ∨ p < r + j → g j = 0) :
    ((innerRange p r k).map g).sum = ∑ j ∈ Finset.Ico 1 k, g j := by
  have hsum : ((innerRange p r k).map g).sum =
      ∑ j ∈ Finset.Ico (innerFirst r k) (innerLast p r k + 1), g j := rfl
  rw [hsum]
  unfold innerFirst innerLast
  refine Finset.sum_subset (fun j hj => ?_) fun j hj hout => hzero j ?_
  · rw [Finset.mem_Ico] at hj ⊢
    split at hj <;> split at hj <;> omega
  · rw [Finset.mem_Ico] at hj hout
    split at hout <;> split at hout <;> omega

/-- **The sum that a derivative is read from** is the value of the combination of pieces. -/
theorem combineValues_eq {r k : Nat} (hspan : s.degree ≤ s.span) (hr : r ≤ s.degree) (hpos : 1 ≤ k)
    (hk : k ≤ s.degree) :
    combineValues (s.valueRows s.degree) s.degree r k (s.coefficients r k) =
      (s.combination r k).eval s.point := by
  let g (j : Nat) : K :=
    s.coefficient r k j * (s.piece (s.degree - k) (s.span - s.degree + r + j)).eval s.point
  have hzero : ∀ j, r + j < k ∨ s.degree < r + j → g j = 0 := fun j hj => by
    change _ * eval _ (s.piece _ _) = 0
    rw [s.piece_eq_zero hspan hk hj, eval_zero, mul_zero]
  have hterm : ∀ j, k ≤ r + j → r + j ≤ s.degree → (s.coefficients r k).getD j Scalar.zero *
      rowValue (s.valueRows s.degree) (r + j - k) (s.degree - k) = g j := by
    intro j hlow hhigh
    have hindex : s.span - (s.degree - k) + (r + j - k) = s.span - s.degree + r + j := by omega
    rw [s.rowValue_eq (Nat.sub_le _ _) hspan (by omega), hindex]
    rfl
  have hfirst : (if k ≤ r then (s.coefficients r k).getD 0 Scalar.zero *
      rowValue (s.valueRows s.degree) (r - k) (s.degree - k) else Scalar.zero) = g 0 := by
    by_cases h : k ≤ r
    · rw [if_pos h, ← hterm 0 (by omega) (by omega), Nat.add_zero r]
    · rw [if_neg h, hzero 0 (by omega), Scalar.zero_exact]
  have hinner : (innerRange s.degree r k).map (fun j => (s.coefficients r k).getD j Scalar.zero *
      rowValue (s.valueRows s.degree) (r + j - k) (s.degree - k)) =
        (innerRange s.degree r k).map g := by
    refine List.map_congr_left fun j hj => ?_
    rw [innerRange, List.mem_range'_1] at hj
    unfold innerFirst innerLast at hj
    split at hj <;> split at hj <;> exact hterm j (by omega) (by omega)
  have hlast : ∀ x : K, (if r ≤ s.degree - k then x + (s.coefficients r k).getD k Scalar.zero *
      rowValue (s.valueRows s.degree) r (s.degree - k) else x) = x + g k := by
    intro x
    by_cases h : r ≤ s.degree - k
    · rw [if_pos h, ← hterm k (by omega) (by omega), Nat.add_sub_cancel]
    · rw [if_neg h, hzero k (by omega), add_zero]
  have hsum : (s.combination r k).eval s.point = ∑ j ∈ Finset.range (k + 1), g j := by
    rw [combination, eval_finsetSum]
    exact Finset.sum_congr rfl fun j _ => by rw [eval_mul, eval_C]
  have hfold : ∀ (values : List Nat) (f : Nat → K) (x : K),
      values.foldl (fun d j => d + f j) x = x + (values.map f).sum := fun values f x => by
    have hassoc : (values.map f).foldl (· + ·) (x + 0) = x + (values.map f).foldl (· + ·) 0 :=
      List.foldl_assoc
    rw [List.sum_eq_foldl, ← hassoc, add_zero, List.foldl_map]
  rw [combineValues, hfold, hinner, hfirst, hlast, sum_innerRange g hk hzero, hsum, Finset.sum_range_succ,
    Finset.range_eq_Ico, Finset.sum_eq_sum_Ico_succ_bot (a := 0) hpos]

/-- The derivatives of one function are the sums of all orders. -/
theorem derivativesFrom_eq (rows : Array (Array K)) (r count k : Nat) :
    derivativesFrom s rows r count (k + 1) (s.coefficients r k) =
      (List.range' (k + 1) count).map fun m => combineValues rows s.degree r m (s.coefficients r m) := by
  induction count generalizing k with
  | zero => rfl
  | succ count ih =>
    rw [List.range'_succ, List.map_cons, ← ih (k + 1)]
    rfl

/-- The factors of the derivatives are falling factorials of the degree. -/
theorem derivativeFactors_eq (p count k : Nat) :
    derivativeFactors p count k ((p.descFactorial k : Nat) : K) =
      (List.range' k count).map fun m => ((p.descFactorial m : Nat) : K) := by
  induction count generalizing k with
  | zero => rfl
  | succ count ih =>
    rw [derivativeFactors, List.range'_succ, List.map_cons, ← ih (k + 1), Scalar.ofNat_exact, ← Nat.cast_mul,
      Nat.mul_comm, ← Nat.descFactorial_succ]

/-- The value of a function on a span, and the sums that its derivatives are read from, with their factors. -/
theorem getD_spanDerivatives_eq_sums (orders : Nat) {r : Nat} (hr : r ≤ s.degree) :
    (spanDerivatives s orders).getD r #[] = (rowValue (s.valueRows s.degree) r s.degree ::
      (List.range' 1 orders).map fun k =>
        combineValues (s.valueRows s.degree) s.degree r k (s.coefficients r k) *
          ((s.degree.descFactorial k : Nat) : K)).toArray := by
  have hin : r < s.degree + 1 := by omega
  have hraw : derivativesFrom s (s.valueRows s.degree) r orders 1 #[Scalar.one] =
      (List.range' 1 orders).map fun k =>
        combineValues (s.valueRows s.degree) s.degree r k (s.coefficients r k) :=
    s.derivativesFrom_eq _ r orders 0
  have hfactors : (derivativeFactors s.degree orders 1 (Scalar.ofNat s.degree) : List K) =
      (List.range' 1 orders).map fun k => ((s.degree.descFactorial k : Nat) : K) := by
    rw [← derivativeFactors_eq, Nat.descFactorial_one, Scalar.ofNat_exact]
  rw [spanDerivatives, Array.getD_eq_getD_getElem?, Array.getElem?_map, Array.getElem?_range, if_pos hin,
    Option.map_some, Option.getD_some, hraw, hfactors]
  simp only [List.zipWith_map, List.zipWith_self]

/-- **Values and derivatives of a function on a span** are those of its piece. -/
theorem getD_spanDerivatives {orders r : Nat}
    (hknots : KnotsUpTo (knotAt s.knots) (s.span + s.degree + 1)) (hspan : s.degree ≤ s.span)
    (horders : orders ≤ s.degree) (hr : r ≤ s.degree) :
    (spanDerivatives s orders).getD r #[] = ((List.range' 0 (orders + 1)).map fun k =>
      (derivative^[k] (s.piece s.degree (s.span - s.degree + r))).eval s.point).toArray := by
  have hvalue : rowValue (s.valueRows s.degree) r s.degree =
      (derivative^[0] (s.piece s.degree (s.span - s.degree + r))).eval s.point := by
    rw [s.rowValue_eq le_rfl hspan hr, Function.iterate_zero_apply]
  have hderivative : ∀ k ∈ List.range' 1 orders,
      combineValues (s.valueRows s.degree) s.degree r k (s.coefficients r k) *
          ((s.degree.descFactorial k : Nat) : K) =
        (derivative^[k] (s.piece s.degree (s.span - s.degree + r))).eval s.point := by
    intro k hk
    rw [List.mem_range'_1] at hk
    rw [s.combineValues_eq hspan hr hk.1 (by omega), s.iterate_derivative_eq hknots hspan hr (by omega),
      eval_mul, eval_C, mul_comm]
  rw [s.getD_spanDerivatives_eq_sums orders hr, List.range'_succ, List.map_cons, hvalue,
    List.map_congr_left hderivative]

end SpanPoint

end Galerkin
