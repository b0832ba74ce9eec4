import Galerkin.Proofs.Basis.Recurrence
import Galerkin.Proofs.Basis.Span
import Galerkin.Proofs.Kernel.Entries

/-! # Derivatives at a point

On the span of a point every basis function is a polynomial. The recurrence gives the derivatives of these
polynomials.

* **`KnotVector.jetAt_get_eq`** — the derivatives of all functions at a point;
* **`doubleKnots`** — an example with a double knot. -/

open Polynomial

namespace Galerkin

variable {K : Type} [Field K] [LinearOrder K]

namespace KnotVector

variable (kv : KnotVector K)

/-- The knots do not decrease. -/
theorem knotsUpTo : KnotsUpTo kv.knot (kv.dofs + kv.degree) := fun _ _ hij hj => kv.knot_mono hij hj

/-- **The derivatives of all functions at a point** are those of their pieces on the span of the point. -/
theorem jetAt_get_eq (m : Nat) (u : K) {f k : Nat} (hk : k ≤ m) : (kv.jetAt m u).get f k =
    (derivative^[k] (splinePiece kv.knot (kv.findSpan u) kv.degree f)).eval u := by
  have hfirst := (kv.isSpanFor_findSpan u).degree_le
  have hlast := (kv.isSpanFor_findSpan u).lt_dofs
  -- A jet holds the functions that reach over the span; the pieces of the others vanish there.
  by_cases hout : f < kv.findSpan u - kv.degree ∨ kv.findSpan u < f
  · rw [kv.jetAt_get_eq_zero hout, Scalar.zero_exact, splinePiece_eq_zero (by omega), iterate_derivative_zero,
      eval_zero]
  · let s : SpanPoint K := ⟨kv.knots, kv.degree, kv.findSpan u, u⟩
    have hdegree : s.degree = kv.degree := rfl
    have hspan : s.span = kv.findSpan u := rfl
    have hget : (kv.jetAt m u).get f k =
        ((spanDerivatives s (min m kv.degree)).getD (f - (kv.findSpan u - kv.degree)) #[]).getD k 0 := by
      have hlisted : ¬ f < (kv.jetAt m u).first := fun hlt => hout (.inl hlt)
      rw [Jet.get, if_neg hlisted, Scalar.zero_exact]
      rfl
    have hknots : KnotsUpTo (knotAt s.knots) (s.span + s.degree + 1) := fun i j hij hj =>
      kv.knotsUpTo i j hij (by omega)
    have hindex : s.span - s.degree + (f - (kv.findSpan u - kv.degree)) = f := by omega
    have hpiece : s.piece s.degree f = splinePiece kv.knot (kv.findSpan u) kv.degree f := rfl
    have hpoint : s.point = u := rfl
    rw [hget, s.getD_spanDerivatives hknots hfirst (Nat.min_le_right _ _) (by omega), hindex, hpiece, hpoint,
      Array.getD_eq_getD_getElem?, List.getElem?_toArray, List.getElem?_map]
    rcases Nat.lt_or_ge kv.degree k with hgt | hle
    · -- The order is larger than the degree: nothing is listed, and the polynomial vanishes.
      rw [List.getElem?_eq_none (by rw [List.length_range']; omega),
        iterate_derivative_eq_zero (natDegree_splinePiece_le.trans_lt hgt), eval_zero]
      rfl
    · rw [List.getElem?_range' (by omega), Option.map_some, Option.getD_some, Nat.zero_add, Nat.one_mul]

end KnotVector

/-- Quadratic functions on two elements, with a double knot between them. -/
def doubleKnots : KnotVector ℚ := ⟨2, #[0, 0, 0, 1, 1, 2, 2, 2], by decide +kernel⟩

end Galerkin
