import Galerkin.Proofs.Basis.Workspace

/-! # Tables of derivatives

A table holds, for each point, the derivatives of the polynomials that the functions are on the span of the
point. They are computed span by span, in tables that are filled in place: column `r` is that of the
function that starts `r` knots behind the first one over the span.

* **`KnotVector.exists_derivatives?_jetAt`** — the computation on the span of a point, with all its steps
  checked;
* **`KnotVector.evaluateDerivatives_exact`** — the tables. -/

open Polynomial

namespace Galerkin

namespace KnotVector

variable {K : Type} [Field K] [LinearOrder K] (kv : KnotVector K)

/-- **The derivatives at a point are computed in place:** on the span of the point no step of the
computation leaves its tables or divides by zero, and row `k` holds the derivatives of order `k` of the
functions over the span, in their order. -/
theorem exists_derivatives?_jetAt (m : Nat) (u : K) :
    ∃ ders, SpanPoint.derivatives? ⟨kv.knots, kv.degree, kv.findSpan u, u⟩ (min m kv.degree) = some ders ∧
      ∀ k r : Nat, k ≤ min m kv.degree → r ≤ kv.degree →
        ders.get? k r = some ((kv.jetAt m u).get (kv.findSpan u - kv.degree + r) k) := by
  obtain ⟨ders, hders, hentries⟩ :=
    SpanPoint.derivatives?_yields (kv.usable_findSpan u) (Nat.min_le_right m kv.degree)
  refine ⟨ders, hders, fun k r hk hr => ?_⟩
  have hread := SpanPoint.getElem?_spanDerivatives ⟨kv.knots, kv.degree, kv.findSpan u, u⟩ hr hk
  have hjet : (kv.jetAt m u).get (kv.findSpan u - kv.degree + r) k =
      ((spanDerivatives ⟨kv.knots, kv.degree, kv.findSpan u, u⟩ (min m kv.degree)).getD r #[]).getD k
        Scalar.zero := by
    have hlisted : ¬ kv.findSpan u - kv.degree + r < (kv.jetAt m u).first :=
      Nat.not_lt.mpr (Nat.le_add_right (kv.findSpan u - kv.degree) r)
    have hplace : kv.findSpan u - kv.degree + r - (kv.jetAt m u).first = r := Nat.add_sub_cancel_left _ r
    rw [Jet.get, if_neg hlisted, hplace]
    rfl
  rw [hentries k r hk hr, hread, hjet, Array.getD_eq_getD_getElem?, hread, Option.getD_some]

/-- **Tables of derivatives are exact:** at points of the domain there is a table, and its entry for a
function, a point and an order is that derivative of the polynomial that the function is on the span of the
point. The entries up to the degree are those that are computed in place on this span, and no step of the
computation leaves its tables or divides by zero. -/
theorem evaluateDerivatives_exact [IsStrictOrderedRing K] [ScalarText K] {points : List K}
    (hpoints : ∀ u ∈ points, kv.lower ≤ u ∧ u ≤ kv.upper) (m : Nat) (text : K → String) :
    ∃ table, kv.evaluateDerivatives points m text = .ok table ∧
      table.functions = kv.dofs ∧ table.points = points.length ∧ table.maxDeriv = m ∧
      (∀ f < kv.dofs, ∀ q u, points[q]? = some u →
        (kv.knot (kv.findSpan u) ≤ u ∧ u ≤ kv.knot (kv.findSpan u + 1) ∧
          (u < kv.upper → u < kv.knot (kv.findSpan u + 1)) ∧
          kv.knot (kv.findSpan u) < kv.knot (kv.findSpan u + 1) ∧
          ∀ x, kv.knot (kv.findSpan u) ≤ x → x < kv.knot (kv.findSpan u + 1) →
            (splinePiece kv.knot (kv.findSpan u) kv.degree f).eval x = bspline kv.knot kv.degree f x) ∧
        ∀ k ≤ m, table.get f q k =
            (derivative^[k] (splinePiece kv.knot (kv.findSpan u) kv.degree f)).eval u ∧
          (kv.degree < k → table.get f q k = 0)) ∧
      ∀ q u, points[q]? = some u → ∃ ders,
        SpanPoint.derivatives? ⟨kv.knots, kv.degree, kv.findSpan u, u⟩ (min m kv.degree) = some ders ∧
          ∀ k r : Nat, k ≤ min m kv.degree → r ≤ kv.degree →
            ders.get? k r = some (table.get (kv.findSpan u - kv.degree + r) q k) := by
  obtain ⟨table, htable⟩ := kv.exists_evaluateDerivatives hpoints m text
  have hget : ∀ {q u}, points[q]? = some u → ∀ f k, table.get f q k = (kv.jetAt m u).get f k := fun hu f k =>
    evaluateDerivatives_get htable hu f k
  have hholds := evaluateDerivatives_eq_ok htable
  refine ⟨table, htable, by rw [hholds], by rw [hholds], by rw [hholds, Int.toNat_natCast],
    fun f hf q u hu => ⟨?piece, fun k hk => ?derivative⟩, fun q u hu => ?inPlace⟩
  case piece =>
    obtain ⟨hlow, hhigh⟩ := hpoints u (List.mem_of_getElem? hu)
    have hspan := kv.isSpanFor_findSpan u
    have hlast := hspan.lt_dofs
    rw [kv.lower_eq] at hlow
    rw [kv.upper_eq] at hhigh ⊢
    exact ⟨hspan.start_le hlow, hspan.le_end hhigh, hspan.lt_end, hspan.proper, fun x hx hx' =>
      eval_splinePiece kv.knotsUpTo (by omega) (by omega) hx hx'⟩
  case derivative =>
    have hexact : table.get f q k =
        (derivative^[k] (splinePiece kv.knot (kv.findSpan u) kv.degree f)).eval u :=
      (hget hu f k).trans (kv.jetAt_get_eq m u hk)
    refine ⟨hexact, fun hgt => ?_⟩
    rw [hexact, iterate_derivative_eq_zero (natDegree_splinePiece_le.trans_lt hgt), eval_zero]
  case inPlace =>
    obtain ⟨ders, hders, hentries⟩ := kv.exists_derivatives?_jetAt m u
    exact ⟨ders, hders, fun k r hk hr => (hentries k r hk hr).trans (congrArg some (hget hu _ k).symm)⟩

end KnotVector

/-- The table of quadratic functions at the ends of the domain, at their double knot and inside an element,
and what is computed in place at the double knot. -/
theorem evaluateDerivatives_exact_doubleKnots :
    (∀ u ∈ [0, 1, 3 / 2, 2], doubleKnots.lower ≤ u ∧ u ≤ doubleKnots.upper) ∧
      ∃ table, doubleKnots.evaluateDerivatives [0, 1, 3 / 2, 2] 3 = .ok table ∧ table.functions = 5 ∧
        (∀ f < 5, ∀ k ≤ 3, table.get f 1 k = (derivative^[k] (splinePiece doubleKnots.knot 4 2 f)).eval 1 ∧
          table.get f 3 k = (derivative^[k] (splinePiece doubleKnots.knot 4 2 f)).eval 2) ∧
        ∃ ders, SpanPoint.derivatives? ⟨doubleKnots.knots, doubleKnots.degree, 4, 1⟩ 2 = some ders ∧
          ∀ k r : Nat, k ≤ 2 → r ≤ 2 → ders.get? k r = some (table.get (2 + r) 1 k) := by
  have hpoints : ∀ u ∈ [0, 1, 3 / 2, 2], doubleKnots.lower ≤ u ∧ u ≤ doubleKnots.upper := by
    decide +kernel
  have hmiddle : doubleKnots.findSpan 1 = 4 := by decide +kernel
  have hend : doubleKnots.findSpan 2 = 4 := by decide +kernel
  have hdofs : doubleKnots.dofs = 5 := rfl
  obtain ⟨table, htable, hfunctions, -, -, hvalues, hplaces⟩ :=
    doubleKnots.evaluateDerivatives_exact hpoints 3 ScalarText.places
  obtain ⟨ders, hders, hentries⟩ := hplaces 1 1 rfl
  rw [hmiddle] at hders hentries
  refine ⟨hpoints, table, htable, hfunctions.trans hdofs, fun f hf k hk => ⟨?_, ?_⟩, ders, hders, hentries⟩
  · have h := ((hvalues f (hf.trans_eq hdofs.symm) 1 1 rfl).2 k hk).1
    rwa [hmiddle] at h
  · have h := ((hvalues f (hf.trans_eq hdofs.symm) 3 2 rfl).2 k hk).1
    rwa [hend] at h

end Galerkin
