import Galerkin.Proofs.Basis.Span
import Galerkin.Proofs.Basis.Supports
import Galerkin.Proofs.Exact
import Galerkin.Proofs.Steps
import Mathlib.Algebra.Order.Field.Rat
import Mathlib.Order.Interval.Finset.Nat

/-! # Active functions

At a point of an element the span search finds the one knot interval of positive length that is the element.
The functions that reach over it are those with the element in their support, one more than the degree, and
all others have derivatives zero. Elements come from the distinct knots of the domain, spans from a search
among all knots; nothing but the order of the scalars is used.

* **`KnotVector.evaluateDerivatives_eq_ok_iff`** — the lists of points that have a table;
* **`KnotVector.IsPointOf`**, **`KnotVector.Holds`** — the points of an element, and those beyond the domain;
* **`KnotVector.findSpan_encloses`** — the span of a point encloses its element;
* **`KnotVector.contains_iff_active`** — the functions over an element;
* **`KnotVector.meshSupport_exact`** — the supports of the mesh are the active functions. -/

namespace Galerkin

namespace KnotVector

variable {α : Type} [Scalar α] (kv : KnotVector α)

/-! ## (1) Tables -/

/-- **The points that a table accepts:** those of the domain, up to the tolerance. -/
def Accepts (u : α) : Prop :=
  Scalar.le (kv.lower - kv.tolerance) u = true ∧ Scalar.le u (kv.upper + kv.tolerance) = true

/-- **The lists of points that have a table** are those of accepted points, for orders that are not
negative. -/
theorem evaluateDerivatives_eq_ok_iff [ScalarText α] {points : List α} {maxDeriv : Int} {text : α → String}
    {table : DerivativeTable α} : kv.evaluateDerivatives points maxDeriv text = .ok table ↔
      (0 ≤ maxDeriv ∧ ∀ u ∈ points, kv.Accepts u) ∧ table =
        ⟨kv.dofs, points.length, maxDeriv.toNat, (points.map (kv.jetAt maxDeriv.toNat)).toArray⟩ := by
  have hpoint : ∀ u jet, (do
      require (Scalar.le (kv.lower - kv.tolerance) u && Scalar.le u (kv.upper + kv.tolerance))
        (.knot (.outsideDomain (text u)))
      pure (kv.jetAt maxDeriv.toNat u)) = Except.ok jet ↔ kv.Accepts u ∧ kv.jetAt maxDeriv.toNat u = jet := by
    intro u jet
    rw [require_bind_eq_ok_iff, Bool.and_eq_true]
    exact and_congr_right fun _ => ⟨Except.ok.inj, congrArg _⟩
  have hjets : ∀ jets,
      List.Forall₂ (fun u jet => kv.Accepts u ∧ kv.jetAt maxDeriv.toNat u = jet) points jets ↔
      (∀ u ∈ points, kv.Accepts u) ∧ points.map (kv.jetAt maxDeriv.toNat) = jets := by
    intro jets
    rw [List.forall₂_and_left, ← List.forall₂_eq_eq_eq, List.forall₂_map_left_iff]
  unfold evaluateDerivatives
  rw [require_bind_eq_ok_iff, decide_eq_true_iff, and_assoc]
  refine and_congr_right fun _ => ?_
  rw [bind_eq_ok_iff]
  simp only [mapM_eq_ok_iff, hpoint, hjets]
  constructor
  · rintro ⟨jets, ⟨haccepts, rfl⟩, h⟩
    exact ⟨haccepts, (Except.ok.inj h).symm⟩
  · rintro ⟨haccepts, rfl⟩
    exact ⟨_, ⟨haccepts, rfl⟩, rfl⟩

variable {kv} in
/-- What a table of derivatives holds. -/
theorem evaluateDerivatives_eq_ok [ScalarText α] {points : List α} {maxDeriv : Int} {text : α → String}
    {table : DerivativeTable α} (h : kv.evaluateDerivatives points maxDeriv text = .ok table) :
    table = ⟨kv.dofs, points.length, maxDeriv.toNat, (points.map (kv.jetAt maxDeriv.toNat)).toArray⟩ :=
  (kv.evaluateDerivatives_eq_ok_iff.mp h).2

variable {kv} in
/-- **A table holds the derivatives at its points.** -/
theorem evaluateDerivatives_get [ScalarText α] {points : List α} {maxDeriv : Int} {text : α → String}
    {table : DerivativeTable α} (h : kv.evaluateDerivatives points maxDeriv text = .ok table) {q : Nat}
    {u : α} (hq : points[q]? = some u) (f k : Nat) :
    table.get f q k = (kv.jetAt maxDeriv.toNat u).get f k := by
  obtain rfl := evaluateDerivatives_eq_ok h
  simp only [DerivativeTable.get, List.getElem?_toArray, List.getElem?_map, hq, Option.map_some]

/-! ## (2) Points of elements -/

/-- **A point of an element:** from the start of the element to before its end. The upper end of the domain
is a point of the last element. -/
def IsPointOf [LinearOrder α] (u : α) (e : Nat) : Prop :=
  (knotAt kv.mesh e ≤ u ∧ u < knotAt kv.mesh (e + 1)) ∨ (u = kv.upper ∧ e + 1 = kv.elements)

/-- **The points that an element holds:** those from its start to before its end. The first element also holds
the points before the domain, and the last one the upper end of the domain and the points behind it. -/
structure Holds [LinearOrder α] (u : α) (e : Nat) : Prop where
  start_le : e = 0 ∨ knotAt kv.mesh e ≤ u
  lt_end : u < knotAt kv.mesh (e + 1) ∨ e + 1 = kv.elements

variable [LinearOrder α] [OrderedScalar α] {e f : Nat} {u : α}

/-- The start of an element is a point of it. -/
theorem isPointOf_start (he : e < kv.elements) : kv.IsPointOf (knotAt kv.mesh e) e := by
  have hsize := kv.size_mesh
  exact .inl ⟨le_refl _, kv.mesh_lt (Nat.lt_succ_self e) (by omega)⟩

/-- **The span of a point encloses the element** of the point. -/
theorem findSpan_encloses (he : e < kv.elements) (hu : kv.IsPointOf u e) :
    kv.knot (kv.findSpan u) ≤ knotAt kv.mesh e ∧
      knotAt kv.mesh (e + 1) ≤ kv.knot (kv.findSpan u + 1) := by
  have hsize := kv.size_mesh
  have hspan := kv.isSpanFor_findSpan u
  have hlast := hspan.lt_dofs
  have hfirst := hspan.degree_le
  -- Both ends of the span are knots of the domain, and so points of the mesh.
  obtain ⟨c, hc, hcs⟩ := kv.exists_mesh_eq hfirst (by omega)
  obtain ⟨d, hd, hds⟩ := kv.exists_mesh_eq (i := kv.findSpan u + 1) (by omega) (by omega)
  have hends : c ≤ e ∧ e + 1 ≤ d := by
    rcases hu with ⟨hlow, hhigh⟩ | ⟨rfl, hlastElement⟩
    · have hlower : kv.knot kv.degree ≤ u :=
        (kv.lower_eq ▸ kv.mesh_le (Nat.zero_le e) (by omega) : _ ≤ knotAt kv.mesh e).trans hlow
      have hupper : u < kv.knot kv.dofs :=
        hhigh.trans_le (kv.upper_eq ▸ kv.mesh_le (by omega) (by omega) : _ ≤ kv.knot kv.dofs)
      constructor
      · by_contra hgt
        have hstart := hcs ▸ hspan.start_le hlower
        exact absurd ((kv.mesh_le (by omega) hc).trans hstart) (not_le.mpr hhigh)
      · by_contra hgt
        have hend := hds ▸ hspan.lt_end hupper
        exact absurd (hend.trans_le (kv.mesh_le (by omega) (by omega))) (not_lt.mpr hlow)
    · have hproper := hspan.proper
      rw [← hcs, ← hds] at hproper
      have hcd : c < d := by
        by_contra hge
        exact absurd hproper (not_lt.mpr (kv.mesh_le (not_lt.mp hge) hc))
      have hend := hds ▸ hspan.le_end kv.upper_eq.le
      have hde : kv.elements ≤ d := by
        by_contra hlt
        exact absurd hend (not_le.mpr (kv.mesh_lt (not_le.mp hlt) (by omega)))
      omega
  rw [← hcs, ← hds]
  exact ⟨kv.mesh_le hends.1 (by omega), kv.mesh_le hends.2 hd⟩

/-- **A function has an element in its support exactly if it is active at a point of the element:** it
reaches over the span of the point. -/
theorem contains_iff_active (he : e < kv.elements) (hu : kv.IsPointOf u e) (hf : f < kv.dofs) :
    (kv.supportOf f).contains e = true ↔ kv.findSpan u - kv.degree ≤ f ∧ f ≤ kv.findSpan u := by
  have hsize := kv.size_mesh
  have hspan := kv.isSpanFor_findSpan u
  have hlast := hspan.lt_dofs
  obtain ⟨hstart, hend⟩ := kv.findSpan_encloses he hu
  have helement : knotAt kv.mesh e < knotAt kv.mesh (e + 1) := kv.mesh_lt (Nat.lt_succ_self e) (by omega)
  rw [kv.contains_supportOf hf he]
  constructor
  · rintro ⟨hfirst, hbehind⟩
    constructor
    · -- A function that ends before the span ends before the element.
      by_contra hlt
      have hover := kv.knot_mono (i := f + kv.degree + 1) (j := kv.findSpan u) (by omega) (by omega)
      exact absurd (hover.trans hstart) (not_le.mpr hbehind)
    · by_contra hlt
      have hover := kv.knot_mono (i := kv.findSpan u + 1) (j := f) (by omega) (by omega)
      exact absurd ((hend.trans hover).trans hfirst) (not_le.mpr helement)
  · rintro ⟨hlow, hhigh⟩
    have hover := kv.knot_mono (i := kv.findSpan u + 1) (j := f + kv.degree + 1) (by omega) (by omega)
    exact ⟨(kv.knot_mono hhigh (by omega)).trans hstart, helement.trans_le (hend.trans hover)⟩

/-- **Every element lies under as many functions** as the degree says, and one more. -/
theorem card_contains (he : e < kv.elements) :
    ((Finset.range kv.dofs).filter fun f => (kv.supportOf f).contains e = true).card = kv.degree + 1 := by
  have hpoint := kv.isPointOf_start he
  have hspan := kv.isSpanFor_findSpan (knotAt kv.mesh e)
  have hfirst := hspan.degree_le
  have hlast := hspan.lt_dofs
  have hactive : (Finset.range kv.dofs).filter (fun f => (kv.supportOf f).contains e = true) =
      Finset.Icc (kv.findSpan (knotAt kv.mesh e) - kv.degree) (kv.findSpan (knotAt kv.mesh e)) := by
    ext f
    rw [Finset.mem_filter, Finset.mem_range, Finset.mem_Icc]
    constructor
    · rintro ⟨hf, hin⟩
      exact (kv.contains_iff_active he hpoint hf).mp hin
    · rintro ⟨hlow, hhigh⟩
      have hf : f < kv.dofs := by omega
      exact ⟨hf, (kv.contains_iff_active he hpoint hf).mpr ⟨hlow, hhigh⟩⟩
  rw [hactive, Nat.card_Icc]
  omega

/-! ## (3) Points that an element holds -/

variable {kv}

/-- An element holds its points. -/
theorem IsPointOf.holds (h : kv.IsPointOf u e) : kv.Holds u e := by
  have hsize := kv.size_mesh
  rcases h with ⟨hlow, hhigh⟩ | ⟨rfl, hlast⟩
  · exact ⟨.inr hlow, .inl hhigh⟩
  · exact ⟨.inr (kv.mesh_le (by omega) (by omega)), .inr hlast⟩

/-- The points before the domain have the span of its lower end. -/
theorem findSpan_of_le_lower (h : u ≤ kv.lower) : kv.findSpan u = kv.findSpan kv.lower := by
  rw [lower_eq] at h ⊢
  have hupper : ∀ v ≤ kv.knot kv.degree, ¬ kv.knot kv.dofs ≤ v := fun v hv =>
    not_le.mpr (hv.trans_lt kv.domain_lt)
  simp only [findSpan, OrderedScalar.le_eq, decide_eq_true_iff, if_neg (hupper _ h),
    if_neg (hupper _ (le_refl _)), if_pos h, if_pos (le_refl _)]

/-- The points behind the domain have the span of its upper end. -/
theorem findSpan_of_upper_le (h : kv.upper ≤ u) : kv.findSpan u = kv.findSpan kv.upper := by
  rw [upper_eq] at h ⊢
  simp only [findSpan, OrderedScalar.le_eq, decide_eq_true_iff, if_pos h, if_pos (le_refl _)]

/-- **What an element holds has the span of one of its points,** an end of the domain if it lies outside. -/
theorem Holds.exists_isPointOf (h : kv.Holds u e) (he : e < kv.elements) :
    ∃ c, kv.IsPointOf c e ∧ kv.findSpan u = kv.findSpan c := by
  have hsize := kv.size_mesh
  obtain ⟨hstart, hend⟩ := h
  by_cases hlower : u < kv.lower
  · have hfirst : e = 0 := by
      refine hstart.resolve_right fun hle => ?_
      have hbefore : kv.lower ≤ knotAt kv.mesh e := kv.mesh_le (Nat.zero_le e) (by omega)
      exact absurd hlower (not_lt.mpr (hbefore.trans hle))
    subst hfirst
    exact ⟨kv.lower, kv.isPointOf_start he, findSpan_of_le_lower hlower.le⟩
  · by_cases hupper : kv.upper ≤ u
    · refine ⟨kv.upper, .inr ⟨rfl, hend.resolve_left fun hlt => ?_⟩, findSpan_of_upper_le hupper⟩
      have hbehind : knotAt kv.mesh (e + 1) ≤ kv.upper := kv.mesh_le he (by omega)
      exact absurd hlt (not_lt.mpr (hbehind.trans hupper))
    · refine ⟨u, .inl ⟨?_, ?_⟩, rfl⟩
      · rcases hstart with rfl | hle
        · exact not_lt.mp hlower
        · exact hle
      · rcases hend with hlt | hlast
        · exact hlt
        · rw [hlast]
          exact not_le.mp hupper

/-- **A function vanishes at all that an element holds,** if it does not have the element in its support. -/
theorem Holds.jetAt_get (h : kv.Holds u e) (he : e < kv.elements) (hf : f < kv.dofs)
    (hout : (kv.supportOf f).contains e = false) (m k : Nat) : (kv.jetAt m u).get f k = Scalar.zero := by
  obtain ⟨c, hc, hspan⟩ := h.exists_isPointOf he
  have hinactive := mt (kv.contains_iff_active he hc hf).mpr (by rw [hout]; decide)
  refine kv.jetAt_get_eq_zero ?_ m k
  rw [hspan]
  omega

/-! ## (4) Supports -/

variable (kv)

/-- **A function vanishes at the points of every element that is not in its support.** -/
theorem jetAt_get_of_not_contains (he : e < kv.elements) (hu : kv.IsPointOf u e) (hf : f < kv.dofs)
    (hout : (kv.supportOf f).contains e = false) (m k : Nat) : (kv.jetAt m u).get f k = Scalar.zero :=
  hu.holds.jetAt_get he hf hout m k

/-- **Mesh supports are exactly the active functions.** Over every element, and at every point of it, the
functions with the element in their support are those that reach over the span of the point; there is one
more of them than the degree says. So in the table of any accepted points a function has zeros of every
order at the points of the elements that are not in its support. Supports do not decrease in either end,
and end with the mesh at the latest. -/
theorem meshSupport_exact [ScalarText α] :
    (∀ e < kv.elements, ∀ u, kv.IsPointOf u e →
      kv.degree ≤ kv.findSpan u ∧ kv.findSpan u < kv.dofs ∧
        ∀ f < kv.dofs, (kv.supportOf f).contains e = true ↔
          kv.findSpan u - kv.degree ≤ f ∧ f ≤ kv.findSpan u) ∧
    (∀ (points : List α) (maxDeriv : Int) (text : α → String), 0 ≤ maxDeriv →
      (∀ u ∈ points, kv.Accepts u) →
      ∃ table, kv.evaluateDerivatives points maxDeriv text = .ok table ∧
        ∀ q u, points[q]? = some u → ∀ e < kv.elements, kv.IsPointOf u e →
          ∀ f < kv.dofs, (kv.supportOf f).contains e = false → ∀ k, table.get f q k = Scalar.zero) ∧
    (∀ e < kv.elements,
      ((Finset.range kv.dofs).filter fun f => (kv.supportOf f).contains e = true).card = kv.degree + 1) ∧
    (∀ f g, f ≤ g → g < kv.dofs → (kv.supportOf f).first ≤ (kv.supportOf g).first ∧
      (kv.supportOf f).last ≤ (kv.supportOf g).last) ∧
    ∀ f < kv.dofs, (kv.supportOf f).last ≤ kv.elements := by
  refine ⟨fun e he u hu => ?_, fun points maxDeriv text hnonneg haccepts => ?_, fun e he => ?_,
    fun f g hfg hg => ?_, fun f hf => (kv.supportOf_le hf).2⟩
  · have hspan := kv.isSpanFor_findSpan u
    exact ⟨hspan.degree_le, hspan.lt_dofs, fun f hf => kv.contains_iff_active he hu hf⟩
  · obtain ⟨table, htable⟩ : ∃ table, kv.evaluateDerivatives points maxDeriv text = .ok table :=
      ⟨_, kv.evaluateDerivatives_eq_ok_iff.mpr ⟨⟨hnonneg, haccepts⟩, rfl⟩⟩
    refine ⟨table, htable, fun q u hq e he hu f hf hout k => ?_⟩
    rw [evaluateDerivatives_get htable hq]
    exact kv.jetAt_get_of_not_contains he hu hf hout _ k
  · exact kv.card_contains he
  · have hsize := kv.size_meshSupport
    exact ⟨kv.sortedSupports.first_mono f g hfg (by omega), kv.sortedSupports.last_mono f g hfg (by omega)⟩

end KnotVector

/-- Linear functions on two elements with a double knot between them, over knots that go beyond the domain
at both ends. -/
def overhangingKnots : KnotVector ℚ := ⟨1, #[-1, 0, 1, 1, 2, 3], by decide +kernel⟩

/-- The second element lies under the last two of the four functions: at the double knot, where it starts, and
at the upper end of the domain the first two have derivatives zero. -/
theorem meshSupport_exact_overhangingKnots :
    overhangingKnots.mesh = #[0, 1, 2] ∧ overhangingKnots.dofs = 4 ∧ overhangingKnots.findSpan 1 = 3 ∧
      overhangingKnots.IsPointOf 1 1 ∧ overhangingKnots.IsPointOf 2 1 ∧
      (∀ f < 4, (overhangingKnots.supportOf f).contains 1 = true ↔ 2 ≤ f ∧ f ≤ 3) ∧
      ∃ table, overhangingKnots.evaluateDerivatives [1, 2] 1 = .ok table ∧
        ∀ f < 2, ∀ k, table.get f 0 k = 0 ∧ table.get f 1 k = 0 := by
  have hmesh : overhangingKnots.mesh = #[0, 1, 2] := by decide +kernel
  have hdofs : overhangingKnots.dofs = 4 := rfl
  have hspan : overhangingKnots.findSpan 1 = 3 := by decide +kernel
  have helements : 1 < overhangingKnots.elements := by decide +kernel
  have hstart : overhangingKnots.IsPointOf 1 1 := by
    refine .inl ?_
    rw [hmesh]
    decide +kernel
  have hend : overhangingKnots.IsPointOf 2 1 := .inr (by decide +kernel)
  obtain ⟨hactive, htables, -⟩ := overhangingKnots.meshSupport_exact
  have hcontains := (hactive 1 helements 1 hstart).2.2
  rw [hspan] at hcontains
  have haccepts : ∀ u ∈ [1, 2], overhangingKnots.Accepts u := by
    unfold KnotVector.Accepts
    decide +kernel
  obtain ⟨table, htable, hzero⟩ := htables [1, 2] 1 ScalarText.places (by decide) haccepts
  refine ⟨hmesh, hdofs, hspan, hstart, hend, hcontains, table, htable, fun f hf k => ?_⟩
  have hf' : f < overhangingKnots.dofs := hdofs ▸ (by omega)
  have hout : (overhangingKnots.supportOf f).contains 1 = false := by
    rw [← Bool.not_eq_true, hcontains f hf']
    have hdegree : overhangingKnots.degree = 1 := rfl
    omega
  exact ⟨hzero 0 1 rfl 1 helements hstart f hf' hout k, hzero 1 2 rfl 1 helements hend f hf' hout k⟩

end Galerkin
