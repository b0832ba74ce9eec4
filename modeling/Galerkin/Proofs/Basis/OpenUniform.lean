import Galerkin.Proofs.Assembly.Coupling
import Mathlib.Algebra.Order.Field.Basic
import Mathlib.Tactic.FieldSimp
import Mathlib.Tactic.GCongr

/-! # Open uniform knot vectors

Knots are the break points of equal elements, with both end points repeated as often as the degree says. So
every knot is a break point, the one whose number is the number of the knot less the degree, cut off at both
ends; and what is asked of knots is asked of these numbers.

* **`KnotVector.checkKnots_ok`** — conditions under which knots are accepted;
* **`KnotVector.knotAt_openKnots`** — the break point at a knot;
* **`KnotVector.IsOpenUniform`** — open uniform knot vectors, their mesh and their supports;
* **`KnotVector.openUniform_exact`** — the knot vector that is made, and which of its functions couple. -/

namespace Galerkin.KnotVector

/-! ## (1) Accepted knots -/

section Accepted

variable {α : Type} [Scalar α] [LinearOrder α] [OrderedScalar α]

/-- **Knots that satisfy every condition are accepted.** -/
theorem checkKnots_ok {degree : Nat} {knots : Array α} (hsize : degree + 2 ≤ knots.size)
    (hmono : ∀ i < knots.size - 1, knotAt knots i ≤ knotAt knots (i + 1))
    (hdomain : knotAt knots degree < knotAt knots (knots.size - degree - 1))
    (hfunctions : ∀ i < knots.size - degree - 1, knotAt knots i < knotAt knots (i + degree + 1)) :
    checkKnots degree knots = .ok () := by
  have hsorted : nonDecreasing knots = true := by
    refine List.all_eq_true.mpr fun i hi => ?_
    rw [OrderedScalar.lt_eq, Bool.not_eq_true', decide_eq_false_iff_not, not_lt]
    exact hmono i (List.mem_range.mp hi)
  have hnone : repeatedFunction? degree knots = none := by
    refine List.find?_eq_none.mpr fun i hi => ?_
    rw [OrderedScalar.lt_eq, Bool.not_eq_true, Bool.not_eq_false', decide_eq_true_iff]
    exact hfunctions i (List.mem_range.mp hi)
  rw [← decide_eq_true_iff (p := knotAt knots degree < _), ← OrderedScalar.lt_eq] at hdomain
  unfold checkKnots
  rw [hnone]
  exact require_bind_eq_ok_iff.mpr ⟨decide_eq_true hsize, require_bind_eq_ok_iff.mpr ⟨hsorted,
    require_bind_eq_ok_iff.mpr ⟨hdomain, rfl⟩⟩⟩

omit [LinearOrder α] [OrderedScalar α] in
/-- Accepted knots make a knot vector. -/
theorem ofKnots_ok {degree : Nat} {knots : Array α} (h : checkKnots degree knots = .ok ()) :
    ofKnots degree knots = .ok ⟨degree, knots, h⟩ := by
  have hdegree : ¬ (degree : Int) < 0 := not_lt.mpr (Int.natCast_nonneg degree)
  rw [ofKnots, if_neg hdegree]
  split
  · rfl
  · rename_i e he
    rw [Int.toNat_natCast, h] at he
    cases he

/-- A list that increases has no repeats. -/
theorem dropRepeats_eq_self {xs : List α} (h : xs.Pairwise (· < ·)) : dropRepeats xs = xs := by
  have hkept : ∀ {kept : α} {ys : List α}, (kept :: ys).Pairwise (· < ·) → dropRepeatsOf kept ys = ys := by
    intro kept ys
    induction ys generalizing kept with
    | nil => exact fun _ => rfl
    | cons y ys ih =>
      intro h
      obtain ⟨hlt, hrest⟩ := List.pairwise_cons.mp h
      have hne : kept ≠ y := (hlt y (List.mem_cons_self ..)).ne
      rw [dropRepeatsOf, OrderedScalar.eq_eq, if_neg (by simpa using hne), ih hrest]
  cases xs with
  | nil => rfl
  | cons x xs => rw [dropRepeats, hkept h]

end Accepted

/-! ## (2) Break points -/

variable {K : Type} [Field K] [LinearOrder K] [IsStrictOrderedRing K] {p m : Nat} {a b : K}

/-- The break points of `m` equal elements on `[a, b]`. -/
def breakPoint (m : Nat) (a b : K) (e : Nat) : K := a + (b - a) * e / m

omit [LinearOrder K] [IsStrictOrderedRing K] in
/-- The first break point is the lower end. -/
theorem breakPoint_zero (m : Nat) (a b : K) : breakPoint m a b 0 = a := by
  rw [breakPoint, Nat.cast_zero, mul_zero, zero_div, add_zero]

/-- The last break point is the upper end. -/
theorem breakPoint_last (hm : 1 ≤ m) (a b : K) : breakPoint m a b m = b := by
  have hne : (m : K) ≠ 0 := Nat.cast_ne_zero.mpr (Nat.ne_of_gt hm)
  rw [breakPoint, mul_div_cancel_right₀ _ hne, add_sub_cancel]

/-- **Break points increase.** -/
theorem breakPoint_strictMono (hm : 1 ≤ m) (hab : a < b) : StrictMono (breakPoint m a b) := by
  intro d e hde
  have hpos : (0 : K) < m := Nat.cast_pos.mpr hm
  have hlength : 0 < b - a := sub_pos.mpr hab
  unfold breakPoint
  gcongr

/-- The list of break points. -/
theorem uniformBreaks_eq (hm : 1 ≤ m) (a b : K) :
    uniformBreaks m a b = (List.range (m + 1)).map (breakPoint m a b) := by
  rw [uniformBreaks, List.range_succ, List.map_append, List.map_singleton, breakPoint_last hm]
  rfl

/-- The knots of an open uniform knot vector. -/
def openKnots (p m : Nat) (a b : K) : Array K :=
  (List.replicate p a ++ uniformBreaks m a b ++ List.replicate p b).toArray

omit [IsStrictOrderedRing K] in
/-- The number of knots. -/
theorem size_openKnots (p m : Nat) (a b : K) : (openKnots p m a b).size = p + (m + 1) + p := by
  simp only [openKnots, uniformBreaks, List.size_toArray, List.length_append, List.length_replicate,
    List.length_map, List.length_range, List.length_singleton]

/-- **Every knot is a break point.** -/
theorem knotAt_openKnots (hm : 1 ≤ m) {i : Nat} (hi : i < p + (m + 1) + p) :
    knotAt (openKnots p m a b) i = breakPoint m a b (min (i - p) m) := by
  rw [knotAt, openKnots, uniformBreaks_eq hm, Array.getD_eq_getD_getElem?, List.getElem?_toArray,
    List.append_assoc]
  rcases Nat.lt_or_ge i p with hlow | hlow
  · -- One of the first knots.
    have hnumber : min (i - p) m = 0 := by omega
    rw [List.getElem?_append_left (by rwa [List.length_replicate]), List.getElem?_replicate, if_pos hlow,
      Option.getD_some, hnumber, breakPoint_zero]
  · rw [List.getElem?_append_right (by rwa [List.length_replicate]), List.length_replicate]
    rcases Nat.lt_or_ge (i - p) (m + 1) with hmid | hhigh
    · have hnumber : min (i - p) m = i - p := by omega
      rw [List.getElem?_append_left (by rwa [List.length_map, List.length_range]), List.getElem?_map,
        List.getElem?_range hmid, Option.map_some, Option.getD_some, hnumber]
    · -- One of the last knots.
      have hnumber : min (i - p) m = m := by omega
      rw [List.getElem?_append_right (by rwa [List.length_map, List.length_range]), List.length_map,
        List.length_range, List.getElem?_replicate, if_pos (by omega), Option.getD_some, hnumber,
        breakPoint_last hm]

/-- **The knots are accepted,** since the numbers of their break points pass the checks. -/
theorem checkKnots_openKnots (hm : 1 ≤ m) (hab : a < b) : checkKnots p (openKnots p m a b) = .ok () := by
  have hsize := size_openKnots p m a b
  have hbreaks := breakPoint_strictMono hm hab
  have hdofs : (openKnots p m a b).size - p - 1 = m + p := by omega
  refine checkKnots_ok (by omega) (fun i hi => ?_) ?_ fun i hi => ?_
  · rw [knotAt_openKnots hm (by omega), knotAt_openKnots hm (by omega), hbreaks.le_iff_le]
    omega
  · rw [hdofs, knotAt_openKnots hm (by omega), knotAt_openKnots hm (by omega), hbreaks.lt_iff_lt]
    omega
  · rw [knotAt_openKnots hm (by omega), knotAt_openKnots hm (by omega), hbreaks.lt_iff_lt]
    omega

/-! ## (3) Mesh and supports -/

/-- **An open uniform knot vector.** -/
structure IsOpenUniform (kv : KnotVector K) (p m : Nat) (a b : K) : Prop where
  degree : kv.degree = p
  knots : kv.knots = openKnots p m a b

namespace IsOpenUniform

variable {kv : KnotVector K} (h : kv.IsOpenUniform p m a b)

include h

omit [IsStrictOrderedRing K] in
/-- There is a function for each element, and as many more as the degree says. -/
theorem dofs_eq : kv.dofs = m + p := by
  rw [dofs, h.knots, size_openKnots, h.degree]
  omega

/-- The break point at a knot. -/
theorem knot_eq (hm : 1 ≤ m) {i : Nat} (hi : i < p + (m + 1) + p) :
    kv.knot i = breakPoint m a b (min (i - p) m) := by
  rw [knot, h.knots, knotAt_openKnots hm hi]

/-- **The mesh consists of the break points.** -/
theorem mesh_eq (hm : 1 ≤ m) (hab : a < b) :
    kv.mesh = ((List.range (m + 1)).map (breakPoint m a b)).toArray := by
  have hdomain : (kv.knots.extract kv.degree (kv.dofs + 1)).toList =
      (List.range (m + 1)).map (breakPoint m a b) := by
    have hcount : m + p + 1 - p = m + 1 := by omega
    rw [toList_domain, h.dofs_eq, h.degree, hcount, List.range'_eq_map_range, List.map_map]
    refine List.map_congr_left fun e he => ?_
    have he := List.mem_range.mp he
    have hnumber : min (p + e - p) m = e := by omega
    rw [Function.comp_apply, h.knot_eq hm (by omega), hnumber]
  have hsorted : ((List.range (m + 1)).map (breakPoint m a b)).Pairwise (· < ·) :=
    List.pairwise_map.mpr (List.pairwise_lt_range.imp fun hlt => breakPoint_strictMono hm hab hlt)
  rw [mesh, hdomain, dropRepeats_eq_self hsorted]

/-- The number of elements. -/
theorem elements_eq (hm : 1 ≤ m) (hab : a < b) : kv.elements = m := by
  rw [elements, h.mesh_eq hm hab, meshElements, List.size_toArray, List.length_map, List.length_range,
    Nat.add_sub_cancel]

/-- A point of the mesh. -/
theorem mesh_getElem? (hm : 1 ≤ m) (hab : a < b) {e : Nat} (he : e ≤ m) :
    kv.mesh[e]? = some (breakPoint m a b e) := by
  rw [h.mesh_eq hm hab, List.getElem?_toArray, List.getElem?_map,
    List.getElem?_range (Nat.lt_succ_of_le he), Option.map_some]

/-- **The element that a break point starts** has the number of the break point. -/
theorem elementOf_breakPoint (hm : 1 ≤ m) (hab : a < b) {k : Nat} (hk : k ≤ m) :
    elementOf kv.mesh (breakPoint m a b k) = k := by
  have hle := kv.elementOf_le (breakPoint m a b k)
  rw [h.elements_eq hm hab] at hle
  have hlt : ∀ e < m, e < elementOf kv.mesh (breakPoint m a b k) ↔ e < k := by
    intro e he
    rw [kv.lt_elementOf (by rwa [h.elements_eq hm hab]), knotAt, Array.getD_eq_getD_getElem?,
      h.mesh_getElem? hm hab he.le, Option.getD_some, (breakPoint_strictMono hm hab).lt_iff_lt]
  -- Both numbers are at most `m` and lie behind the same elements.
  rcases Nat.lt_trichotomy (elementOf kv.mesh (breakPoint m a b k)) k with hless | heq | hgreater
  · exact absurd ((hlt _ (hless.trans_le hk)).mpr hless) (Nat.lt_irrefl _)
  · exact heq
  · exact absurd ((hlt k (hgreater.trans_le hle)).mp hgreater) (Nat.lt_irrefl _)

/-- **The elements under a function.** -/
theorem supportOf_eq (hm : 1 ≤ m) (hab : a < b) {i : Nat} (hi : i < m + p) :
    kv.supportOf i = ⟨i - p, min m (i + 1)⟩ := by
  have hfirst : min (i - p) m = i - p := by omega
  have hlast : min (i + p + 1 - p) m = min m (i + 1) := by omega
  rw [KnotVector.supportOf_eq kv (h.dofs_eq.symm ▸ hi), h.degree, h.knot_eq hm (by omega),
    h.knot_eq hm (by omega), h.elementOf_breakPoint hm hab (by omega),
    h.elementOf_breakPoint hm hab (by omega), hfirst, hlast]

/-- **Functions couple if their numbers differ by the degree at most.** -/
theorem meets_iff (hm : 1 ≤ m) (hab : a < b) {i : Nat} (hi : i < m + p) {j : Nat} :
    (kv.supportOf i).Meets (kv.supportOf j) ↔
      (⟨i - p, min (m + p) (i + p + 1)⟩ : Interval).contains j = true := by
  rw [Interval.contains_iff, Interval.meets_iff]
  by_cases hj : j < m + p
  · rw [h.supportOf_eq hm hab hi, h.supportOf_eq hm hab hj]
    simp only
    omega
  · -- There is no such function.
    refine iff_of_false (fun hmeets => hj ?_) fun hin => hj (hin.2.trans_le (Nat.min_le_left _ _))
    exact h.dofs_eq ▸ kv.lt_dofs_of_supported hmeets.1.2

/-- **The search for the functions that couple with a function** leads to all of them. -/
theorem jointSupportRange_eq (hm : 1 ≤ m) (hab : a < b) {i : Nat} (hi : i < m + p) :
    kv.jointSupportRange i = .ok ⟨i - p, min (m + p) (i + p + 1)⟩ := by
  have hi' : i < kv.dofs := h.dofs_eq.symm ▸ hi
  have hself : i - p < min (m + p) (i + p + 1) := by omega
  obtain ⟨range, hrange, hspec⟩ := jointRange_spec (kv.size_meshSupport.symm ▸ hi') kv.sortedSupports
  rw [jointSupportRange, hrange]
  refine congrArg Except.ok (Interval.eq_of_contains hself fun j => ?_).symm
  rw [kv.contains_neighbors hi' hspec, h.meets_iff hm hab hi]

end IsOpenUniform

/-! ## (4) The knot vector that is made -/

/-- **Open uniform knot vectors in closed form.** For every degree, every number of elements and every
interval that is not empty there is one. Its mesh consists of equally spaced points, and a function has the
elements from `i - p` to before `i + 1` in its support, as far as there are such elements. So no support is
empty, and a function couples with at most `2 p + 1` functions, those whose numbers differ by `p` at
most. -/
theorem openUniform_exact (p : Nat) (hm : 1 ≤ m) (hab : a < b) :
    ∃ kv : KnotVector K, openUniform p m a b = .ok kv ∧ kv.degree = p ∧ kv.dofs = m + p ∧
      kv.elements = m ∧ kv.mesh.size = m + 1 ∧
      (∀ e ≤ m, kv.mesh[e]? = some (a + (b - a) * e / m)) ∧ kv.meshSupport.size = m + p ∧
      ∀ i < m + p, kv.meshSupport[i]? = some ⟨i - p, min m (i + 1)⟩ ∧ i - p < min m (i + 1) ∧
        ∃ range, kv.jointSupportRange i = .ok range ∧ range = ⟨i - p, min (m + p) (i + p + 1)⟩ ∧
          range.size ≤ 2 * p + 1 ∧ ∀ j, range.contains j = true ↔
            ((supportAt kv.meshSupport i).intersect (supportAt kv.meshSupport j)).isEmpty = false := by
  have haccepted := checkKnots_openKnots (p := p) hm hab
  have hmade : openUniform (p : Int) m a b = .ok ⟨p, openKnots p m a b, haccepted⟩ :=
    require_bind_eq_ok_iff.mpr ⟨decide_eq_true (Int.natCast_nonneg p),
      require_bind_eq_ok_iff.mpr ⟨decide_eq_true hm,
        require_bind_eq_ok_iff.mpr ⟨decide_eq_true hab, ofKnots_ok haccepted⟩⟩⟩
  refine ⟨_, hmade, rfl, ?_⟩
  have h : IsOpenUniform (⟨p, openKnots p m a b, haccepted⟩ : KnotVector K) p m a b := ⟨rfl, rfl⟩
  generalize (⟨p, openKnots p m a b, haccepted⟩ : KnotVector K) = kv at h
  have hmesh : kv.mesh.size = m + 1 := by rw [kv.size_mesh, h.elements_eq hm hab]
  have hsize : kv.meshSupport.size = m + p := by rw [kv.size_meshSupport, h.dofs_eq]
  refine ⟨h.dofs_eq, h.elements_eq hm hab, hmesh, fun e he => h.mesh_getElem? hm hab he, hsize,
    fun i hi => ⟨?_, by omega, _, h.jointSupportRange_eq hm hab hi, rfl, ?_, fun j => ?_⟩⟩
  · have hi' : i < kv.meshSupport.size := hsize.symm ▸ hi
    have hsupport := h.supportOf_eq hm hab hi
    rw [supportOf, supportAt, Array.getD_eq_getD_getElem?, Array.getElem?_eq_getElem hi',
      Option.getD_some] at hsupport
    rw [Array.getElem?_eq_getElem hi', hsupport]
  · change min (m + p) (i + p + 1) - (i - p) ≤ 2 * p + 1
    omega
  · rw [← h.meets_iff hm hab hi, ← Bool.not_eq_true, Interval.isEmpty_intersect, not_not]
    exact Iff.rfl

/-- Cubic functions on two elements: the three in the middle lie over both of them, and only the first one
and the last one do not couple. -/
theorem openUniform_exact_twoElements :
    1 ≤ 2 ∧ (-1 : ℚ) < 1 ∧ ∃ kv : KnotVector ℚ, openUniform 3 2 (-1) 1 = .ok kv ∧ kv.dofs = 5 ∧
      kv.elements = 2 ∧ kv.mesh[1]? = some 0 ∧ kv.meshSupport[0]? = some ⟨0, 1⟩ ∧
      kv.meshSupport[2]? = some ⟨0, 2⟩ ∧ kv.meshSupport[4]? = some ⟨1, 2⟩ ∧
      kv.jointSupportRange 0 = .ok ⟨0, 4⟩ ∧ kv.jointSupportRange 2 = .ok ⟨0, 5⟩ := by
  have hm : 1 ≤ 2 := by decide
  have hab : (-1 : ℚ) < 1 := by norm_num
  obtain ⟨kv, hkv, -, hdofs, helements, -, hmesh, -, hfunctions⟩ := openUniform_exact 3 hm hab
  refine ⟨hm, hab, kv, hkv, hdofs, helements, ?_, (hfunctions 0 (by decide)).1,
    (hfunctions 2 (by decide)).1, (hfunctions 4 (by decide)).1, ?_, ?_⟩
  · rw [hmesh 1 (by decide)]
    norm_num
  · obtain ⟨-, -, range, hrange, rfl, -⟩ := hfunctions 0 (by decide)
    exact hrange
  · obtain ⟨-, -, range, hrange, rfl, -⟩ := hfunctions 2 (by decide)
    exact hrange

end Galerkin.KnotVector
