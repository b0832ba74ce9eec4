import Galerkin.Basis.KnotVector
import Galerkin.Proofs.Exact
import Galerkin.Proofs.Index.Search
import Galerkin.Proofs.Steps
import Mathlib.Data.List.Pairwise

/-! # Meshes and supports

The knots of an accepted knot vector do not decrease, and the mesh lists those of the domain, each once,
in increasing order. The elements under a basis function are then those that lie between its first and
its last knot.

* **`KnotVector.knot_mono`**, **`KnotVector.domain_lt`**, **`KnotVector.function_lt`** — what the checks on
  knots amount to;
* **`KnotVector.mesh_lt`**, **`KnotVector.mem_mesh`** — the mesh increases and holds the knots of the
  domain;
* **`KnotVector.lt_elementOf`** — the element a knot starts;
* **`KnotVector.mem_support`** — the elements under a basis function. -/

namespace Galerkin

variable {α : Type} [Scalar α] [LinearOrder α] [OrderedScalar α]

/-! ## (1) Knots -/

namespace KnotVector

/-- What is checked of knots, one condition after the other. -/
theorem checkKnots_eq_ok {degree : Nat} {knots : Array α} (h : checkKnots degree knots = .ok ()) :
    degree + 2 ≤ knots.size ∧
      (∀ i < knots.size - 1, knotAt knots i ≤ knotAt knots (i + 1)) ∧
      knotAt knots degree < knotAt knots (knots.size - degree - 1) ∧
      ∀ i < knots.size - degree - 1, knotAt knots i < knotAt knots (i + degree + 1) := by
  unfold checkKnots at h
  obtain ⟨hsize, h⟩ := require_bind_eq_ok_iff.mp h
  obtain ⟨hmono, h⟩ := require_bind_eq_ok_iff.mp h
  obtain ⟨hdomain, h⟩ := require_bind_eq_ok_iff.mp h
  rw [OrderedScalar.lt_eq, decide_eq_true_iff] at hdomain
  refine ⟨of_decide_eq_true hsize, ?_, hdomain, ?_⟩
  · intro i hi
    have hall := List.all_eq_true.mp hmono i (List.mem_range.mpr hi)
    rwa [OrderedScalar.lt_eq, Bool.not_eq_true', decide_eq_false_iff_not, not_lt] at hall
  · intro i hi
    split at h
    · cases h
    · rename_i hnone
      have hsome := List.find?_eq_none.mp hnone i (List.mem_range.mpr hi)
      rwa [OrderedScalar.lt_eq, Bool.not_eq_true, Bool.not_eq_false', decide_eq_true_iff] at hsome

variable (kv : KnotVector α)

/-- The number of knots. -/
theorem size_knots : kv.knots.size = kv.dofs + kv.degree + 1 := by
  have h := (checkKnots_eq_ok kv.accepted).1
  unfold dofs
  omega

/-- **Knots do not decrease.** -/
theorem knot_mono {i j : Nat} (hij : i ≤ j) (hj : j ≤ kv.dofs + kv.degree) :
    kv.knot i ≤ kv.knot j := by
  have hsize := kv.size_knots
  induction j, hij using Nat.le_induction with
  | base => exact le_refl _
  | succ j hij ih =>
    exact (ih (by omega)).trans ((checkKnots_eq_ok kv.accepted).2.1 j (by omega))

/-- **The domain is not empty.** -/
theorem domain_lt : kv.knot kv.degree < kv.knot kv.dofs := (checkKnots_eq_ok kv.accepted).2.2.1

/-- **The knots of a function do not all coincide.** -/
theorem function_lt {i : Nat} (hi : i < kv.dofs) : kv.knot i < kv.knot (i + kv.degree + 1) :=
  (checkKnots_eq_ok kv.accepted).2.2.2 i hi

/-- There are more functions than the degree says. -/
theorem degree_lt_dofs : kv.degree < kv.dofs := by
  by_contra hge
  exact absurd kv.domain_lt (not_lt.mpr (kv.knot_mono (not_lt.mp hge) (by omega)))

end KnotVector

/-! ## (2) Dropping repeats -/

namespace KnotVector

omit [LinearOrder α] [OrderedScalar α] in
/-- What is kept after a value are other values of the list. -/
theorem mem_dropRepeatsOf {x : α} {xs : List α} :
    ∀ {kept : α}, x ∈ dropRepeatsOf kept xs → x ∈ xs := by
  induction xs with
  | nil => exact fun h => h
  | cons y ys ih =>
    intro kept h
    rw [dropRepeatsOf] at h
    split at h
    · exact List.mem_cons_of_mem _ (ih h)
    · rcases List.mem_cons.mp h with rfl | h
      · exact List.mem_cons_self ..
      · exact List.mem_cons_of_mem _ (ih h)

/-- A value of the list is kept unless it is the one kept before. -/
theorem eq_or_mem_dropRepeatsOf {x : α} {xs : List α} :
    ∀ {kept : α}, x ∈ xs → x = kept ∨ x ∈ dropRepeatsOf kept xs := by
  induction xs with
  | nil => exact fun h => nomatch h
  | cons y ys ih =>
    intro kept h
    rw [dropRepeatsOf, OrderedScalar.eq_eq]
    by_cases heq : kept = y
    · rw [if_pos (decide_eq_true heq)]
      rcases List.mem_cons.mp h with rfl | h
      · exact .inl heq.symm
      · exact ih h
    · rw [if_neg (by simpa using heq)]
      rcases List.mem_cons.mp h with rfl | h
      · exact .inr (List.mem_cons_self ..)
      · rcases @ih y h with rfl | h
        · exact .inr (List.mem_cons_self ..)
        · exact .inr (List.mem_cons_of_mem _ h)

/-- **What is kept of a list that does not decrease increases,** and lies above the value kept before. -/
theorem pairwise_dropRepeatsOf {xs : List α} : ∀ {kept : α}, (kept :: xs).Pairwise (· ≤ ·) →
    (kept :: dropRepeatsOf kept xs).Pairwise (· < ·) := by
  induction xs with
  | nil => exact fun _ => List.pairwise_singleton _ _
  | cons y ys ih =>
    intro kept h
    rw [dropRepeatsOf, OrderedScalar.eq_eq]
    obtain ⟨hkept, hrest⟩ := List.pairwise_cons.mp h
    by_cases heq : kept = y
    · rw [if_pos (decide_eq_true heq)]
      exact ih (heq ▸ hrest)
    · rw [if_neg (by simpa using heq)]
      have hlt : kept < y := lt_of_le_of_ne (hkept y (List.mem_cons_self ..)) heq
      refine List.pairwise_cons.mpr ⟨?_, ih hrest⟩
      intro z hz
      rcases List.mem_cons.mp hz with rfl | hz
      · exact hlt
      · exact hlt.trans ((List.pairwise_cons.mp (ih hrest)).1 z hz)

/-- Dropping repeats keeps the values. -/
theorem mem_dropRepeats {x : α} {xs : List α} : x ∈ dropRepeats xs ↔ x ∈ xs := by
  cases xs with
  | nil => exact Iff.rfl
  | cons y ys =>
    rw [dropRepeats, List.mem_cons, List.mem_cons]
    constructor
    · exact Or.imp_right mem_dropRepeatsOf
    · rintro (rfl | h)
      · exact .inl rfl
      · exact eq_or_mem_dropRepeatsOf h

/-- A list that does not decrease increases without its repeats. -/
theorem pairwise_dropRepeats {xs : List α} (h : xs.Pairwise (· ≤ ·)) :
    (dropRepeats xs).Pairwise (· < ·) := by
  cases xs with
  | nil => exact List.Pairwise.nil
  | cons y ys => exact pairwise_dropRepeatsOf h

/-! ## (3) The mesh -/

variable (kv : KnotVector α)

/-- The knots of the domain. -/
theorem toList_domain : (kv.knots.extract kv.degree (kv.dofs + 1)).toList =
    (List.range' kv.degree (kv.dofs + 1 - kv.degree)).map kv.knot := by
  have hsize := kv.size_knots
  refine List.ext_getElem ?_ fun i h₁ h₂ => ?_
  · rw [Array.length_toList, Array.size_extract, List.length_map, List.length_range']
    omega
  · rw [List.length_map, List.length_range'] at h₂
    rw [Array.getElem_toList, Array.getElem_extract, List.getElem_map, List.getElem_range', knot,
      knotAt, Nat.one_mul, Array.getD_eq_getD_getElem?,
      Array.getElem?_eq_getElem (by omega), Option.getD_some]

/-- **The mesh increases.** -/
theorem pairwise_mesh : kv.mesh.toList.Pairwise (· < ·) := by
  refine pairwise_dropRepeats ?_
  rw [toList_domain, List.pairwise_map]
  have hlt : (List.range' kv.degree (kv.dofs + 1 - kv.degree)).Pairwise (· < ·) :=
    List.pairwise_lt_range'
  refine hlt.imp_of_mem fun {i j} _ hj hlt => ?_
  have hj' := List.mem_range'_1.mp hj
  exact kv.knot_mono (Nat.le_of_lt hlt) (by omega)

omit [LinearOrder α] [OrderedScalar α] in
/-- A point of the mesh, by its number. -/
theorem knotAt_mesh {e : Nat} (he : e < kv.mesh.size) : knotAt kv.mesh e = kv.mesh[e] := by
  rw [knotAt, Array.getD_eq_getD_getElem?, Array.getElem?_eq_getElem he, Option.getD_some]

/-- **Later points of the mesh are larger.** -/
theorem mesh_lt {d e : Nat} (hde : d < e) (he : e < kv.mesh.size) :
    knotAt kv.mesh d < knotAt kv.mesh e := by
  rw [kv.knotAt_mesh (hde.trans he), kv.knotAt_mesh he]
  exact List.pairwise_iff_getElem.mp kv.pairwise_mesh d e (hde.trans he) he hde

/-- No later point of the mesh is smaller. -/
theorem mesh_le {d e : Nat} (hde : d ≤ e) (he : e < kv.mesh.size) :
    knotAt kv.mesh d ≤ knotAt kv.mesh e := by
  rcases Nat.eq_or_lt_of_le hde with rfl | hlt
  · exact le_refl _
  · exact (kv.mesh_lt hlt he).le

/-- **The points of the mesh are the knots of the domain.** -/
theorem mem_mesh {x : α} :
    (∃ e < kv.mesh.size, knotAt kv.mesh e = x) ↔ ∃ i, kv.degree ≤ i ∧ i ≤ kv.dofs ∧ kv.knot i = x := by
  have hmem : (∃ e < kv.mesh.size, knotAt kv.mesh e = x) ↔ x ∈ kv.mesh.toList := by
    rw [List.mem_iff_getElem]
    constructor
    · rintro ⟨e, he, rfl⟩
      exact ⟨e, he, (kv.knotAt_mesh he).symm⟩
    · rintro ⟨e, he, rfl⟩
      exact ⟨e, he, kv.knotAt_mesh he⟩
  rw [hmem, mesh, List.toList_toArray, mem_dropRepeats, toList_domain, List.mem_map]
  have hlt := kv.degree_lt_dofs
  refine exists_congr fun i => ?_
  rw [List.mem_range'_1, ← and_assoc]
  exact and_congr_left' (by omega)

/-- The point of the mesh at a knot of the domain. -/
theorem exists_mesh_eq {i : Nat} (hlow : kv.degree ≤ i) (hhigh : i ≤ kv.dofs) :
    ∃ e < kv.mesh.size, knotAt kv.mesh e = kv.knot i := kv.mem_mesh.mpr ⟨i, hlow, hhigh, rfl⟩

/-- A mesh has at least two points. -/
theorem two_le_size_mesh : 2 ≤ kv.mesh.size := by
  have hlt := kv.degree_lt_dofs
  obtain ⟨d, hd, hdeq⟩ := kv.exists_mesh_eq (le_refl _) hlt.le
  obtain ⟨e, he, heeq⟩ := kv.exists_mesh_eq hlt.le (le_refl _)
  by_contra hsize
  have hde : d = e := by omega
  rw [hde, heeq] at hdeq
  exact absurd kv.domain_lt (not_lt.mpr hdeq.le)

/-- The number of points of a mesh. -/
theorem size_mesh : kv.mesh.size = kv.elements + 1 := by
  have h := kv.two_le_size_mesh
  unfold elements meshElements
  omega

/-- There is an element. -/
theorem elements_pos : 0 < kv.elements := by
  have h := kv.two_le_size_mesh
  have hsize := kv.size_mesh
  omega

/-- **The lower end of the domain** is the first of its knots. -/
theorem lower_eq : kv.lower = kv.knot kv.degree := by
  have hlt := kv.degree_lt_dofs
  obtain ⟨e, he, heq⟩ := kv.exists_mesh_eq (le_refl _) hlt.le
  obtain ⟨i, hlow, hhigh, hi⟩ := kv.mem_mesh.mp ⟨0, by omega, rfl⟩
  refine le_antisymm ?_ ?_
  · rw [← heq]
    exact kv.mesh_le (Nat.zero_le e) he
  · rw [lower, ← hi]
    exact kv.knot_mono hlow (by omega)

/-- **The upper end of the domain** is the last of its knots. -/
theorem upper_eq : kv.upper = kv.knot kv.dofs := by
  have hlt := kv.degree_lt_dofs
  have hsize := kv.size_mesh
  obtain ⟨e, he, heq⟩ := kv.exists_mesh_eq hlt.le (le_refl _)
  obtain ⟨i, hlow, hhigh, hi⟩ := kv.mem_mesh.mp ⟨kv.elements, by omega, rfl⟩
  refine le_antisymm ?_ ?_
  · rw [upper, ← hi]
    exact kv.knot_mono hhigh (by omega)
  · rw [← heq]
    exact kv.mesh_le (by omega) (by omega)

/-! ## (4) Supports -/

/-- **The elements before the one a point starts** are those whose start lies before the point. -/
theorem lt_elementOf {e : Nat} (he : e < kv.elements) (t : α) :
    e < elementOf kv.mesh t ↔ knotAt kv.mesh e < t := by
  have hsize := kv.size_mesh
  have hmono : ∀ i j, 0 ≤ i → i ≤ j → j < 0 + kv.mesh.size →
      Scalar.lt (knotAt kv.mesh j) t = true → Scalar.lt (knotAt kv.mesh i) t = true := by
    intro i j _ hij hj h
    rw [OrderedScalar.lt_eq, decide_eq_true_iff] at h ⊢
    exact (kv.mesh_le hij (by omega)).trans_lt h
  have hpoint := lt_partitionPoint_iff hmono (Nat.zero_le e) (by omega)
  rw [OrderedScalar.lt_eq, decide_eq_true_iff] at hpoint
  rw [elementOf, Nat.lt_min, hpoint]
  exact and_iff_left (by unfold elements at he; exact he)

omit [LinearOrder α] [OrderedScalar α] in
/-- No element starts beyond the mesh. -/
theorem elementOf_le (t : α) : elementOf kv.mesh t ≤ kv.elements := Nat.min_le_right _ _

omit [LinearOrder α] [OrderedScalar α] in
/-- There is one support for each function. -/
theorem size_meshSupport : kv.meshSupport.size = kv.dofs := by
  rw [meshSupport, Array.size_map, Array.size_range]

omit [LinearOrder α] [OrderedScalar α] in
/-- The support of a function. -/
theorem getD_meshSupport {f : Nat} (hf : f < kv.dofs) (d : Interval) :
    kv.meshSupport.getD f d =
      ⟨elementOf kv.mesh (kv.knot f), elementOf kv.mesh (kv.knot (f + kv.degree + 1))⟩ := by
  have hlt : f < kv.meshSupport.size := by rwa [kv.size_meshSupport]
  rw [Array.getD_eq_getD_getElem?, Array.getElem?_eq_getElem hlt, Option.getD_some]
  simp only [meshSupport, Array.getElem_map, Array.getElem_range]

/-- **The elements under a function** lie between its first and its last knot. -/
theorem mem_support {f e : Nat} (hf : f < kv.dofs) (he : e < kv.elements) (d : Interval) :
    (kv.meshSupport.getD f d).contains e = true ↔
      kv.knot f ≤ knotAt kv.mesh e ∧ knotAt kv.mesh e < kv.knot (f + kv.degree + 1) := by
  rw [kv.getD_meshSupport hf, Interval.contains_iff, kv.lt_elementOf he, ← not_lt, ← not_lt,
    kv.lt_elementOf he]

end KnotVector

end Galerkin
