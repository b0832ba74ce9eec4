import Galerkin.Proofs.Quadrature.Composite
import Galerkin.Proofs.Quadrature.Legendre
import Mathlib.Analysis.SpecialFunctions.Integrals.Basic
import Mathlib.Topology.Algebra.Polynomial

/-! # Exactness of composite rules

A reference rule that integrates the polynomials up to some degree is moved to every element of a mesh. The
composite rule integrates every function that is such a polynomial on each element, over any range of
elements, and its nodes increase.

* **`compositeGauss_eq_error_iff`** — when there is no composite Gauss rule;
* **`pairwise_nodes`**, **`node_between`** — the order of the nodes, and the elements they lie in;
* **`weightedSum_element`** — the part of a weighted sum that belongs to an element;
* **`ReferenceRule.Exact.affine`** — an exact rule on another interval;
* **`PiecewisePolynomial`** — functions that are a polynomial on each element;
* **`weightedSum_eq_integral`** — they are integrated over any range of elements;
* **`compositeRule_exact`** — composite rules are exact. -/

open Polynomial

namespace Galerkin

/-! ## (1) Meshes -/

section Meshes

variable {α : Type} [LinearOrder α]

/-- **Neighbouring break points in order** are break points in order. -/
theorem meshPairs_lt_iff {mesh : List α} :
    (∀ e ∈ meshPairs mesh, e.1 < e.2) ↔ mesh.Pairwise (· < ·) := by
  induction mesh with
  | nil => exact iff_of_true (fun _ he => nomatch he) .nil
  | cons a mesh ih =>
    cases mesh with
    | nil => exact iff_of_true (fun _ he => nomatch he) (List.pairwise_singleton _ _)
    | cons b mesh =>
      have hcons : meshPairs (a :: b :: mesh) = (a, b) :: meshPairs (b :: mesh) := rfl
      rw [hcons, List.forall_mem_cons, ih, ← List.isChain_iff_pairwise, ← List.isChain_iff_pairwise,
        List.isChain_cons_cons]

/-- **The elements of an increasing mesh** come one after the other. -/
theorem pairwise_meshPairs {mesh : List α} (h : mesh.Pairwise (· < ·)) :
    (meshPairs mesh).Pairwise fun e e' => e.2 ≤ e'.1 := by
  rw [List.pairwise_iff_getElem]
  intro i j hi hj hij
  obtain ⟨-, hend⟩ := getElem?_meshPairs.mp (List.getElem?_eq_getElem hi)
  obtain ⟨hstart, -⟩ := getElem?_meshPairs.mp (List.getElem?_eq_getElem hj)
  obtain ⟨hi', hend⟩ := List.getElem?_eq_some_iff.mp hend
  obtain ⟨hj', hstart⟩ := List.getElem?_eq_some_iff.mp hstart
  refine le_of_eq_of_le hend.symm (le_of_le_of_eq ?_ hstart)
  rcases Nat.eq_or_lt_of_le (Nat.succ_le_of_lt hij) with heq | hlt
  -- Neighbouring elements have a break point in common.
  · subst heq
    exact le_rfl
  · exact (List.pairwise_iff_getElem.mp h _ _ hi' hj' hlt).le

variable [Scalar α] [OrderedScalar α] {rule : ReferenceRule α} {mesh : List α}

/-- **A reference rule on a mesh** needs an increasing one, and nothing else. -/
theorem exists_compositeRule_iff :
    (∃ axis, compositeRule rule mesh = .ok axis) ↔ mesh.Pairwise (· < ·) := by
  have hcheck : ((meshPairs mesh).all fun e => Scalar.lt e.1 e.2) = true ↔ mesh.Pairwise (· < ·) := by
    rw [← meshPairs_lt_iff, List.all_eq_true]
    simp only [OrderedScalar.lt_eq, decide_eq_true_eq]
  rw [← hcheck]
  constructor
  · rintro ⟨axis, h⟩
    exact (require_bind_eq_ok_iff.mp h).1
  · exact fun h => ⟨_, require_bind_eq_ok_iff.mpr ⟨h, rfl⟩⟩

variable [Circular α] {points : Int}

omit [LinearOrder α] [OrderedScalar α] in
/-- **A Gauss rule** has from 1 to 128 points. -/
theorem exists_gaussRule_iff :
    (∃ rule : ReferenceRule α, gaussRule points = .ok rule) ↔ 1 ≤ points ∧ points ≤ 128 := by
  constructor
  · rintro ⟨rule, h⟩
    obtain ⟨hlow, h⟩ := require_bind_eq_ok_iff.mp h
    obtain ⟨hhigh, -⟩ := require_bind_eq_ok_iff.mp h
    exact ⟨of_decide_eq_true hlow, of_decide_eq_true hhigh⟩
  · rintro ⟨hlow, hhigh⟩
    exact ⟨_, require_bind_eq_ok_iff.mpr ⟨decide_eq_true hlow,
      require_bind_eq_ok_iff.mpr ⟨decide_eq_true hhigh, rfl⟩⟩⟩

/-- **A composite Gauss rule** needs an element, an increasing mesh and a number of points in range. -/
theorem exists_compositeGauss_iff : (∃ axis, compositeGauss mesh points = .ok axis) ↔
    2 ≤ mesh.length ∧ mesh.Pairwise (· < ·) ∧ 1 ≤ points ∧ points ≤ 128 := by
  simp only [compositeGauss_eq_ok_iff]
  constructor
  · rintro ⟨axis, hlen, rule, hrule, haxis⟩
    exact ⟨hlen, exists_compositeRule_iff.mp ⟨axis, haxis⟩, exists_gaussRule_iff.mp ⟨rule, hrule⟩⟩
  · rintro ⟨hlen, hmesh, hpoints⟩
    obtain ⟨rule, hrule⟩ := exists_gaussRule_iff (α := α) |>.mpr hpoints
    obtain ⟨axis, haxis⟩ := exists_compositeRule_iff.mpr hmesh
    exact ⟨axis, hlen, rule, hrule, haxis⟩

/-- **There is no composite Gauss rule** if the mesh has no element or does not increase, or if the number of
points is out of range. -/
theorem compositeGauss_eq_error_iff : (∃ cause, compositeGauss mesh points = .error cause) ↔
    mesh.length < 2 ∨ ¬mesh.Pairwise (· < ·) ∨ points < 1 ∨ 128 < points := by
  have hfail : (∃ cause, compositeGauss mesh points = .error cause) ↔
      ¬∃ axis, compositeGauss mesh points = .ok axis := by
    cases compositeGauss mesh points <;> simp
  rw [hfail, exists_compositeGauss_iff]
  simp only [not_and_or, Nat.not_le, Int.not_le]

end Meshes

/-! ## (2) Nodes and weights by number -/

section Numbers

variable {α : Type} [Scalar α] {rule : ReferenceRule α} {mesh : List α} {axis : CompositeRule α}
  {e i : Nat} {a b : α}

/-- **The nodes of an element** come one after the other. -/
theorem getElem?_nodes (h : compositeRule rule mesh = .ok axis) (ha : mesh[e]? = some a)
    (hb : mesh[e + 1]? = some b) (hi : i < rule.size) :
    axis.nodes[rule.size * e + i]? = (elementNodes rule a b)[i]? := by
  rw [← Array.getElem?_toList, compositeRule_nodes h,
    getElem?_flatMap_mul_add (fun e _ => length_elementNodes rule e.1 e.2) hi,
    getElem?_meshPairs.mpr ⟨ha, hb⟩, Option.bind_some]

/-- The weights of a composite rule are those of its elements, one element after the other. -/
theorem compositeRule_weights (h : compositeRule rule mesh = .ok axis) :
    axis.weights.toList = (meshPairs mesh).flatMap fun e => elementWeights rule e.1 e.2 := by
  obtain ⟨-, h⟩ := require_bind_eq_ok_iff.mp h
  rw [← Except.ok.inj h]

variable (hweights : rule.weights.length = rule.size)
include hweights

/-- A rule has as many weights on every element. -/
theorem length_elementWeights (a b : α) : (elementWeights rule a b).length = rule.size :=
  (List.length_map _).trans hweights

/-- **The weights of an element** come one after the other. -/
theorem getElem?_weights (h : compositeRule rule mesh = .ok axis) (ha : mesh[e]? = some a)
    (hb : mesh[e + 1]? = some b) (hi : i < rule.size) :
    axis.weights[rule.size * e + i]? = (elementWeights rule a b)[i]? := by
  rw [← Array.getElem?_toList, compositeRule_weights h,
    getElem?_flatMap_mul_add (fun e _ => length_elementWeights hweights e.1 e.2) hi,
    getElem?_meshPairs.mpr ⟨ha, hb⟩, Option.bind_some]

/-- **The number of weights** of a composite rule. -/
theorem compositeRule_weights_size (h : compositeRule rule mesh = .ok axis) :
    axis.weights.size = rule.size * (mesh.length - 1) := by
  rw [← Array.length_toList, compositeRule_weights h,
    length_flatMap_of_length fun e _ => length_elementWeights hweights e.1 e.2, length_meshPairs,
    Nat.mul_comm]

end Numbers

/-! ## (3) The order of the nodes -/

section Order

variable {K : Type} [Field K] [LinearOrder K] [IsStrictOrderedRing K] {rule : ReferenceRule K}
  {mesh : List K} {axis : CompositeRule K} {a b : K}

/-- The nodes of an element increase, if those of the reference rule do. -/
theorem pairwise_elementNodes (hascending : rule.nodes.Pairwise (· < ·)) (hab : a < b) :
    (elementNodes rule a b).Pairwise (· < ·) := by
  have hhalf : 0 < 1 / 2 * (b - a) := by linarith
  rw [elementNodes_eq, List.pairwise_map]
  exact hascending.imp fun hxy => add_lt_add_right (mul_lt_mul_of_pos_left hxy hhalf) _

variable (hinside : ∀ x ∈ rule.nodes, -1 < x ∧ x < 1)
include hinside

/-- **The nodes of a composite rule increase,** if those of the reference rule do and lie inside. -/
theorem pairwise_nodes (hascending : rule.nodes.Pairwise (· < ·))
    (h : compositeRule rule mesh = .ok axis) : axis.nodes.toList.Pairwise (· < ·) := by
  have hmesh := exists_compositeRule_iff.mp ⟨axis, h⟩
  have hlt := meshPairs_lt_iff.mpr hmesh
  rw [compositeRule_nodes h, List.pairwise_flatMap]
  refine ⟨fun e he => pairwise_elementNodes hascending (hlt e he), ?_⟩
  -- Between the nodes of different elements there is a break point.
  refine (pairwise_meshPairs hmesh).imp_of_mem fun {e e'} he he' hle x hx y hy => ?_
  calc x < e.2 := (elementNodes_between hinside (hlt e he) hx).2
    _ ≤ e'.1 := hle
    _ < y := (elementNodes_between hinside (hlt e' he') hy).1

/-- **A node lies strictly inside the element it belongs to.** -/
theorem node_between (h : compositeRule rule mesh = .ok axis) {e i : Nat} (hi : i < rule.size) {u : K}
    (ha : mesh[e]? = some a) (hb : mesh[e + 1]? = some b)
    (hu : axis.nodes[rule.size * e + i]? = some u) : a < u ∧ u < b := by
  have hlt := meshPairs_lt_iff.mpr (exists_compositeRule_iff.mp ⟨axis, h⟩)
  rw [getElem?_nodes h ha hb hi] at hu
  exact elementNodes_between hinside
    (hlt (a, b) (List.mem_of_getElem? (getElem?_meshPairs.mpr ⟨ha, hb⟩))) (List.mem_of_getElem? hu)

end Order

/-! ## (4) Weighted sums -/

section Sums

variable {K : Type} [Field K] [LinearOrder K]

/-- The weighted sum of the values at the nodes of a rule. -/
def ReferenceRule.weightedSum (rule : ReferenceRule K) (f : K → K) : K :=
  ∑ i ∈ Finset.range rule.size, rule.weights.getD i 0 * f (rule.nodes.getD i 0)

/-- The weighted sum of the values at the nodes with numbers from `first` to below `last`. -/
def CompositeRule.weightedSum (axis : CompositeRule K) (f : K → K) (first last : Nat) : K :=
  ∑ q ∈ Finset.Ico first last, axis.weights.getD q 0 * f (axis.nodes.getD q 0)

variable {rule : ReferenceRule K} {mesh : List K} {axis : CompositeRule K} {a b : K}

/-- **The part of a weighted sum that belongs to an element** is that of the reference rule, for the function
on the element. -/
theorem weightedSum_element (h : compositeRule rule mesh = .ok axis)
    (hweights : rule.weights.length = rule.size) {e : Nat} (ha : mesh[e]? = some a)
    (hb : mesh[e + 1]? = some b) (f : K → K) :
    axis.weightedSum f (rule.size * e) (rule.size * (e + 1)) =
      1 / 2 * (b - a) * rule.weightedSum fun x => f (1 / 2 * (a + b) + 1 / 2 * (b - a) * x) := by
  rw [CompositeRule.weightedSum, Finset.sum_Ico_eq_sum_range, Nat.mul_succ, Nat.add_sub_cancel_left,
    ReferenceRule.weightedSum, Finset.mul_sum]
  refine Finset.sum_congr rfl fun i hi => ?_
  have hi := Finset.mem_range.mp hi
  have hnode : axis.nodes.getD (rule.size * e + i) 0 =
      1 / 2 * (a + b) + 1 / 2 * (b - a) * rule.nodes.getD i 0 := by
    rw [Array.getD_eq_getD_getElem?, getElem?_nodes h ha hb hi, elementNodes_eq, List.getElem?_map,
      List.getD_eq_getElem?_getD, List.getElem?_eq_getElem hi]
    rfl
  have hweight : axis.weights.getD (rule.size * e + i) 0 = 1 / 2 * (b - a) * rule.weights.getD i 0 := by
    have hi' := hweights.symm ▸ hi
    rw [Array.getD_eq_getD_getElem?, getElem?_weights hweights h ha hb hi, elementWeights,
      Scalar.half_exact, List.getElem?_map, List.getD_eq_getElem?_getD, List.getElem?_eq_getElem hi']
    rfl
  rw [hnode, hweight, mul_assoc]

end Sums

/-! ## (5) Integrals -/

section Integrals

open intervalIntegral MeasureTheory

/-- **A reference rule that is exact up to a degree:** it has the integrals of all polynomials of at most this
degree over the reference interval. -/
def ReferenceRule.Exact (rule : ReferenceRule ℝ) (d : Nat) : Prop :=
  ∀ p : ℝ[X], p.natDegree ≤ d → (rule.weightedSum fun x => p.eval x) = ∫ x in (-1)..1, p.eval x

/-- **A function that is a polynomial of at most degree `d` inside each element of a mesh.** Its values at the
break points are arbitrary. -/
def PiecewisePolynomial (mesh : List ℝ) (d : Nat) (f : ℝ → ℝ) : Prop :=
  ∀ e ∈ meshPairs mesh, ∃ p : ℝ[X], p.natDegree ≤ d ∧ ∀ x, e.1 < x → x < e.2 → f x = p.eval x

variable {rule : ReferenceRule ℝ} {mesh : List ℝ} {axis : CompositeRule ℝ} {d : Nat} {f : ℝ → ℝ}
  {u v : ℝ}

/-- **An exact rule on another interval:** polynomials keep their degree when the variable is moved and
scaled. -/
theorem ReferenceRule.Exact.affine (h : rule.Exact d) {p : ℝ[X]} (hp : p.natDegree ≤ d) (a b : ℝ) :
    (1 / 2 * (b - a) * rule.weightedSum fun x => p.eval (1 / 2 * (a + b) + 1 / 2 * (b - a) * x)) =
      ∫ x in a..b, p.eval x := by
  set q := p.comp (C (1 / 2 * (b - a)) * X + C (1 / 2 * (a + b))) with hq
  have heval : ∀ x, q.eval x = p.eval (1 / 2 * (a + b) + 1 / 2 * (b - a) * x) := by
    intro x
    rw [hq, eval_comp, eval_add, eval_mul, eval_C, eval_X, eval_C, add_comm]
  have hdegree : q.natDegree ≤ d := by
    calc q.natDegree ≤ p.natDegree * (C (1 / 2 * (b - a)) * X + C (1 / 2 * (a + b))).natDegree :=
          natDegree_comp_le
      _ ≤ p.natDegree * 1 := Nat.mul_le_mul_left _ natDegree_linear_le
      _ ≤ d := (Nat.mul_one _).trans_le hp
  have hexact := h q hdegree
  simp only [heval] at hexact
  have hmoved := @mul_integral_comp_add_mul (-1) 1 (fun x => p.eval x) (1 / 2 * (b - a)) (1 / 2 * (a + b))
  rw [hexact, hmoved]
  congr 1 <;> ring

/-- **A composite rule is exact on an element** for what is a polynomial there. -/
theorem element_exact (hexact : rule.Exact d) (hinside : ∀ x ∈ rule.nodes, -1 < x ∧ x < 1)
    (hweights : rule.weights.length = rule.size) (h : compositeRule rule mesh = .ok axis)
    (hf : PiecewisePolynomial mesh d f) {e : Nat} (hu : mesh[e]? = some u) (hv : mesh[e + 1]? = some v) :
    IntervalIntegrable f volume u v ∧
      axis.weightedSum f (rule.size * e) (rule.size * (e + 1)) = ∫ x in u..v, f x := by
  have hmem := List.mem_of_getElem? (getElem?_meshPairs.mpr ⟨hu, hv⟩)
  have huv : u < v := meshPairs_lt_iff.mpr (exists_compositeRule_iff.mp ⟨axis, h⟩) _ hmem
  obtain ⟨p, hp, hfp⟩ := hf _ hmem
  have heq : Set.EqOn f (fun x => p.eval x) (Set.Ioo u v) := fun x hx => hfp x hx.1 hx.2
  constructor
  · rw [← Set.uIoo_of_le huv.le] at heq
    exact (p.continuous.intervalIntegrable u v).congr_uIoo heq.symm
  · rw [integral_congr_Ioo_of_le huv.le heq, weightedSum_element h hweights hu hv, ← hexact.affine hp u v,
      ReferenceRule.weightedSum, ReferenceRule.weightedSum]
    refine congrArg (1 / 2 * (v - u) * ·) (Finset.sum_congr rfl fun i hi => ?_)
    -- The nodes lie inside the element, where the function is the polynomial.
    have hi := Finset.mem_range.mp hi
    have hnode : rule.nodes.getD i 0 ∈ rule.nodes := by
      rw [List.getD_eq_getElem?_getD, List.getElem?_eq_getElem hi]
      exact List.getElem_mem hi
    obtain ⟨hlow, hhigh⟩ := elementNodes_between hinside huv (mem_elementNodes.mpr ⟨_, hnode, rfl⟩)
    rw [hfp _ hlow hhigh]

/-- **A composite rule is exact on every range of elements** for what is a polynomial on each of them. -/
theorem weightedSum_eq_integral (hexact : rule.Exact d) (hinside : ∀ x ∈ rule.nodes, -1 < x ∧ x < 1)
    (hweights : rule.weights.length = rule.size) (h : compositeRule rule mesh = .ok axis)
    (hf : PiecewisePolynomial mesh d f) {a b : Nat} (hab : a ≤ b) (hu : mesh[a]? = some u)
    (hv : mesh[b]? = some v) :
    IntervalIntegrable f volume u v ∧
      axis.weightedSum f (rule.size * a) (rule.size * b) = ∫ x in u..v, f x := by
  induction b, hab using Nat.le_induction generalizing v with
  | base =>
    obtain rfl := Option.some.inj (hu.symm.trans hv)
    refine ⟨IntervalIntegrable.refl, ?_⟩
    rw [CompositeRule.weightedSum, Finset.Ico_self, Finset.sum_empty, integral_same]
  | succ b hab ih =>
    obtain ⟨hlt, -⟩ := List.getElem?_eq_some_iff.mp hv
    have hw : mesh[b]? = some mesh[b] := List.getElem?_eq_getElem (Nat.lt_of_succ_lt hlt)
    obtain ⟨hbefore, hsum⟩ := ih hw
    obtain ⟨hlast, helement⟩ := element_exact hexact hinside hweights h hf hw hv
    refine ⟨hbefore.trans hlast, ?_⟩
    rw [← integral_add_adjacent_intervals hbefore hlast, ← hsum, ← helement]
    exact (Finset.sum_Ico_consecutive _ (Nat.mul_le_mul_left _ hab)
      (Nat.mul_le_mul_left _ (Nat.le_succ b))).symm

/-- **Composite rules are exact.** There is no composite Gauss rule if the mesh has no element or does not
increase, or if the number of points is not from 1 to 128, and only then. Let a reference rule have increasing
nodes inside the reference interval and integrate the polynomials up to some degree. On an increasing mesh with
an element it makes a composite rule, which is the Gauss rule of the mesh if the reference rule is the one on
the reference interval. Its nodes increase; those with numbers from `rule.size * e` to below
`rule.size * (e + 1)` lie strictly inside element `e`; and over any range of elements it integrates every
function that is a polynomial of at most this degree on each of them. -/
theorem compositeRule_exact [Circular ℝ] (hascending : rule.nodes.Pairwise (· < ·))
    (hinside : ∀ x ∈ rule.nodes, -1 < x ∧ x < 1) (hweights : rule.weights.length = rule.size)
    (hexact : rule.Exact d) (mesh : List ℝ) :
    (∀ points, (∃ cause, compositeGauss mesh points = .error cause) ↔
      mesh.length < 2 ∨ ¬mesh.Pairwise (· < ·) ∨ points < 1 ∨ 128 < points) ∧
    (2 ≤ mesh.length → mesh.Pairwise (· < ·) → ∃ axis, compositeRule rule mesh = .ok axis ∧
      (∀ points, gaussRule points = .ok rule →
        compositeGauss mesh points = .ok axis ∧ rule.size = points.toNat) ∧
      axis.perElement = rule.size ∧ axis.nodes.size = rule.size * (mesh.length - 1) ∧
      axis.weights.size = rule.size * (mesh.length - 1) ∧ axis.nodes.toList.Pairwise (· < ·) ∧
      (∀ e a b, mesh[e]? = some a → mesh[e + 1]? = some b →
        ∀ q, rule.size * e ≤ q → q < rule.size * (e + 1) → ∃ x, axis.nodes[q]? = some x ∧ a < x ∧ x < b) ∧
      ∀ f, PiecewisePolynomial mesh d f → ∀ a b u v, a ≤ b → mesh[a]? = some u → mesh[b]? = some v →
        axis.weightedSum f (rule.size * a) (rule.size * b) = ∫ x in u..v, f x) := by
  refine ⟨fun points => compositeGauss_eq_error_iff, fun hlen hmesh => ?_⟩
  obtain ⟨axis, h⟩ := exists_compositeRule_iff.mpr hmesh
  refine ⟨axis, h, fun points hgauss => ⟨compositeGauss_eq_ok_iff.mpr ⟨hlen, rule, hgauss, h⟩,
    (gaussRule_size hgauss).2⟩, ?_, compositeRule_size h, compositeRule_weights_size hweights h,
    pairwise_nodes hinside hascending h, fun e a b ha hb q hfirst hlast => ?_,
    fun f hf a b u v hab hu hv => (weightedSum_eq_integral hexact hinside hweights h hf hab hu hv).2⟩
  · obtain ⟨-, haxis⟩ := require_bind_eq_ok_iff.mp h
    rw [← Except.ok.inj haxis]
  · obtain ⟨i, rfl⟩ := Nat.exists_eq_add_of_le hfirst
    have hi : i < rule.size := by
      rw [Nat.mul_succ] at hlast
      omega
    obtain ⟨x, hx⟩ : ∃ x, (elementNodes rule a b)[i]? = some x :=
      ⟨_, List.getElem?_eq_getElem (hi.trans_eq (length_elementNodes rule a b).symm)⟩
    rw [← getElem?_nodes h ha hb hi] at hx
    exact ⟨x, hx, node_between hinside h hi ha hb hx⟩

/-! ## (6) The rule with one point -/

/-- The circular functions of real numbers. -/
noncomputable instance : Circular ℝ := ⟨Real.cos, Real.sin, Real.pi⟩

/-- The search for the root of the polynomial of degree one starts at the root. -/
theorem gaussRoot_one : gaussRoot 1 0 = (0 : ℝ) := by
  have hangle : Real.pi * (0 + 3 / 4) / (1 + 1 / 2) = Real.pi / 2 := by ring
  have hestimate : (Circular.cos : ℝ → ℝ) (Circular.pi * (Scalar.ofNat 0 + Scalar.ofNat 3 / Scalar.ofNat 4) /
      (Scalar.ofNat 1 + Scalar.half)) = 0 := by
    simp only [Scalar.ofNat_exact, Scalar.half_exact, Nat.cast_zero, Nat.cast_one, Nat.cast_ofNat]
    exact (congrArg Real.cos hangle).trans Real.cos_pi_div_two
  rw [gaussRoot, hestimate]
  exact newtonRoot_of_root rfl 100

/-- The Gauss rule with one point is the midpoint rule. -/
theorem gaussRule_one : gaussRule 1 = .ok (⟨[0], [2]⟩ : ReferenceRule ℝ) := by
  have hweight : gaussWeight 1 (0 : ℝ) = 2 := by
    simp [gaussWeight, legendre, legendrePair]
  have hroots : (Array.range ((1 + 1) / 2)).map (fun i => gaussRoot 1 i) = #[(0 : ℝ)] := by
    have hrange : Array.range ((1 + 1) / 2) = #[0] := by decide
    rw [hrange]
    simp [gaussRoot_one]
  simp only [gaussRule, Int.toNat_one, hroots]
  simp [hweight]
  rfl

/-- The midpoint rule is exact for linear functions. -/
theorem exact_midpoint : (⟨[0], [2]⟩ : ReferenceRule ℝ).Exact 1 := by
  intro p hp
  obtain ⟨a, b, rfl⟩ := exists_eq_X_add_C_of_natDegree_le_one hp
  have hlinear : ∀ x : ℝ, (C a * X + C b).eval x = a * x + b := fun x => by simp
  have hconst : IntervalIntegrable (fun _ : ℝ => b) volume (-1) 1 := intervalIntegrable_const
  have hscaled : IntervalIntegrable (fun x : ℝ => a * x) volume (-1) 1 :=
    (continuous_const.mul continuous_id).intervalIntegrable _ _
  have hodd : ∫ x in (-1 : ℝ)..1, a * x = 0 := by
    rw [intervalIntegral.integral_const_mul, integral_id]
    norm_num
  simp only [hlinear, integral_add hscaled hconst, hodd, intervalIntegral.integral_const]
  simp [ReferenceRule.weightedSum, ReferenceRule.size]
  norm_num

/-- On two elements the midpoint rule integrates a function that is linear on each of them and jumps in
between; there are no rules with more than 128 points. -/
theorem compositeRule_exact_midpoint :
    (∃ axis, compositeGauss [0, 1, (3 : ℝ)] 1 = .ok axis ∧
      axis.weightedSum (fun x => if x < 1 then 3 * x else 5 - x) 1 2 =
        ∫ x in (1 : ℝ)..3, if x < 1 then 3 * x else 5 - x) ∧
    ∃ cause, compositeGauss [0, 1, (3 : ℝ)] 129 = .error cause := by
  have hmesh : [0, 1, (3 : ℝ)].Pairwise (· < ·) := by
    simp
  have hpiecewise : PiecewisePolynomial [0, 1, 3] 1 fun x => if x < 1 then 3 * x else 5 - x := by
    have hpairs : meshPairs [0, 1, (3 : ℝ)] = [(0, 1), (1, 3)] := rfl
    simp only [PiecewisePolynomial, hpairs, List.forall_mem_cons]
    refine ⟨⟨C 3 * X + C 0, natDegree_linear_le, fun x _ hx => ?_⟩,
      ⟨C (-1) * X + C 5, natDegree_linear_le, fun x hx _ => ?_⟩, fun _ he => nomatch he⟩
    · simp [hx]
    · simp [hx.not_gt]
      ring
  obtain ⟨hfail, hsuccess⟩ := @compositeRule_exact ⟨[0], [2]⟩ 1 _ (List.pairwise_singleton _ _)
    (by simp) rfl exact_midpoint [0, 1, (3 : ℝ)]
  obtain ⟨axis, -, hgauss, -, -, -, -, -, hsum⟩ := hsuccess (by simp) hmesh
  refine ⟨⟨axis, (hgauss 1 gaussRule_one).1, ?_⟩, (hfail 129).mpr (.inr (.inr (.inr (by decide))))⟩
  exact hsum _ hpiecewise 1 2 1 3 (by decide) rfl rfl

end Integrals

end Galerkin
