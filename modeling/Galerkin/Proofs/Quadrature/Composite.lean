import Galerkin.Proofs.Basis.Mesh
import Galerkin.Proofs.Index.Arrays
import Galerkin.Proofs.Index.Box
import Galerkin.Quadrature.Composite
import Mathlib.Tactic.Linarith

/-! # Nodes of composite rules

A composite rule lists the nodes element by element. If the nodes of the reference rule lie strictly
inside the reference interval, node `q` lies strictly inside the element with number `q / perElement`.

* **`compositeGauss_size`** — the number of nodes, whatever the arithmetic;
* **`gauss_eq_ok_iff`** — a grid has one composite Gauss rule per axis;
* **`axes_of_gauss`** — it has an axis, and nodes on every axis;
* **`compositeRule_node`** — the nodes of a composite rule and the elements they lie in;
* **`compositeGauss_mesh`** — the nodes on the mesh of a knot vector. -/

namespace Galerkin

/-! ## (1) One axis -/

variable {K : Type}

/-- An element of a mesh lies between two neighbouring break points. -/
theorem getElem?_meshPairs {mesh : List K} {e : Nat} {a b : K} :
    (meshPairs mesh)[e]? = some (a, b) ↔ mesh[e]? = some a ∧ mesh[e + 1]? = some b := by
  rw [meshPairs, List.getElem?_zip_eq_some, List.getElem?_tail]

/-- There is one element less than there are break points. -/
theorem length_meshPairs (mesh : List K) : (meshPairs mesh).length = mesh.length - 1 := by
  rw [meshPairs, List.length_zip, List.length_tail]
  omega

section Counts

variable {α : Type} [Scalar α]

/-- A rule has as many nodes on every element. -/
theorem length_elementNodes (rule : ReferenceRule α) (a b : α) :
    (elementNodes rule a b).length = rule.size := List.length_map _

/-- A composite rule has the nodes of its elements, one element after the other. -/
theorem compositeRule_nodes {rule : ReferenceRule α} {mesh : List α} {axis : CompositeRule α}
    (h : compositeRule rule mesh = .ok axis) :
    axis.nodes.toList = (meshPairs mesh).flatMap fun e => elementNodes rule e.1 e.2 := by
  obtain ⟨-, h⟩ := require_bind_eq_ok_iff.mp h
  rw [← Except.ok.inj h]

/-- **The number of nodes** of a composite rule. -/
theorem compositeRule_size {rule : ReferenceRule α} {mesh : List α} {axis : CompositeRule α}
    (h : compositeRule rule mesh = .ok axis) : axis.nodes.size = rule.size * (mesh.length - 1) := by
  rw [← Array.length_toList, compositeRule_nodes h, List.length_flatMap]
  simp only [length_elementNodes, List.map_const', List.sum_replicate_nat]
  rw [length_meshPairs, Nat.mul_comm]

/-- **A node of a composite rule** is one of its element. -/
theorem compositeRule_node {rule : ReferenceRule α} {mesh : List α} {axis : CompositeRule α}
    (h : compositeRule rule mesh = .ok axis) (hpos : 0 < rule.size) {q : Nat} {u : α}
    (hu : axis.nodes[q]? = some u) : ∃ a b, mesh[q / rule.size]? = some a ∧
      mesh[q / rule.size + 1]? = some b ∧ u ∈ elementNodes rule a b := by
  rw [← Array.getElem?_toList, compositeRule_nodes h,
    getElem?_flatMap hpos fun e _ => length_elementNodes rule e.1 e.2, Option.bind_eq_some_iff] at hu
  obtain ⟨⟨a, b⟩, hab, hu⟩ := hu
  obtain ⟨ha, hb⟩ := getElem?_meshPairs.mp hab
  exact ⟨a, b, ha, hb, List.mem_of_getElem? hu⟩

variable [Circular α]

/-- A Gauss rule has the number of nodes asked for. -/
theorem gaussRule_size {points : Int} {rule : ReferenceRule α} (h : gaussRule points = .ok rule) :
    1 ≤ points ∧ rule.size = points.toNat := by
  obtain ⟨hlow, h⟩ := require_bind_eq_ok_iff.mp h
  obtain ⟨-, h⟩ := require_bind_eq_ok_iff.mp h
  obtain rfl := Except.ok.inj h
  refine ⟨of_decide_eq_true hlow, ?_⟩
  rw [ReferenceRule.size, List.length_map, List.length_range]

/-- A composite Gauss rule is the composite rule of a Gauss rule. -/
theorem compositeGauss_eq_ok_iff {mesh : List α} {points : Int} {axis : CompositeRule α} :
    compositeGauss mesh points = .ok axis ↔ 2 ≤ mesh.length ∧
      ∃ rule, gaussRule points = .ok rule ∧ compositeRule rule mesh = .ok axis := by
  rw [compositeGauss, require_bind_eq_ok_iff, decide_eq_true_iff, bind_eq_ok_iff]

/-- **Every element has the number of Gauss nodes asked for.** -/
theorem compositeGauss_size {mesh : List α} {points : Nat} {axis : CompositeRule α}
    (h : compositeGauss mesh points = .ok axis) : axis.nodes.size = points * (mesh.length - 1) := by
  obtain ⟨-, rule, hgauss, hcomp⟩ := compositeGauss_eq_ok_iff.mp h
  rw [compositeRule_size hcomp, (gaussRule_size hgauss).2, Int.toNat_natCast]

/-- A composite Gauss rule has a node. -/
theorem compositeGauss_size_pos {mesh : List α} {points : Nat} {axis : CompositeRule α}
    (h : compositeGauss mesh points = .ok axis) : 0 < axis.nodes.size := by
  obtain ⟨hmesh, rule, hgauss, -⟩ := compositeGauss_eq_ok_iff.mp h
  have hpoints := (gaussRule_size hgauss).1
  rw [compositeGauss_size h]
  exact Nat.mul_pos (by omega) (by omega)

/-- **A grid has one composite Gauss rule per axis.** -/
theorem gauss_eq_ok_iff {meshes : List (List α)} {points : Int} {grid : TensorQuadrature α} :
    TensorQuadrature.gauss meshes points = .ok grid ↔ meshes ≠ [] ∧
      List.Forall₂ (fun mesh axis => compositeGauss mesh points = .ok axis) meshes grid.axes := by
  rw [TensorQuadrature.gauss, require_bind_eq_ok_iff, bind_eq_ok_iff, Bool.not_eq_true',
    List.isEmpty_eq_false_iff]
  refine and_congr_right fun _ => ?_
  constructor
  · rintro ⟨axes, haxes, h⟩
    obtain rfl := Except.ok.inj h
    exact mapM_eq_ok_iff.mp haxes
  · exact fun h => ⟨grid.axes, mapM_eq_ok_iff.mpr h, rfl⟩

/-- **A grid has an axis, and nodes on every axis.** -/
theorem axes_of_gauss {meshes : List (List α)} {points : Nat} {grid : TensorQuadrature α}
    (h : TensorQuadrature.gauss meshes points = .ok grid) :
    grid.axes ≠ [] ∧ ∀ axis ∈ grid.axes, 0 < axis.nodes.size := by
  obtain ⟨hmeshes, haxes⟩ := gauss_eq_ok_iff.mp h
  refine ⟨fun hnil => ?_, fun axis haxis => ?_⟩
  · rw [hnil] at haxes
    exact hmeshes (List.forall₂_nil_right_iff.mp haxes)
  · obtain ⟨n, hn, rfl⟩ := List.getElem_of_mem haxis
    exact compositeGauss_size_pos (haxes.get (haxes.length_eq ▸ hn) hn)

/-- A grid has a node. -/
theorem nodeCount_pos_of_gauss {meshes : List (List α)} {points : Nat} {grid : TensorQuadrature α}
    (h : TensorQuadrature.gauss meshes points = .ok grid) : 0 < nodeCount grid.shape := by
  obtain ⟨haxes, hnodes⟩ := axes_of_gauss h
  exact nodeCount_pos (fun hnil => haxes (List.map_eq_nil_iff.mp hnil)) (List.forall_mem_map.mpr hnodes)

end Counts

variable [Field K] [LinearOrder K]

/-- The elements of a mesh have positive length. -/
theorem KnotVector.lt_of_mem_meshPairs (kv : KnotVector K) {a b : K}
    (h : (a, b) ∈ meshPairs kv.mesh.toList) : a < b := by
  obtain ⟨e, he⟩ := List.mem_iff_getElem?.mp h
  obtain ⟨ha, hb⟩ := getElem?_meshPairs.mp he
  obtain ⟨hlt, rfl⟩ := List.getElem?_eq_some_iff.mp ha
  obtain ⟨hlt', rfl⟩ := List.getElem?_eq_some_iff.mp hb
  exact List.pairwise_iff_getElem.mp kv.pairwise_mesh e (e + 1) hlt hlt' (Nat.lt_succ_self e)

/-- One half. -/
theorem Scalar.half_exact : (Scalar.half : K) = 1 / 2 := by
  rw [Scalar.half, Scalar.ofNat_exact, Scalar.ofNat_exact, Nat.cast_one, Nat.cast_ofNat]

/-- **The nodes of an element** are those of the reference rule, moved to its middle and scaled to its
length. -/
theorem elementNodes_eq (rule : ReferenceRule K) (a b : K) :
    elementNodes rule a b = rule.nodes.map fun x => 1 / 2 * (a + b) + 1 / 2 * (b - a) * x := by
  rw [elementNodes, Scalar.half_exact]

theorem mem_elementNodes {rule : ReferenceRule K} {a b u : K} :
    u ∈ elementNodes rule a b ↔ ∃ x ∈ rule.nodes, 1 / 2 * (a + b) + 1 / 2 * (b - a) * x = u := by
  rw [elementNodes_eq, List.mem_map]

/-- **A node of an element lies strictly inside it,** if those of the reference rule do. -/
theorem elementNodes_between [IsStrictOrderedRing K] {rule : ReferenceRule K}
    (hrule : ∀ x ∈ rule.nodes, -1 < x ∧ x < 1) {a b u : K} (hab : a < b)
    (hu : u ∈ elementNodes rule a b) : a < u ∧ u < b := by
  obtain ⟨x, hx, rfl⟩ := mem_elementNodes.mp hu
  obtain ⟨hlow, hhigh⟩ := hrule x hx
  have hlen : 0 < 1 / 2 * (b - a) := by linarith
  constructor
  · have := mul_lt_mul_of_pos_left hlow hlen
    linarith
  · have := mul_lt_mul_of_pos_left hhigh hlen
    linarith

/-- **How far a node lies from the ends of its element,** if those of the reference rule are at most `r` from
the middle. -/
theorem elementNodes_distance [IsStrictOrderedRing K] {rule : ReferenceRule K} {r : K}
    (hrule : ∀ x ∈ rule.nodes, -r ≤ x ∧ x ≤ r) {a b u : K} (hab : a ≤ b)
    (hu : u ∈ elementNodes rule a b) :
    1 / 2 * (b - a) * (1 - r) ≤ u - a ∧ 1 / 2 * (b - a) * (1 - r) ≤ b - u := by
  obtain ⟨x, hx, rfl⟩ := mem_elementNodes.mp hu
  obtain ⟨hlow, hhigh⟩ := hrule x hx
  have hlen : 0 ≤ 1 / 2 * (b - a) := by linarith
  constructor
  · have := mul_le_mul_of_nonneg_left hlow hlen
    linarith
  · have := mul_le_mul_of_nonneg_left hhigh hlen
    linarith

/-! ## (2) Gauss rules -/

variable [Circular K]

/-- A Gauss rule exists on every mesh if it exists on the reference interval. -/
theorem exists_compositeGauss (kv : KnotVector K) {points : Int} {rule : ReferenceRule K}
    (h : gaussRule points = .ok rule) : ∃ axis, compositeGauss kv.mesh.toList points = .ok axis := by
  refine ⟨_, compositeGauss_eq_ok_iff.mpr ⟨kv.two_le_size_mesh, rule, h,
    require_bind_eq_ok_iff.mpr ⟨List.all_eq_true.mpr fun e he => ?_, rfl⟩⟩⟩
  exact decide_eq_true (kv.lt_of_mem_meshPairs he)

/-- **A Gauss node on the mesh of a knot vector** is one of its element. -/
theorem compositeGauss_node {kv : KnotVector K} {points : Nat} {axis : CompositeRule K}
    (h : compositeGauss kv.mesh.toList points = .ok axis) {q : Nat} {u : K} (hu : axis.nodes[q]? = some u) :
    q / points < kv.elements ∧ ∃ rule, gaussRule points = .ok rule ∧
      u ∈ elementNodes rule (knotAt kv.mesh (q / points)) (knotAt kv.mesh (q / points + 1)) := by
  obtain ⟨-, rule, hgauss, hcomp⟩ := compositeGauss_eq_ok_iff.mp h
  obtain ⟨hpos, hsize⟩ := gaussRule_size hgauss
  rw [Int.toNat_natCast] at hsize
  obtain ⟨a, b, ha, hb, hu⟩ := compositeRule_node hcomp (by omega) hu
  rw [hsize, Array.getElem?_toList] at ha hb
  obtain ⟨he, rfl⟩ := Array.getElem?_eq_some_iff.mp ha
  obtain ⟨he', rfl⟩ := Array.getElem?_eq_some_iff.mp hb
  rw [← kv.knotAt_mesh, ← kv.knotAt_mesh] at hu
  have hmesh := kv.size_mesh
  exact ⟨by omega, rule, hgauss, hu⟩

/-- **The Gauss nodes on the mesh of a knot vector:** every element has `points` of them, one after the
other, and they lie strictly inside it. -/
theorem compositeGauss_mesh [IsStrictOrderedRing K] {kv : KnotVector K} {points : Nat}
    {axis : CompositeRule K} (h : compositeGauss kv.mesh.toList points = .ok axis)
    (hrule : ∀ rule : ReferenceRule K, gaussRule points = .ok rule →
      ∀ x ∈ rule.nodes, -1 < x ∧ x < 1) :
    0 < points ∧ axis.nodes.size = points * kv.elements ∧
      ∀ q u, axis.nodes[q]? = some u → q / points < kv.elements ∧
        knotAt kv.mesh (q / points) < u ∧ u < knotAt kv.mesh (q / points + 1) := by
  have hmesh := kv.size_mesh
  obtain ⟨-, rule, hgauss, -⟩ := compositeGauss_eq_ok_iff.mp h
  have hpos := (gaussRule_size hgauss).1
  have hcount := compositeGauss_size h
  rw [Array.length_toList, hmesh, Nat.add_sub_cancel] at hcount
  refine ⟨by omega, hcount, fun q u hu => ?_⟩
  obtain ⟨he, rule, hgauss, hu⟩ := compositeGauss_node h hu
  exact ⟨he, elementNodes_between (hrule rule hgauss) (kv.mesh_lt (Nat.lt_succ_self _) (by omega)) hu⟩

end Galerkin
