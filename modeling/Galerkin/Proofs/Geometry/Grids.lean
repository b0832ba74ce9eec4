import Galerkin.Proofs.Geometry.Images
import Galerkin.Proofs.Index.Nodes

/-! # Values over grids

A map is sampled at the nodes of a grid, one after the other. So the values of a node are found at its number, and
they are those at the point whose coordinates the digits of the number select.

* **`TensorQuadrature.PointOf`** — the point of a node;
* **`GeometryMap.sampleGrid_spec`** — where the values of a node are;
* **`GeometryMap.Made.length_jacobianAt`** — a Jacobian is a square matrix;
* **`GeometryMap.Made.grid_values`** — images and Jacobians over a grid. -/

namespace Galerkin

open MultiIndex

variable {α : Type}

namespace TensorQuadrature

/-! ## (1) Nodes -/

/-- A shape has an extent for each axis. -/
theorem length_shape (grid : TensorQuadrature α) : grid.shape.length = grid.dim := List.length_map _

variable [Scalar α] {grid : TensorQuadrature α}

/-- **A coordinate of a node** is the node of its axis that the index selects. -/
theorem getElem?_point {index : List Nat} (h : List.Forall₂ (· < ·) index grid.shape) {k i : Nat}
    {axis : CompositeRule α} (haxis : grid.axes[k]? = some axis) (hi : index[k]? = some i) :
    (grid.point index)[k]? = axis.nodes[i]? := by
  obtain ⟨hk, rfl⟩ := List.getElem?_eq_some_iff.mp hi
  obtain ⟨hk', rfl⟩ := List.getElem?_eq_some_iff.mp haxis
  have hshape : k < grid.shape.length := grid.length_shape ▸ hk'
  have hlt : index[k] < grid.axes[k].nodes.size := by
    have hinside := h.get hk hshape
    simpa only [List.get_eq_getElem, shape, List.getElem_map] using hinside
  rw [point, List.getElem?_zipWith, List.getElem?_eq_getElem hk', List.getElem?_eq_getElem hk,
    Array.getElem?_eq_getElem hlt]
  exact congrArg some (Array.getElem_eq_getD Scalar.zero).symm

/-- A node has one coordinate for each axis. -/
theorem length_point {index : List Nat} (h : index.length = grid.dim) : (grid.point index).length = grid.dim := by
  rw [point, List.length_zipWith, h, dim, Nat.min_self]

/-- **The point of node `n`:** its `k`-th coordinate is the node of axis `k` that the `k`-th digit of `n`
selects. -/
def PointOf (grid : TensorQuadrature α) (n : Nat) (xi : List α) : Prop :=
  xi.length = grid.dim ∧ ∀ (k i : Nat) (axis : CompositeRule α), grid.axes[k]? = some axis →
    (MultiIndex.multiIndex n grid.shape)[k]? = some i → xi[k]? = axis.nodes[i]?

/-- A grid has a point for each of its nodes. -/
theorem pointOf_point {n : Nat} (hn : n < nodeCount grid.shape) :
    grid.PointOf n (grid.point (MultiIndex.multiIndex n grid.shape)) := by
  obtain ⟨hdigits, -⟩ := multiIndex_node hn
  exact ⟨length_point (hdigits.length_eq.trans grid.length_shape), fun _ _ _ => getElem?_point hdigits⟩

end TensorQuadrature

namespace GeometryMap

/-! ## (2) Sampling -/

variable [Scalar α] {map : GeometryMap α} {grid : TensorQuadrature α}

/-- **The values of a node are found at its number:** sampling a function that gives every point of the right
dimension so many values. -/
theorem sampleGrid_spec (hdim : grid.dim = map.dim) {components : Nat} {f : List α → Except Error (List α)}
    {value : List α → List α}
    (hf : ∀ xi, xi.length = map.dim → f xi = .ok (value xi) ∧ (value xi).length = components) :
    ∃ values, map.sampleGrid grid components f = .ok values ∧ ∀ n < nodeCount grid.shape, ∀ c < components,
      values.get? n c = (value (grid.point (MultiIndex.multiIndex n grid.shape)))[c]? := by
  have hlength : ∀ n < nodeCount grid.shape, (grid.point (MultiIndex.multiIndex n grid.shape)).length = map.dim :=
    fun n hn => (TensorQuadrature.pointOf_point hn).1.trans hdim
  have hwalk : (gridNodes grid.shape).mapM (fun index => f (grid.point index)) =
      .ok ((gridNodes grid.shape).map fun index => value (grid.point index)) := by
    refine mapM_eq_ok_map fun index hindex => ?_
    rw [gridNodes_eq_map, List.mem_map] at hindex
    obtain ⟨n, hn, rfl⟩ := hindex
    exact (hf _ (hlength n (List.mem_range.mp hn))).1
  have hrun : map.sampleGrid grid components f = .ok (GridArray.ofNodes grid.shape components
      (((gridNodes grid.shape).map fun index => value (grid.point index)).map List.toArray)) :=
    require_bind_eq_ok_iff.mpr ⟨beq_iff_eq.mpr hdim, bind_eq_ok_iff.mpr ⟨_, hwalk, rfl⟩⟩
  -- The nodes are walked over in the order of their numbers.
  refine ⟨_, hrun, fun n hn c hc => ?_⟩
  rw [gridNodes_eq_map, List.map_map, List.map_map, GridArray.get?_ofNodes ?sizes n hc, List.getElem?_map,
    List.getElem?_range hn]
  case sizes =>
    intro node hnode
    obtain ⟨m, hm, rfl⟩ := List.mem_map.mp hnode
    exact List.size_toArray.trans (hf _ (hlength m (List.mem_range.mp hm))).2
  exact List.getElem?_toArray

/-- A diagonal matrix is square. -/
theorem length_diagonal (entries : List α) : (diagonal entries).length = entries.length * entries.length := by
  rw [diagonal, length_flatMap_of_length (n := entries.length) fun _ _ => ?_, List.length_zipIdx]
  rw [List.length_map, List.length_range]

variable [Circular α]

/-- **A Jacobian is a square matrix.** -/
theorem Made.length_jacobianAt (hmap : map.Made) (xi : List α) :
    (map.jacobianAt xi).length = map.dim * map.dim := by
  obtain ⟨d, rfl⟩ | ⟨lower, upper, hcorners, rfl⟩ | ⟨inner, outer, rfl⟩ | ⟨d, e, j, rfl⟩ := hmap.forms
  · rw [jacobianAt, length_diagonal, List.length_replicate, dim]
  · rw [jacobianAt, length_diagonal, List.length_zipWith, ← hcorners, Nat.min_self, dim]
  · rfl
  · exact length_fitted _ _

/-- A point of the right dimension has an image. -/
theorem evaluate_eq_ok {xi : List α} (hxi : xi.length = map.dim) :
    map.evaluate xi map.dim = .ok (map.image xi) := by
  rw [evaluate, checkSizes, hxi]
  simp only [beq_self_eq_true]
  rfl

/-- A point of the right dimension has a Jacobian. -/
theorem jacobian_eq_ok {xi : List α} (hxi : xi.length = map.dim) :
    map.jacobian xi (map.dim * map.dim) = .ok (map.jacobianAt xi) := by
  rw [jacobian, checkSizes, hxi]
  simp only [beq_self_eq_true]
  rfl

/-- **Two arrays hold a map over a grid:** at the number of each node its image and its Jacobian. -/
def HeldBy (map : GeometryMap α) (grid : TensorQuadrature α) (images jacobians : GridArray α) : Prop :=
  ∀ n < nodeCount grid.shape, ∃ xi x j, grid.PointOf n xi ∧
    map.evaluate xi map.dim = .ok x ∧ x.length = map.dim ∧ (∀ c < map.dim, images.get? n c = x[c]?) ∧
    map.jacobian xi (map.dim * map.dim) = .ok j ∧ j.length = map.dim * map.dim ∧
    ∀ c < map.dim * map.dim, jacobians.get? n c = j[c]?

/-- **Images and Jacobians over a grid** of the dimension of a map. -/
theorem Made.grid_values (hmap : map.Made) (hdim : grid.dim = map.dim) :
    ∃ images jacobians, map.onGrid grid = .ok images ∧ map.jacobianOnGrid grid = .ok jacobians ∧
      map.HeldBy grid images jacobians := by
  obtain ⟨images, himages, himage⟩ := sampleGrid_spec (f := fun xi => map.evaluate xi map.dim) hdim
    fun xi hxi => ⟨evaluate_eq_ok hxi, hmap.length_image hxi⟩
  obtain ⟨jacobians, hjacobians, hjacobian⟩ := sampleGrid_spec
    (f := fun xi => map.jacobian xi (map.dim * map.dim)) hdim
    fun xi hxi => ⟨jacobian_eq_ok hxi, hmap.length_jacobianAt xi⟩
  refine ⟨images, jacobians, himages, hjacobians, fun n hn => ?_⟩
  have hpoint := TensorQuadrature.pointOf_point hn
  have hlength := hpoint.1.trans hdim
  exact ⟨_, _, _, hpoint, evaluate_eq_ok hlength, hmap.length_image hlength, himage n hn, jacobian_eq_ok hlength,
    hmap.length_jacobianAt _, hjacobian n hn⟩

end GeometryMap

end Galerkin
