import Galerkin.Geometry.Map
import Galerkin.Proofs.Index.Arrays
import Galerkin.Proofs.Index.Box
import Galerkin.Proofs.Steps

/-! # Images of points

Maps that are made take a point to a point with as many coordinates. So their physical coordinates over a
grid with nodes are there.

* **`GeometryMap.Made`** — the maps that can be made; **`GeometryMap.Made.forms`** says what they look like;
* **`GeometryMap.Made.length_image`** — an image has one coordinate per axis;
* **`GeometryMap.Made.onGrid_not_empty`** — images of the nodes of a grid. -/

namespace Galerkin

variable {α : Type}

namespace GeometryMap

variable [Scalar α]

/-- **The maps that can be made.** -/
inductive Made : GeometryMap α → Prop
  | identity {dim : Int} {map : GeometryMap α} (h : ofDim dim = .ok map) : Made map
  | box {lower upper : List α} {map : GeometryMap α} (h : ofCorners lower upper = .ok map) : Made map
  | annulus {inner outer : α} {map : GeometryMap α} (h : ofRadii inner outer = .ok map) : Made map
  | functions {dim : Int} {evaluation jacobian : Option (List α → List α)} {map : GeometryMap α}
      (h : ofFunctions dim evaluation jacobian = .ok map) : Made map

/-- A list is cut or filled to the length asked for. -/
theorem length_fitted (n : Nat) (xs : List α) : (fitted n xs).length = n := by
  rw [fitted, List.length_append, List.length_take, List.length_replicate]
  omega

/-- **The form of a map says how it was made.** A box has as many upper bounds as lower ones. -/
theorem Made.forms {map : GeometryMap α} (hmap : map.Made) :
    (∃ d, map = .identity d) ∨
      (∃ lower upper : List α, lower.length = upper.length ∧ map = .box lower upper) ∨
      (∃ inner outer, map = .annulus inner outer) ∨
      ∃ d evaluation jacobian, map = .given d evaluation jacobian := by
  cases hmap with
  | identity h =>
    obtain ⟨-, h⟩ := require_bind_eq_ok_iff.mp h
    exact .inl ⟨_, (Except.ok.inj h).symm⟩
  | box h =>
    obtain ⟨-, h⟩ := require_bind_eq_ok_iff.mp h
    obtain ⟨hcorners, h⟩ := require_bind_eq_ok_iff.mp h
    split at h
    · cases h
    · exact .inr (.inl ⟨_, _, eq_of_beq hcorners, (Except.ok.inj h).symm⟩)
  | annulus h =>
    obtain ⟨-, h⟩ := require_bind_eq_ok_iff.mp h
    exact .inr (.inr (.inl ⟨_, _, (Except.ok.inj h).symm⟩))
  | functions h =>
    obtain ⟨-, h⟩ := require_bind_eq_ok_iff.mp h
    split at h
    · cases h
    · cases h
    · exact .inr (.inr (.inr ⟨_, _, _, (Except.ok.inj h).symm⟩))

variable [Circular α]

/-- **An image has one coordinate per axis.** -/
theorem Made.length_image {map : GeometryMap α} (hmap : map.Made) {xi : List α}
    (hxi : xi.length = map.dim) : (map.image xi).length = map.dim := by
  obtain ⟨d, rfl⟩ | ⟨lower, upper, hcorners, rfl⟩ | ⟨inner, outer, rfl⟩ | ⟨d, e, j, rfl⟩ := hmap.forms
  · exact hxi
  · simp only [dim] at hxi
    simp only [image, dim, List.length_zipWith, List.length_zip]
    omega
  · rfl
  · exact length_fitted _ _

/-- There are physical coordinates for every node of a grid with axes. -/
theorem nodes_onGrid {map : GeometryMap α} {grid : TensorQuadrature α} (haxes : grid.axes ≠ [])
    {points : GridArray α} (h : map.onGrid grid = .ok points) : points.nodes = nodeCount grid.shape := by
  obtain ⟨-, h⟩ := require_bind_eq_ok_iff.mp h
  obtain ⟨values, hvalues, h⟩ := bind_eq_ok_iff.mp h
  obtain rfl := Except.ok.inj h
  have hshape : grid.shape ≠ [] := fun hnil => haxes (List.map_eq_nil_iff.mp hnil)
  rw [← length_gridNodes hshape, (mapM_eq_ok_iff.mp hvalues).length_eq]
  exact List.length_map _

/-- **The physical coordinates of a grid** with nodes on every axis are there. -/
theorem Made.onGrid_not_empty {map : GeometryMap α} (hmap : map.Made) {grid : TensorQuadrature α}
    (haxes : grid.axes ≠ []) (hnodes : ∀ axis ∈ grid.axes, 0 < axis.nodes.size) {points : GridArray α}
    (h : map.onGrid grid = .ok points) : points.isEmpty = false := by
  obtain ⟨hdim, h⟩ := require_bind_eq_ok_iff.mp h
  obtain ⟨values, hvalues, h⟩ := bind_eq_ok_iff.mp h
  obtain rfl := Except.ok.inj h
  have hshape : grid.shape ≠ [] := fun hnil => haxes (List.map_eq_nil_iff.mp hnil)
  -- The first node of the grid has an image, and that has coordinates.
  have horigin : (grid.shape.map fun _ => 0) ∈ gridNodes grid.shape :=
    origin_mem_gridNodes hshape (List.forall_mem_map.mpr hnodes)
  obtain ⟨image, himage, hstep⟩ := exists_step_of_mapM hvalues horigin
  obtain ⟨⟨⟩, hsizes, himageeq⟩ := bind_eq_ok_iff.mp hstep
  obtain ⟨hlength, -⟩ := require_bind_eq_ok_iff.mp hsizes
  obtain rfl := Except.ok.inj himageeq
  refine GridArray.ofNodes_not_empty (List.mem_map_of_mem himage) ?_
  rw [List.size_toArray, hmap.length_image (eq_of_beq hlength), ← eq_of_beq hdim]
  exact List.length_pos_iff.mpr haxes

end GeometryMap

end Galerkin
