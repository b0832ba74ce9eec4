import Galerkin.Proofs.Index.Nodes
import Galerkin.Proofs.Kernel.Precomputed

/-! # Geometry fields

The array of a geometry field has the components that the field keeps, and all of them are zero at first. The
weight goes to the first component of each node, so it fits every field. The transposed inverse goes to as many
components as the Jacobian has entries. At the last node there is no room for it if the field keeps fewer, so
there are no data for forms with such a field.

* **`exists_weightField`** — the weight, and zeros behind it;
* **`exists_inverseTransposedField_iff`**, **`inverseTransposedField_spec`** — the transposed inverse, and
  zeros behind it, where there is room;
* **`CompiledKernel.geometry_of_prepare`** — geometry fields of prepared data. -/

namespace Galerkin

variable {α : Type}

/-! ## (1) Arrays of zeros -/

namespace GridArray

variable {shape : List Nat} {components : Nat} {value : α}

/-- **An array of equal entries** that can be counted in words. -/
theorem filled_eq (hpos : 0 < components) (hcount : nodeCount shape * components < UInt64.size) :
    filled shape components value =
      ⟨shape, nodeCount shape, components, Array.replicate (nodeCount shape * components) value⟩ := by
  have hnodes : nodeCount shape < UInt64.size :=
    Nat.lt_of_le_of_lt (Nat.le_mul_of_pos_right _ hpos) hcount
  have hentries : (UInt64.ofNat (nodeCount shape) * UInt64.ofNat components).toNat =
      nodeCount shape * components := by
    rw [← UInt64.ofNat_mul, UInt64.toNat_ofNat_of_lt' hcount]
  rw [filled, nodeCountWord_eq, hentries, UInt64.toNat_ofNat_of_lt' hnodes]

/-- Every component of such an array has the value. -/
theorem get?_filled (hcount : nodeCount shape * components < UInt64.size) {n c : Nat}
    (hn : n < nodeCount shape) (hc : c < components) :
    (filled shape components value).get? n c = some value := by
  have hend := Nat.mul_le_mul_right components (Nat.succ_le_of_lt hn)
  rw [Nat.succ_mul] at hend
  rw [filled_eq (Nat.zero_lt_of_lt hc) hcount]
  show (Array.replicate _ value)[n * components + c]? = _
  rw [Array.getElem?_replicate, if_pos (by omega)]

/-- An array with the layout of one that holds some components holds them too. -/
theorem SameLayout.holds {g g' : GridArray α} (h : g.SameLayout g') {count width : Nat}
    (hg : g.Holds count width) : g'.Holds count width :=
  ⟨h.nodes.trans hg.nodes, h.components.trans hg.components, h.size.trans hg.size⟩

end GridArray

/-! ## (2) What is stored -/

variable [Scalar α] {grid : TensorQuadrature α} {determinants inverses values : GridArray α}
  {components : Nat}

/-- **Values stored in an array of zeros,** as many at every node: there is room for them if a node has the
components, and those behind are zero. -/
theorem storeNodes?_zeros {shape : List Nat} (hpos : 0 < components)
    (hcount : nodeCount shape * components < UInt64.size) {nodes : List (Array α)}
    (hlength : nodes.length = nodeCount shape) {width : Nat} (hwidth : ∀ node ∈ nodes, node.size = width) :
    ((∃ values, (GridArray.filled shape components Scalar.zero).storeNodes? nodes = some values) ↔
        nodes = [] ∨ width ≤ components) ∧
      ∀ values, width ≤ components →
        (GridArray.filled shape components Scalar.zero).storeNodes? nodes = some values →
        values.Holds (nodeCount shape) components ∧
          ∀ n < nodeCount shape, ∀ c < components, values.get? n c =
            if c < width then nodes[n]?.bind fun node => node[c]? else some Scalar.zero := by
  have hholds : (GridArray.filled shape components (Scalar.zero : α)).Holds (nodeCount shape) components := by
    rw [GridArray.filled_eq hpos hcount]
    exact ⟨rfl, rfl, Array.size_replicate⟩
  refine ⟨?_, fun values hle h => ?_⟩
  · rw [GridArray.exists_storeNodes?_iff hwidth (by rw [hholds.size, hholds.components, hlength]),
      hholds.components]
  · obtain ⟨hlayout, hget⟩ := GridArray.storeNodes?_spec hwidth (hholds.components.symm ▸ hle) h
    refine ⟨hlayout.holds hholds, fun n hn c hc => ?_⟩
    rw [hget n (hlength ▸ hn) c (hholds.components.symm ▸ hc), GridArray.get?_filled hcount hn hc]

/-- **The weight fits every field:** it is the first component of each node, and the others are zero. -/
theorem exists_weightField (grid : TensorQuadrature α) (determinants inverses : GridArray α)
    (hpos : 0 < components) (hcount : nodeCount grid.shape * components < UInt64.size) :
    ∃ values, geometryField? .weight grid determinants inverses components = some values ∧
      values.Holds (nodeCount grid.shape) components ∧
      ∀ n < nodeCount grid.shape, ∀ c < components, values.get? n c = some (if c = 0
        then scaledWeight grid (Scalar.abs ((determinants.get? n 0).getD Scalar.zero))
          (MultiIndex.multiIndex n grid.shape)
        else Scalar.zero) := by
  let weights := (gridNodes grid.shape).zipIdx.map fun node =>
    #[scaledWeight grid (Scalar.abs ((determinants.get? node.2 0).getD Scalar.zero)) node.1]
  have hlength : weights.length = nodeCount grid.shape := by
    rw [List.length_map, List.length_zipIdx, gridNodes_eq_map, List.length_map, List.length_range]
  have hwidth : ∀ node ∈ weights, node.size = 1 := by
    intro node hnode
    obtain ⟨-, -, rfl⟩ := List.mem_map.mp hnode
    rfl
  obtain ⟨hroom, hspec⟩ := storeNodes?_zeros hpos hcount hlength hwidth
  obtain ⟨values, hvalues⟩ := hroom.mpr (.inr hpos)
  obtain ⟨hholds, hget⟩ := hspec values hpos hvalues
  refine ⟨values, ?_, hholds, fun n hn c hc => ?_⟩
  · have hwalk : (GridArray.filled grid.shape components (Scalar.zero : α)).walk = gridNodes grid.shape := by
      rw [GridArray.filled_eq hpos hcount]
      rfl
    rw [geometryField?, weightField, hwalk]
    exact hvalues
  · rw [hget n hn c hc]
    rcases c with - | c
    · rw [if_pos Nat.one_pos, if_pos rfl, List.getElem?_map, List.getElem?_zipIdx, gridNodes_eq_map,
        List.getElem?_map, List.getElem?_range hn]
      simp
    · rw [if_neg (by omega), if_neg (Nat.succ_ne_zero c)]

/-- A transposed matrix has as many entries. -/
theorem size_transposed (dim : Nat) (entries : Array α) : (transposed dim entries).size = dim * dim := by
  rw [transposed, List.size_toArray, length_flatMap_of_length (n := dim) fun _ _ => ?_, List.length_range]
  rw [List.length_map, List.length_range]

/-- **The entry of a transposed matrix** is that of the mirrored position. -/
theorem getElem?_transposed {dim r c : Nat} (entries : Array α) (hr : r < dim) (hc : c < dim) :
    (transposed dim entries)[dim * r + c]? = some (entries.getD (c * dim + r) Scalar.zero) := by
  rw [transposed, List.getElem?_toArray, getElem?_flatMap_mul_add (fun _ _ => ?_) hc, List.getElem?_range hr]
  · rw [Option.bind_some, List.getElem?_map, List.getElem?_range hc, Option.map_some]
  · rw [List.length_map, List.length_range]

/-- The nodes of the transposed inverse. -/
theorem inverseTransposedField_filled (hpos : 0 < components)
    (hcount : nodeCount grid.shape * components < UInt64.size) :
    geometryField? .inverseTransposed grid determinants inverses components =
      (GridArray.filled grid.shape components Scalar.zero).storeNodes?
        ((List.range (nodeCount grid.shape)).map fun n => transposed grid.dim (inverses.nodeData n)) := by
  rw [geometryField?, inverseTransposedField, GridArray.filled_eq hpos hcount]

/-- **The transposed inverse fits the fields** that keep as many components as a Jacobian has entries, and no
others. -/
theorem exists_inverseTransposedField_iff (hnodes : 0 < nodeCount grid.shape) (hpos : 0 < components)
    (hcount : nodeCount grid.shape * components < UInt64.size) :
    (∃ values, geometryField? .inverseTransposed grid determinants inverses components = some values) ↔
      grid.dim * grid.dim ≤ components := by
  rw [inverseTransposedField_filled hpos hcount, (storeNodes?_zeros hpos hcount (List.length_map _ |>.trans
    List.length_range) (List.forall_mem_map.mpr fun n _ => size_transposed grid.dim _)).1]
  refine or_iff_right fun hnil => ?_
  rw [List.map_eq_nil_iff, List.range_eq_nil] at hnil
  exact Nat.ne_of_gt hnodes hnil

/-- **What is stored of the transposed inverse:** its entries row by row, and zeros behind them. -/
theorem inverseTransposedField_spec (hpos : 0 < components)
    (hcount : nodeCount grid.shape * components < UInt64.size) (hle : grid.dim * grid.dim ≤ components)
    (h : geometryField? .inverseTransposed grid determinants inverses components = some values) :
    values.Holds (nodeCount grid.shape) components ∧ ∀ n < nodeCount grid.shape,
      (∀ r < grid.dim, ∀ c < grid.dim, values.get? n (grid.dim * r + c) =
        some ((inverses.nodeData n).getD (c * grid.dim + r) Scalar.zero)) ∧
      ∀ c < components, grid.dim * grid.dim ≤ c → values.get? n c = some Scalar.zero := by
  rw [inverseTransposedField_filled hpos hcount] at h
  obtain ⟨hholds, hget⟩ := (storeNodes?_zeros hpos hcount (List.length_map _ |>.trans List.length_range)
    (List.forall_mem_map.mpr fun n _ => size_transposed grid.dim _)).2 values hle h
  refine ⟨hholds, fun n hn => ⟨fun r hr c hc => ?_, fun c hc hbehind => ?_⟩⟩
  · have hin : grid.dim * r + c < grid.dim * grid.dim := by
      have hend := Nat.mul_le_mul_left grid.dim (Nat.succ_le_of_lt hr)
      rw [Nat.mul_succ] at hend
      omega
    rw [hget n hn _ (Nat.lt_of_lt_of_le hin hle), if_pos hin, List.getElem?_map, List.getElem?_range hn]
    exact getElem?_transposed _ hr hc
  · rw [hget n hn c hc, if_neg (Nat.not_lt_of_le hbehind)]

/-- A grid of one by two nodes. -/
def nodePair : TensorQuadrature ℚ := ⟨[⟨1, #[0], #[2]⟩, ⟨1, #[0, 1], #[1, 3]⟩]⟩

-- Three components hold the weight of a node and two zeros, but no matrix of the second node.
example :
    (geometryField? .weight nodePair ⟨[1, 2], 2, 1, #[5, -1]⟩ .empty 3).map (·.data) = some #[10, 0, 0, 6, 0, 0] ∧
      let inverses : GridArray ℚ := ⟨[1, 2], 2, 4, #[1, 2, 3, 4, 5, 6, 7, 8]⟩
      (geometryField? .inverseTransposed nodePair .empty inverses 3).isNone = true ∧
        (geometryField? .inverseTransposed nodePair .empty inverses 4).map (·.data) =
          some #[1, 3, 2, 4, 5, 7, 6, 8] := by
  decide +kernel

/-! ## (3) Prepared data -/

variable [Circular α] [ScalarText α] {k : CompiledKernel α} {bases : KernelBases α}
  {geometry : GeometryMap α} {data : KernelData α}

omit [ScalarText α] in
/-- The Jacobian is computed over grids of the dimension of the geometry. -/
theorem CompiledKernel.dim_of_jacobianData {inverse : GridArray α × GridArray α}
    (h : k.jacobianData geometry grid = .ok (some inverse)) : grid.dim = geometry.dim := by
  unfold jacobianData at h
  split at h
  · obtain ⟨jacobians, hjacobians, -⟩ := bind_eq_ok_iff.mp h
    exact eq_of_beq (require_bind_eq_ok_iff.mp hjacobians).1
  · cases h

/-- **Geometry fields of prepared data** hold the components that they keep, at every node of the grid. Forms
whose transposed inverse keeps fewer components than a Jacobian has entries are not prepared. -/
theorem CompiledKernel.geometry_of_prepare (hk : k.Ordered) (h : k.prepare bases geometry = .ok data)
    {f : FieldVariable α} (hf : f ∈ k.form.fields) {which : BuiltinField}
    (hdef : f.definition = .builtin which)
    (hcount : nodeCount data.quadrature.shape * f.storageSize < UInt64.size) :
    (data.fieldArray f.id).Holds (nodeCount data.quadrature.shape) f.storageSize ∧
      (which = .inverseTransposed → k.form.dim * k.form.dim ≤ f.storageSize) := by
  obtain ⟨-, -, jacobian, hjacobian, hfields⟩ := prepare_spec hk h
  have hdim : geometry.dim = k.form.dim := eq_of_beq (require_bind_eq_ok_iff.mp h).1
  have hpos : 0 < f.storageSize := FieldVariable.storageSize_pos (hk.form.shapes f hf)
  have hsampled := hfields f hf fun _ he => nomatch hdef.symm.trans he
  obtain ⟨determinants, inverses, rfl, hvalues⟩ := (initialField_builtin_iff hdef).mp hsampled
  cases which with
  | weight =>
    obtain ⟨values, hweight, hholds, -⟩ :=
      exists_weightField data.quadrature determinants inverses hpos hcount
    obtain rfl := Option.some.inj (hweight.symm.trans hvalues)
    exact ⟨hholds, fun h => nomatch h⟩
  | inverseTransposed =>
    have hnodes := nodeCount_pos_of_gauss (prepare_tabulates h).grid
    have hle := (exists_inverseTransposedField_iff hnodes hpos hcount).mp ⟨_, hvalues⟩
    refine ⟨(inverseTransposedField_spec hpos hcount hle hvalues).1, fun _ => ?_⟩
    rwa [dim_of_jacobianData hjacobian, hdim] at hle

end Galerkin
