import Galerkin.Proofs.Basis.Activity
import Galerkin.Proofs.Kernel.Data
import Galerkin.Proofs.Quadrature.Composite

/-! # Tables over a quadrature grid

The data of a kernel hold, for every axis, the derivatives of the basis functions at the Gauss nodes of
the mesh. A function has only zeros at the nodes of the elements that are not in its support.

* **`AxisTables.Localized`** — a table with zeros outside the supports;
* **`KernelData.Tabulates.spec`** — so are the tables of the data of a kernel;
* **`exists_tabulates`** — any bases with a Gauss rule have such data. -/

namespace Galerkin

variable {K : Type} [Field K] [LinearOrder K]

/-! ## (1) Tables of one axis -/

/-- **A table is zero outside the supports:** every element has `perElement` nodes, one element after the
other, and a function has zeros at the nodes of the elements that are not in its support. -/
structure AxisTables.Localized (perElement : Nat) (t : AxisTables K) : Prop where
  last_le : ∀ i < t.dofs, perElement * (t.supportOf i).last ≤ t.table.points
  get_eq_zero : ∀ i < t.dofs, ∀ q < t.table.points,
    (t.supportOf i).contains (q / perElement) = false → ∀ k, t.table.get i q k = 0

/-- **The table of a basis at nodes that its elements hold** is zero outside the supports. -/
theorem localized_of_holds [ScalarText K] {kv : KnotVector K} {perElement : Nat} {axis : CompositeRule K}
    {maxDeriv : Int} {text : K → String} {table : DerivativeTable K}
    (hcount : axis.nodes.size = perElement * kv.elements)
    (hnodes : ∀ q u, axis.nodes[q]? = some u → q / perElement < kv.elements ∧ kv.Holds u (q / perElement))
    (h : kv.evaluateDerivatives axis.nodes.toList maxDeriv text = .ok table) :
    (AxisTables.mk kv.meshSupport table).Localized perElement := by
  have hpoints : table.points = axis.nodes.toList.length := by rw [KnotVector.evaluateDerivatives_eq_ok h]
  rw [Array.length_toList] at hpoints
  refine ⟨fun i hi => ?_, fun i hi q hq hout k => ?_⟩
  · change perElement * (kv.meshSupport.getD i ⟨0, 0⟩).last ≤ table.points
    rw [hpoints, hcount, kv.getD_meshSupport (kv.size_meshSupport ▸ hi)]
    exact Nat.mul_le_mul_left _ (kv.elementOf_le _)
  · change q < table.points at hq
    rw [hpoints] at hq
    have hnode := Array.getElem?_eq_getElem hq
    obtain ⟨he, hholds⟩ := hnodes q _ hnode
    change table.get i q k = 0
    rw [KnotVector.evaluateDerivatives_get h (by rw [Array.getElem?_toList, hnode])]
    exact (hholds.jetAt_get he (kv.size_meshSupport ▸ hi) hout _ k).trans Scalar.zero_exact

variable [IsStrictOrderedRing K] [Circular K]

/-- **The table of a basis at the Gauss nodes of its mesh** is zero outside the supports. -/
theorem localized_of_mesh [ScalarText K] {kv : KnotVector K} {mesh : List K} {perElement : Nat}
    {axis : CompositeRule K} {maxDeriv : Int} {text : K → String} {table : DerivativeTable K}
    (hmesh : mesh = kv.mesh.toList) (haxis : compositeGauss mesh perElement = .ok axis)
    (hrule : ∀ rule : ReferenceRule K, gaussRule perElement = .ok rule →
      ∀ x ∈ rule.nodes, -1 < x ∧ x < 1)
    (h : kv.evaluateDerivatives axis.nodes.toList maxDeriv text = .ok table) :
    (AxisTables.mk kv.meshSupport table).Localized perElement := by
  subst hmesh
  obtain ⟨-, hcount, hnodes⟩ := compositeGauss_mesh haxis hrule
  refine localized_of_holds hcount (fun q u hu => ?_) h
  obtain ⟨he, hlow, hhigh⟩ := hnodes q u hu
  exact ⟨he, ⟨.inr hlow.le, .inl hhigh⟩⟩

/-! ## (2) Tables of several axes -/

/-- **The tables of some bases over a grid on their meshes** are zero outside the supports. -/
theorem spaceTables_localized [ScalarText K] {bases : List (KnotVector K)} {perElement maxDeriv : Nat}
    {grid : TensorQuadrature K} {tables : List (AxisTables K)}
    (hgrid : List.Forall₂ (fun mesh axis => compositeGauss mesh perElement = .ok axis)
      (bases.map fun kv => kv.mesh.toList) grid.axes)
    (hrule : ∀ rule : ReferenceRule K, gaussRule perElement = .ok rule →
      ∀ x ∈ rule.nodes, -1 < x ∧ x < 1)
    (h : spaceTables bases grid maxDeriv = .ok tables) : ∀ t ∈ tables, t.Localized perElement := by
  intro t ht
  obtain ⟨⟨kv, axis⟩, hmem, hstep⟩ := exists_mem_of_mapM h ht
  obtain ⟨table, htable, hstep⟩ := bind_eq_ok_iff.mp hstep
  obtain rfl := Except.ok.inj hstep
  have haxis := List.forall₂_zip (List.forall₂_map_left_iff.mp hgrid) hmem
  exact localized_of_mesh rfl haxis hrule htable

omit [IsStrictOrderedRing K] [Circular K] in
/-- Bases on the same meshes have the same lists of break points. -/
theorem toList_meshes {trial test : List (KnotVector K)}
    (h : trial.map (·.mesh) = test.map (·.mesh)) :
    (trial.map fun kv => kv.mesh.toList) = test.map fun kv => kv.mesh.toList := by
  have hmap := congrArg (List.map Array.toList) h
  rwa [List.map_map, List.map_map] at hmap

/-- **Tables of trial and test functions on the same meshes** are zero outside the supports. -/
theorem KernelData.Tabulates.spec [ScalarText K] {data : KernelData K} {bases : KernelBases K}
    {maxDeriv : Nat} (h : data.Tabulates bases maxDeriv)
    (hmesh : bases.trial.map (·.mesh) = bases.test.map (·.mesh))
    (hrule : ∀ rule : ReferenceRule K, gaussRule data.pointsPerElement = .ok rule →
      ∀ x ∈ rule.nodes, -1 < x ∧ x < 1) :
    0 < data.pointsPerElement ∧ data.quadrature.shape ≠ [] ∧
      (data.trial.map (·.support) = bases.trial.map (·.meshSupport) ∧
        data.trial.map (·.table.points) = data.quadrature.shape ∧
        ∀ t ∈ data.trial, t.Localized data.pointsPerElement) ∧
      data.test.map (·.support) = bases.test.map (·.meshSupport) ∧
        data.test.map (·.table.points) = data.quadrature.shape ∧
        ∀ t ∈ data.test, t.Localized data.pointsPerElement := by
  obtain ⟨hne, hgrid⟩ := gauss_eq_ok_iff.mp h.grid
  have hlength : bases.trial.length = bases.test.length := by
    have hlen := congrArg List.length hmesh
    rwa [List.length_map, List.length_map] at hlen
  obtain ⟨-, htrial, htest⟩ := h.supports hlength
  refine ⟨?_, fun hnil => hne ?_, ⟨htrial, spaceTables_points h.length_axes h.trial,
    spaceTables_localized hgrid hrule h.trial⟩, htest, h.points hlength,
    spaceTables_localized (toList_meshes hmesh ▸ hgrid) hrule h.test⟩
  · obtain ⟨mesh, hmem⟩ := List.exists_mem_of_ne_nil _ hne
    obtain ⟨e, he, rfl⟩ := List.getElem_of_mem hmem
    have haxis := hgrid.get he (hgrid.length_eq ▸ he)
    obtain ⟨-, rule, hgauss, -⟩ := compositeGauss_eq_ok_iff.mp haxis
    have hpos := (gaussRule_size hgauss).1
    omega
  · rw [TensorQuadrature.shape, List.map_eq_nil_iff] at hnil
    rw [hnil] at hgrid
    exact List.forall₂_nil_right_iff.mp hgrid

/-! ## (3) Existence -/

omit [Circular K] in
/-- The domain is widened by the tolerance, not narrowed. -/
theorem KnotVector.tolerance_nonneg (kv : KnotVector K) : 0 ≤ kv.tolerance := by
  have hmax : (0 : K) ≤ Scalar.max Scalar.one (Scalar.abs (kv.upper - kv.lower)) := by
    unfold Scalar.max
    rw [Scalar.lt_exact, Scalar.one_exact]
    split
    · rename_i hlt
      exact zero_le_one.trans (le_of_lt (of_decide_eq_true hlt))
    · exact zero_le_one
  refine mul_nonneg ?_ hmax
  rw [Scalar.one_exact, Scalar.ofNat_exact, Scalar.ofNat_exact]
  positivity

omit [Circular K] in
/-- Functions have derivatives at all points of the domain. -/
theorem KnotVector.exists_evaluateDerivatives [ScalarText K] (kv : KnotVector K) {points : List K}
    (h : ∀ u ∈ points, kv.lower ≤ u ∧ u ≤ kv.upper) (maxDeriv : Nat) (text : K → String) :
    ∃ table, kv.evaluateDerivatives points maxDeriv text = .ok table := by
  have htol := kv.tolerance_nonneg
  refine ⟨_, kv.evaluateDerivatives_eq_ok_iff.mpr ⟨⟨Int.natCast_nonneg _, fun u hu => ?_⟩, rfl⟩⟩
  obtain ⟨hlow, hhigh⟩ := h u hu
  rw [Accepts, Scalar.le_exact, Scalar.le_exact, decide_eq_true_iff, decide_eq_true_iff]
  constructor
  · linarith
  · linarith

/-- **Tables of some bases exist** over a grid with one composite rule for each of their meshes. -/
theorem exists_spaceTables [ScalarText K] {bases : List (KnotVector K)} {perElement : Nat}
    (grid : TensorQuadrature K)
    (hgrid : List.Forall₂ (fun mesh axis => compositeGauss mesh perElement = .ok axis)
      (bases.map fun kv => kv.mesh.toList) grid.axes)
    (hrule : ∀ rule : ReferenceRule K, gaussRule perElement = .ok rule →
      ∀ x ∈ rule.nodes, -1 < x ∧ x < 1) (maxDeriv : Nat) :
    ∃ tables, spaceTables bases grid maxDeriv = .ok tables := by
  refine exists_mapM_eq_ok fun x hx => ?_
  obtain ⟨kv, axis⟩ := x
  have haxis := List.forall₂_zip (List.forall₂_map_left_iff.mp hgrid) hx
  obtain ⟨-, -, hnodes⟩ := compositeGauss_mesh haxis hrule
  have hsize := kv.size_mesh
  have hdomain : ∀ u ∈ axis.nodes.toList, kv.lower ≤ u ∧ u ≤ kv.upper := by
    intro u hu
    obtain ⟨q, hq⟩ := List.mem_iff_getElem?.mp hu
    rw [Array.getElem?_toList] at hq
    obtain ⟨he, hlow, hhigh⟩ := hnodes q u hq
    exact ⟨(kv.mesh_le (Nat.zero_le _) (by omega)).trans hlow.le,
      hhigh.le.trans (kv.mesh_le he (by omega))⟩
  obtain ⟨table, htable⟩ := kv.exists_evaluateDerivatives hdomain maxDeriv ScalarText.computedPlaces
  exact ⟨_, bind_eq_ok_iff.mpr ⟨table, htable, rfl⟩⟩

omit [IsStrictOrderedRing K] in
/-- **Bases have a grid on their meshes,** if the Gauss rule exists on the reference interval. -/
theorem exists_gauss {bases : List (KnotVector K)} (hne : bases ≠ []) {points : Int} {rule : ReferenceRule K}
    (hgauss : gaussRule points = .ok rule) :
    ∃ grid, TensorQuadrature.gauss (bases.map fun kv => kv.mesh.toList) points = .ok grid := by
  obtain ⟨axes, haxes⟩ := exists_mapM_eq_ok
    (f := fun mesh => compositeGauss (α := K) mesh points) fun mesh hm => by
      obtain ⟨kv, -, rfl⟩ := List.mem_map.mp hm
      exact exists_compositeGauss kv hgauss
  exact ⟨⟨axes⟩, gauss_eq_ok_iff.mpr ⟨fun h => hne (List.map_eq_nil_iff.mp h), mapM_eq_ok_iff.mp haxes⟩⟩

/-- **Any bases on the same meshes have data,** with any fields. -/
theorem exists_tabulates [ScalarText K] {bases : KernelBases K} (hne : bases.trial ≠ [])
    (hmesh : bases.trial.map (·.mesh) = bases.test.map (·.mesh)) {perElement : Nat}
    {rule : ReferenceRule K} (hgauss : gaussRule perElement = .ok rule)
    (hrule : ∀ x ∈ rule.nodes, -1 < x ∧ x < 1) (maxDeriv : Nat) (fields : Array (GridArray K)) :
    ∃ data : KernelData K, data.Tabulates bases maxDeriv ∧ data.pointsPerElement = perElement ∧
      data.fields = fields := by
  obtain ⟨grid, hgrid⟩ := exists_gauss hne hgauss
  have haxes := (gauss_eq_ok_iff.mp hgrid).2
  have hrule' : ∀ r : ReferenceRule K, gaussRule perElement = .ok r → ∀ x ∈ r.nodes, -1 < x ∧ x < 1 :=
    fun r hr => Except.ok.inj (hgauss.symm.trans hr) ▸ hrule
  obtain ⟨trial, htrial⟩ := exists_spaceTables grid haxes hrule' maxDeriv
  obtain ⟨test, htest⟩ := exists_spaceTables grid (toList_meshes hmesh ▸ haxes) hrule' maxDeriv
  exact ⟨⟨trial, test, perElement, grid, fields, GridArray.empty⟩, ⟨hgrid, htrial, htest⟩, rfl, rfl⟩

end Galerkin
