import Galerkin.Proofs.Basis.Positivity
import Galerkin.Proofs.Form.Lowering
import Galerkin.Proofs.Kernel.Tables

/-! # Separate bases on meshes that agree up to a tolerance

Different bases for trial and test functions must have the same mesh. Meshes count as the same if they have as
many break points, none of them farther apart than a tolerance that depends on the length of the domain, not
on the elements. The grid is made on the meshes of the trial functions. So a node of a short element may lie
in another element of the test functions, or outside their domain.

* **`KnotVector.sameMesh_iff`**, **`KernelBases.checkMeshes_separate_iff`** — meshes that count as the same;
* **`KnotVector.WellInside`** — a node that lies in the same element of every such mesh;
* **`exists_spaceTables_iff`** — a basis has a table if it accepts all nodes;
* **`KernelBases.testTables_localized`** — tables on meshes with long elements are zero outside the supports;
* **`KernelBases.testTables_compatible_iff`** — which rows are, whatever the elements. -/

namespace Galerkin

/-! ## (1) Meshes that count as the same -/

namespace KnotVector

/-- **How far apart the break points of two meshes may be** that count as the same. -/
def meshTolerance {α : Type} [Scalar α] (kv : KnotVector α) : α :=
  Scalar.one / Scalar.ofNat (Nat.pow 10 12) * Scalar.max Scalar.one (Scalar.abs (kv.upper - kv.lower))

variable {K : Type} [Field K] [LinearOrder K]

/-- **A point well inside an element:** farther from both ends than the tolerance. -/
structure WellInside (kv : KnotVector K) (x : K) (e : Nat) : Prop where
  start_lt : knotAt kv.mesh e + kv.meshTolerance < x
  lt_end : x + kv.meshTolerance < knotAt kv.mesh (e + 1)

variable [IsStrictOrderedRing K] {u v : KnotVector K} {e : Nat} {x : K}

/-- **Meshes that count as the same** have as many elements, and break points within the tolerance. -/
theorem sameMesh_iff : sameMesh u.mesh v.mesh = true ↔ v.elements = u.elements ∧
    ∀ i ≤ u.elements, |knotAt u.mesh i - knotAt v.mesh i| ≤ u.meshTolerance := by
  have hu := u.size_mesh
  have hv := v.size_mesh
  have hsame : sameMesh u.mesh v.mesh = (u.mesh.size == v.mesh.size &&
      (List.range u.mesh.size).all fun i =>
        !Scalar.lt u.meshTolerance (Scalar.abs (knotAt u.mesh i - knotAt v.mesh i))) := rfl
  rw [hsame, Bool.and_eq_true, beq_iff_eq, List.all_eq_true, hu, hv]
  simp only [List.mem_range, Nat.lt_succ_iff, Scalar.lt_exact, Scalar.abs_exact, Bool.not_eq_true',
    decide_eq_false_iff_not, not_lt]
  exact and_congr_left' (by omega)

/-- **A point well inside an element lies in the same element of every mesh that counts as the same,** and in
the domain there. -/
theorem WellInside.holds (h : u.WellInside x e) (he : e < u.elements)
    (hsame : sameMesh u.mesh v.mesh = true) : v.Accepts x ∧ v.Holds x e := by
  obtain ⟨helements, hnear⟩ := sameMesh_iff.mp hsame
  obtain ⟨hstart, hend⟩ := h
  have hsize := v.size_mesh
  -- The ends of the element move by no more than the tolerance, so they do not reach the point.
  have hlow : knotAt v.mesh e < x := by
    have hclose := (abs_le.mp (hnear e (by omega))).1
    linarith
  have hhigh : x < knotAt v.mesh (e + 1) := by
    have hclose := (abs_le.mp (hnear (e + 1) (by omega))).2
    linarith
  refine ⟨?_, .inr hlow.le, .inl hhigh⟩
  have hlower : v.lower ≤ knotAt v.mesh e := v.mesh_le (Nat.zero_le e) (by omega)
  have hupper : knotAt v.mesh (e + 1) ≤ v.upper := v.mesh_le (by omega) (by omega)
  have htol := v.tolerance_nonneg
  rw [Accepts, Scalar.le_exact, Scalar.le_exact, decide_eq_true_iff, decide_eq_true_iff]
  constructor
  · linarith
  · linarith

/-- **The nodes of an element that is long enough lie well inside it.** How long is enough depends on how
close the reference nodes come to the ends of the reference interval. -/
theorem wellInside_of_length {rule : ReferenceRule K} {r : K} (hrule : ∀ y ∈ rule.nodes, -r ≤ y ∧ y ≤ r)
    (he : e < u.elements)
    (hlength : 2 * u.meshTolerance < (knotAt u.mesh (e + 1) - knotAt u.mesh e) * (1 - r))
    (hx : x ∈ elementNodes rule (knotAt u.mesh e) (knotAt u.mesh (e + 1))) : u.WellInside x e := by
  have hsize := u.size_mesh
  have hle : knotAt u.mesh e ≤ knotAt u.mesh (e + 1) := u.mesh_le (Nat.le_succ e) (by omega)
  obtain ⟨hstart, hend⟩ := elementNodes_distance hrule hle hx
  constructor
  · linarith
  · linarith

end KnotVector

/-! ## (2) Tables and nodes -/

section Tables

variable {α : Type} [Scalar α]

/-- **A node of one axis,** by its number among the nodes of the axis, with the bases of the axis. -/
structure AxisNode (trial test : List (KnotVector α)) (grid : TensorQuadrature α) (a q : Nat) (x : α)
    (u v : KnotVector α) : Prop where
  trial_eq : trial[a]? = some u
  test_eq : test[a]? = some v
  node_eq : ∃ axis, grid.axes[a]? = some axis ∧ axis.nodes[q]? = some x

/-- **The mesh check** compares the meshes of every axis. -/
theorem KernelBases.checkMeshes_separate_iff {trial test : List (KnotVector α)} {kernel : String} :
    (KernelBases.separate trial test).checkMeshes kernel = .ok () ↔
      ∀ (a : Nat) u v, trial[a]? = some u → test[a]? = some v → sameMesh u.mesh v.mesh = true := by
  rw [checkMeshes, forM_eq_ok_iff]
  constructor
  · intro h a u v hu hv
    have hpair : ((u, v), a) ∈ (trial.zip test).zipIdx :=
      List.mem_zipIdx_iff_getElem?.mpr (List.getElem?_zip_eq_some.mpr ⟨hu, hv⟩)
    exact require_eq_ok_iff.mp (h _ hpair)
  · rintro h ⟨⟨u, v⟩, a⟩ hpair
    obtain ⟨hu, hv⟩ := List.getElem?_zip_eq_some.mp (List.mem_zipIdx_iff_getElem?.mp hpair)
    exact require_eq_ok_iff.mpr (h a u v hu hv)

variable [ScalarText α] {bases : List (KnotVector α)} {grid : TensorQuadrature α} {maxDeriv : Nat}

/-- **The table of an axis** holds the derivatives of its basis at its nodes. -/
theorem spaceTables_getElem? {tables : List (AxisTables α)}
    (h : spaceTables bases grid maxDeriv = .ok tables) {a : Nat} {v : KnotVector α}
    {axis : CompositeRule α} (hv : bases[a]? = some v) (haxis : grid.axes[a]? = some axis) :
    ∃ table, tables[a]? = some ⟨v.meshSupport, table⟩ ∧
      v.evaluateDerivatives axis.nodes.toList maxDeriv ScalarText.computedPlaces = .ok table := by
  obtain ⟨hlength, hsteps⟩ := forall₂_iff_getElem?.mp (mapM_eq_ok_iff.mp h)
  have hpair : (bases.zip grid.axes)[a]? = some (v, axis) := List.getElem?_zip_eq_some.mpr ⟨hv, haxis⟩
  obtain ⟨ha, -⟩ := List.getElem?_eq_some_iff.mp hpair
  have htables : tables[a]? = some tables[a] := List.getElem?_eq_getElem (hlength ▸ ha)
  obtain ⟨table, htable, hstep⟩ := bind_eq_ok_iff.mp (hsteps a _ _ hpair htables)
  exact ⟨table, htables.trans (congrArg some (Except.ok.inj hstep).symm), htable⟩

/-- **Bases have tables over a grid if they accept all nodes** of their axes. -/
theorem exists_spaceTables_iff [LinearOrder α] [OrderedScalar α] (maxDeriv : Nat) :
    (∃ tables, spaceTables bases grid maxDeriv = .ok tables) ↔
      ∀ p ∈ bases.zip (grid.axes.map (·.nodes)), ∀ x ∈ p.2, p.1.Accepts x := by
  rw [List.zip_map_right, List.forall_mem_map]
  constructor
  · rintro ⟨tables, h⟩ ⟨v, axis⟩ hpair x hx
    obtain ⟨_, -, hstep⟩ := exists_step_of_mapM h hpair
    obtain ⟨table, htable, -⟩ := bind_eq_ok_iff.mp hstep
    exact (v.evaluateDerivatives_eq_ok_iff.mp htable).1.2 x (Array.mem_toList_iff.mpr hx)
  · intro h
    refine exists_mapM_eq_ok fun ⟨v, axis⟩ hpair => ?_
    have haccepts : ∀ x ∈ axis.nodes.toList, v.Accepts x := fun x hx =>
      h (v, axis) hpair x (Array.mem_toList_iff.mp hx)
    exact ⟨_, bind_eq_ok_iff.mpr ⟨_, v.evaluateDerivatives_eq_ok_iff.mpr
      ⟨⟨Int.natCast_nonneg _, haccepts⟩, rfl⟩, rfl⟩⟩

end Tables

/-! ## (3) Tables of test functions on the grid of the trial functions -/

variable {K : Type} [Field K] [LinearOrder K]

/-- **Zeros outside the supports, at one node:** in row `q` of a table, that of a node in element `e`, every
function has zeros that does not have the element in its support. -/
def KnotVector.VanishesOutside (kv : KnotVector K) (table : DerivativeTable K) (q e : Nat) : Prop :=
  ∀ f < kv.dofs, (kv.supportOf f).contains e = false → ∀ k, table.get f q k = 0

variable [IsStrictOrderedRing K] [ScalarText K]

/-- **A row of a table is zero outside the supports exactly if the element holds the node,** the end of the
element apart. -/
theorem KnotVector.vanishesOutside_iff {v : KnotVector K} {nodes : List K} {maxDeriv : Int} {text : K → String}
    {table : DerivativeTable K} (h : v.evaluateDerivatives nodes maxDeriv text = .ok table) {q e : Nat} {x : K}
    (hx : nodes[q]? = some x) (he : e < v.elements) :
    (v.Holds x e → v.VanishesOutside table q e) ∧
      (x ≠ knotAt v.mesh (e + 1) → v.VanishesOutside table q e → v.Holds x e) := by
  constructor
  · intro hholds f hf hout k
    rw [evaluateDerivatives_get h hx]
    exact (hholds.jetAt_get he hf hout _ k).trans Scalar.zero_exact
  · -- The values alone show it; the derivatives in the row are not needed.
    intro hne hzero
    refine holds_of_vanishing he hne (m := maxDeriv.toNat) fun f hf hout => ?_
    rw [← evaluateDerivatives_get h hx]
    exact hzero f hf hout 0

variable [Circular K] {trial test : List (KnotVector K)} {kernel : String} {points maxDeriv : Nat}
  {grid : TensorQuadrature K} {a q : Nat} {x : K} {u v : KnotVector K}

omit [IsStrictOrderedRing K] [ScalarText K] in
/-- Every axis of a grid has the Gauss nodes on one of the meshes. -/
theorem exists_trial_of_axis
    (hgrid : TensorQuadrature.gauss (trial.map fun kv => kv.mesh.toList) points = .ok grid)
    {axis : CompositeRule K} (haxis : grid.axes[a]? = some axis) :
    ∃ u, trial[a]? = some u ∧ compositeGauss u.mesh.toList points = .ok axis := by
  obtain ⟨hlength, hrules⟩ :=
    forall₂_iff_getElem?.mp (List.forall₂_map_left_iff.mp (gauss_eq_ok_iff.mp hgrid).2)
  obtain ⟨ha, -⟩ := List.getElem?_eq_some_iff.mp haxis
  have hu : trial[a]? = some trial[a] := List.getElem?_eq_getElem (hlength ▸ ha)
  exact ⟨trial[a], hu, hrules a _ _ hu haxis⟩

namespace AxisNode

omit [IsStrictOrderedRing K] [ScalarText K] in
/-- **A node is one of its element** in the mesh of the trial functions. -/
theorem mem_elementNodes (h : AxisNode trial test grid a q x u v)
    (hgrid : TensorQuadrature.gauss (trial.map fun kv => kv.mesh.toList) points = .ok grid) :
    q / points < u.elements ∧ ∃ rule, gaussRule points = .ok rule ∧
      x ∈ elementNodes rule (knotAt u.mesh (q / points)) (knotAt u.mesh (q / points + 1)) := by
  obtain ⟨hu, -, axis, haxis, hx⟩ := h
  obtain ⟨u', hu', hgauss⟩ := exists_trial_of_axis hgrid haxis
  obtain rfl : u' = u := Option.some.inj (hu'.symm.trans hu)
  exact compositeGauss_node hgauss hx

omit [IsStrictOrderedRing K] [ScalarText K] [Circular K] in
/-- The meshes of the axis of a node count as the same. -/
theorem sameMesh (h : AxisNode trial test grid a q x u v)
    (hcheck : (KernelBases.separate trial test).checkMeshes kernel = .ok ()) :
    Galerkin.sameMesh u.mesh v.mesh = true :=
  KernelBases.checkMeshes_separate_iff.mp hcheck a u v h.trial_eq h.test_eq

end AxisNode

namespace KernelBases

omit [IsStrictOrderedRing K] in
/-- **Test functions have tables if they accept all nodes.** -/
theorem exists_testTables_iff
    (hgrid : TensorQuadrature.gauss (trial.map fun kv => kv.mesh.toList) points = .ok grid)
    (maxDeriv : Nat) : (∃ tables, spaceTables test grid maxDeriv = .ok tables) ↔
      ∀ a q x u v, AxisNode trial test grid a q x u v → v.Accepts x := by
  rw [exists_spaceTables_iff, List.zip_map_right, List.forall_mem_map]
  constructor
  · rintro h a q x u v ⟨-, hv, axis, haxis, hx⟩
    have hpair : (test.zip grid.axes)[a]? = some (v, axis) := List.getElem?_zip_eq_some.mpr ⟨hv, haxis⟩
    exact h _ (List.mem_of_getElem? hpair) x (Array.mem_of_getElem? hx)
  · rintro h ⟨v, axis⟩ hpair x hx
    obtain ⟨a, ha⟩ := List.mem_iff_getElem?.mp hpair
    obtain ⟨hv, haxis⟩ := List.getElem?_zip_eq_some.mp ha
    obtain ⟨u, hu, -⟩ := exists_trial_of_axis hgrid haxis
    obtain ⟨q, hq⟩ := Array.mem_iff_getElem?.mp hx
    exact h a q x u v ⟨hu, hv, axis, haxis, hq⟩

/-- **If all nodes lie well inside their elements,** the test functions have tables, and these are zero
outside the supports. -/
theorem testTables_localized (hcheck : (KernelBases.separate trial test).checkMeshes kernel = .ok ())
    (hgrid : TensorQuadrature.gauss (trial.map fun kv => kv.mesh.toList) points = .ok grid)
    (hinside : ∀ a q x u v, AxisNode trial test grid a q x u v → u.WellInside x (q / points)) :
    ∃ tables, spaceTables test grid maxDeriv = .ok tables ∧ ∀ t ∈ tables, t.Localized points := by
  have hnode : ∀ a q x u v, AxisNode trial test grid a q x u v →
      q / points < u.elements ∧ v.Accepts x ∧ v.Holds x (q / points) := by
    intro a q x u v h
    obtain ⟨he, -⟩ := h.mem_elementNodes hgrid
    exact ⟨he, (hinside a q x u v h).holds he (h.sameMesh hcheck)⟩
  obtain ⟨tables, htables⟩ := (exists_testTables_iff hgrid maxDeriv).mpr
    fun a q x u v h => (hnode a q x u v h).2.1
  refine ⟨tables, htables, fun t ht => ?_⟩
  obtain ⟨⟨v, axis⟩, hmem, hstep⟩ := exists_mem_of_mapM htables ht
  obtain ⟨table, htable, hstep⟩ := bind_eq_ok_iff.mp hstep
  obtain rfl := Except.ok.inj hstep
  obtain ⟨a, ha⟩ := List.mem_iff_getElem?.mp hmem
  obtain ⟨hv, haxis⟩ := List.getElem?_zip_eq_some.mp ha
  obtain ⟨u, hu, hgauss⟩ := exists_trial_of_axis hgrid haxis
  -- Both meshes have as many elements, so the nodes of the axis are those of the elements of either.
  obtain ⟨helements, -⟩ := KnotVector.sameMesh_iff.mp (checkMeshes_separate_iff.mp hcheck a u v hu hv)
  have hcount := compositeGauss_size hgauss
  rw [Array.length_toList, u.size_mesh, Nat.add_sub_cancel, ← helements] at hcount
  refine localized_of_holds hcount (fun q x hx => ?_) htable
  obtain ⟨he, -, hholds⟩ := hnode a q x u v ⟨hu, hv, axis, haxis, hx⟩
  exact ⟨helements ▸ he, hholds⟩

/-- **What the mesh check guarantees of separate bases,** and what it does not. Both meshes of an axis have as
many elements, and every node lies strictly inside its element of the trial functions. A node well inside that
element is accepted by the test functions and lies in the same element of theirs. Whatever the elements, the
test functions have tables exactly if they accept all nodes; and the row of a node is zero for the functions
that are not over its element exactly if this element of their own mesh holds the node, the end of the element
apart. If all elements are long enough, all tables are zero outside the supports. -/
theorem testTables_compatible_iff
    (hcheck : (KernelBases.separate trial test).checkMeshes kernel = .ok ())
    (hgrid : TensorQuadrature.gauss (trial.map fun kv => kv.mesh.toList) points = .ok grid)
    (hrule : ∀ rule : ReferenceRule K, gaussRule points = .ok rule →
      ∀ y ∈ rule.nodes, -1 < y ∧ y < 1) (maxDeriv : Nat) :
    (∀ a q x u v, AxisNode trial test grid a q x u v →
      (v.elements = u.elements ∧ q / points < u.elements ∧
        knotAt u.mesh (q / points) < x ∧ x < knotAt u.mesh (q / points + 1)) ∧
      (u.WellInside x (q / points) → v.Accepts x ∧ v.Holds x (q / points))) ∧
    ((∃ tables, spaceTables test grid maxDeriv = .ok tables) ↔
      ∀ a q x u v, AxisNode trial test grid a q x u v → v.Accepts x) ∧
    (∀ tables, spaceTables test grid maxDeriv = .ok tables →
      ∀ a q x u v, AxisNode trial test grid a q x u v →
        ∃ table, tables[a]? = some ⟨v.meshSupport, table⟩ ∧
          (v.Holds x (q / points) → v.VanishesOutside table q (q / points)) ∧
          (x ≠ knotAt v.mesh (q / points + 1) → v.VanishesOutside table q (q / points) →
            v.Holds x (q / points))) ∧
    ∀ r, (∀ rule : ReferenceRule K, gaussRule points = .ok rule → ∀ y ∈ rule.nodes, -r ≤ y ∧ y ≤ r) →
      (∀ u ∈ trial, ∀ e < u.elements,
        2 * u.meshTolerance < (knotAt u.mesh (e + 1) - knotAt u.mesh e) * (1 - r)) →
      ∃ tables, spaceTables test grid maxDeriv = .ok tables ∧ ∀ t ∈ tables, t.Localized points := by
  have helements : ∀ a q x u v, AxisNode trial test grid a q x u v → v.elements = u.elements :=
    fun a q x u v h => (KnotVector.sameMesh_iff.mp (h.sameMesh hcheck)).1
  refine ⟨fun a q x u v h => ?_, exists_testTables_iff hgrid maxDeriv, fun tables htables a q x u v h => ?_,
    fun r hr hlength => ?_⟩
  · obtain ⟨he, rule, hgauss, hx⟩ := h.mem_elementNodes hgrid
    have hsize := u.size_mesh
    have helement := u.mesh_lt (Nat.lt_succ_self (q / points)) (by omega)
    exact ⟨⟨helements a q x u v h, he, elementNodes_between (hrule rule hgauss) helement hx⟩,
      fun hinside => hinside.holds he (h.sameMesh hcheck)⟩
  · -- Elements correspond by number only: here the node may lie anywhere in the mesh of the test functions.
    obtain ⟨he, -⟩ := h.mem_elementNodes hgrid
    obtain ⟨-, hv, axis, haxis, hx⟩ := id h
    obtain ⟨table, htable, heval⟩ := spaceTables_getElem? htables hv haxis
    exact ⟨table, htable, KnotVector.vanishesOutside_iff heval (by rwa [Array.getElem?_toList])
      (helements a q x u v h ▸ he)⟩
  · refine testTables_localized hcheck hgrid fun a q x u v h => ?_
    obtain ⟨he, rule, hgauss, hx⟩ := h.mem_elementNodes hgrid
    exact KnotVector.wellInside_of_length (hr rule hgauss) he
      (hlength u (List.mem_of_getElem? h.trial_eq) _ he) hx

/-- The Gauss rule with one node. -/
theorem gaussRule_one : ∃ rule : ReferenceRule ℚ, gaussRule 1 = .ok rule ∧ rule.nodes = [0] := by
  obtain ⟨rule, hrule, hzero⟩ := exists_eq_ok_of_any (x := gaussRule (α := ℚ) 1)
    (p := fun rule => decide (rule.nodes = [0])) (by decide +kernel)
  exact ⟨rule, hrule, of_decide_eq_true hzero⟩

/-- A grid with known nodes. -/
theorem exists_gauss_nodes (meshes : List (List ℚ)) (points : Int) (nodes : List (Array ℚ))
    (h : (TensorQuadrature.gauss meshes points).toOption.any (fun grid =>
      decide (grid.axes.map (·.nodes) = nodes)) = true) :
    ∃ grid, TensorQuadrature.gauss meshes points = .ok grid ∧ grid.axes.map (·.nodes) = nodes := by
  obtain ⟨grid, hgrid, hnodes⟩ := exists_eq_ok_of_any h
  exact ⟨grid, hgrid, of_decide_eq_true hnodes⟩

/-- The constant function on one element. -/
def oneElement : KnotVector ℚ := ⟨0, #[0, 1], by decide +kernel⟩

/-- Constant functions on two elements of the same length. -/
def evenElements : KnotVector ℚ := ⟨0, #[0, 1, 2], by decide +kernel⟩

/-- The same with the break point a little later. -/
def shiftedElements : KnotVector ℚ := ⟨0, #[0, 1 + 1 / 10 ^ 13, 2], by decide +kernel⟩

/-- Elements of length one are long enough: break points may differ, and still the tables of the test
functions are zero outside the supports. -/
theorem testTables_compatible_iff_shiftedElements :
    (separate [evenElements, oneElement] [shiftedElements, oneElement]).checkMeshes "form" = .ok () ∧
      evenElements.mesh ≠ shiftedElements.mesh ∧
      ∃ grid : TensorQuadrature ℚ, TensorQuadrature.gauss
          ([evenElements, oneElement].map fun kv => kv.mesh.toList) (1 : Nat) = .ok grid ∧
        ∃ tables, spaceTables [shiftedElements, oneElement] grid 1 = .ok tables ∧
          ∀ t ∈ tables, t.Localized 1 := by
  have hcheck : (separate [evenElements, oneElement] [shiftedElements, oneElement]).checkMeshes "form" =
      .ok () := by decide +kernel
  obtain ⟨rule, hgauss, hzero⟩ := gaussRule_one
  have hnodes : ∀ rule : ReferenceRule ℚ, gaussRule (1 : Nat) = .ok rule → ∀ y ∈ rule.nodes, y = 0 := by
    intro rule' hgauss' y hy
    obtain rfl : rule = rule' := Except.ok.inj (hgauss.symm.trans hgauss')
    rw [hzero] at hy
    exact List.mem_singleton.mp hy
  have hne : [evenElements, oneElement] ≠ [] := List.cons_ne_nil _ _
  obtain ⟨grid, hgrid⟩ := exists_gauss hne hgauss
  have hrule : ∀ rule : ReferenceRule ℚ, gaussRule (1 : Nat) = .ok rule →
      ∀ y ∈ rule.nodes, -1 < y ∧ y < 1 := by
    intro rule hgauss y hy
    rw [hnodes rule hgauss y hy]
    decide
  obtain ⟨-, -, -, hlong⟩ := testTables_compatible_iff hcheck hgrid hrule 1
  have hlength : ∀ u ∈ [evenElements, oneElement], ∀ e < u.elements,
      2 * u.meshTolerance < (knotAt u.mesh (e + 1) - knotAt u.mesh e) * (1 - 0) := by decide +kernel
  refine ⟨hcheck, by decide +kernel, grid, hgrid, hlong 0 (fun rule hgauss y hy => ?_) hlength⟩
  rw [hnodes rule hgauss y hy]
  decide

/-- Constant functions with a very short first element. -/
def shortElement : KnotVector ℚ := ⟨0, #[0, 5 / 10 ^ 13, 1], by decide +kernel⟩

/-- The same with an even shorter one. -/
def shorterElement : KnotVector ℚ := ⟨0, #[0, 1 / 10 ^ 13, 1], by decide +kernel⟩

/-- Constant functions with a very short last element. -/
def lateBreak : KnotVector ℚ := ⟨0, #[0, 1 - 2 / 10 ^ 13, 1], by decide +kernel⟩

/-- The same on a domain that ends earlier. -/
def earlyEnd : KnotVector ℚ := ⟨0, #[0, 1 - 7 / 10 ^ 13, 1 - 5 / 10 ^ 13], by decide +kernel⟩

/-- **Meshes that count as the same need not be compatible.** With a very short first element the node of that
element lies in the second element of the test functions, where the second of these is one; and it is not over
the first element. With a very short last element the node lies outside the domain of the test functions, and
they have no tables. -/
theorem testTables_incompatible_shortElements :
    (∃ (grid : TensorQuadrature ℚ) (tables : List (AxisTables ℚ)) (table : DerivativeTable ℚ),
      (separate [shortElement, oneElement] [shorterElement, oneElement]).checkMeshes "form" = .ok () ∧
      TensorQuadrature.gauss ([shortElement, oneElement].map fun kv => kv.mesh.toList) (1 : Nat) =
        .ok grid ∧
      AxisNode [shortElement, oneElement] [shorterElement, oneElement] grid 0 0 (1 / (4 * 10 ^ 12))
        shortElement shorterElement ∧
      (shorterElement.supportOf 1).contains 0 = false ∧
      spaceTables [shorterElement, oneElement] grid 0 = .ok tables ∧
      tables[0]? = some ⟨shorterElement.meshSupport, table⟩ ∧ table.get 1 0 0 = 1) ∧
    ∃ grid : TensorQuadrature ℚ,
      (separate [lateBreak, oneElement] [earlyEnd, oneElement]).checkMeshes "form" = .ok () ∧
      TensorQuadrature.gauss ([lateBreak, oneElement].map fun kv => kv.mesh.toList) (1 : Nat) = .ok grid ∧
      ¬∃ tables, spaceTables [earlyEnd, oneElement] grid 0 = .ok tables := by
  constructor
  · obtain ⟨grid, hgrid, hnodes⟩ := exists_gauss_nodes
      ([shortElement, oneElement].map fun kv => kv.mesh.toList) (1 : Nat)
      [#[1 / (4 * 10 ^ 12), (1 + 5 / 10 ^ 13) / 2], #[1 / 2]] (by decide +kernel)
    have haccepts : ∀ p ∈ [shorterElement, oneElement].zip (grid.axes.map (·.nodes)), ∀ x ∈ p.2,
        p.1.Accepts x := by
      rw [hnodes]
      simp only [KnotVector.Accepts]
      decide +kernel
    obtain ⟨tables, htables⟩ := (exists_spaceTables_iff 0).mpr haccepts
    obtain ⟨axis, axes, haxes, haxis, -⟩ := List.map_eq_cons_iff.mp hnodes
    have hfirst : grid.axes[0]? = some axis := by rw [haxes]; rfl
    have hnode : axis.nodes[0]? = some (1 / (4 * 10 ^ 12)) := by rw [haxis]; rfl
    obtain ⟨table, htable, heval⟩ := spaceTables_getElem? htables (a := 0) rfl hfirst
    have hvalue : (shorterElement.jetAt 0 (1 / (4 * 10 ^ 12))).get 1 0 = 1 := by decide +kernel
    refine ⟨grid, tables, table, by decide +kernel, hgrid, ⟨rfl, rfl, axis, hfirst, hnode⟩,
      by decide +kernel, htables, htable, ?_⟩
    rw [KnotVector.evaluateDerivatives_get heval (by rw [Array.getElem?_toList, hnode])]
    exact hvalue
  · obtain ⟨grid, hgrid, hnodes⟩ := exists_gauss_nodes
      ([lateBreak, oneElement].map fun kv => kv.mesh.toList) (1 : Nat)
      [#[(1 - 2 / 10 ^ 13) / 2, 1 - 1 / 10 ^ 13], #[1 / 2]] (by decide +kernel)
    refine ⟨grid, by decide +kernel, hgrid, ?_⟩
    rw [exists_spaceTables_iff, hnodes]
    simp only [KnotVector.Accepts]
    decide +kernel

end KernelBases

end Galerkin
