import Galerkin.Kernel.Prepare
import Galerkin.Proofs.Basis.Activity
import Galerkin.Proofs.Quadrature.Composite

/-! # Data of a kernel

The data of a kernel hold a Gauss grid on the meshes of the trial functions and the tables of all
functions there, whatever the fields of the form, and whatever the arithmetic. Evaluating precomputed
fields changes the arrays of those fields at most.

* **`KernelData.AgreeExcept`** — data that differ in the arrays of some fields only;
* **`CompiledKernel.agreeExcept_evaluatePrecomputed`** — data before and after precomputed fields are
  evaluated;
* **`CompiledKernel.emit_eq_ok`** — the form and the programs of a kernel;
* **`KernelData.Tabulates`** — the data hold grid and tables of given bases, whatever the fields;
* **`CompiledKernel.prepare_tabulates`** — data are prepared that way;
* **`KernelData.Tabulates.supports`**, **`KernelData.Tabulates.points`** — the tables have the supports of the
  bases and the nodes of the grid. -/

namespace Galerkin

variable {α : Type}

/-! ## (1) Programs and arrays of fields -/

namespace KernelData

/-- A field without an array counts as empty. -/
theorem fieldArray_eq (data : KernelData α) (id : Nat) :
    data.fieldArray id = data.fields[id]?.getD GridArray.empty :=
  Array.getD_eq_getD_getElem?

/-- **Data that differ in the arrays of some fields only.** -/
structure AgreeExcept (stale : Nat → Prop) (data data' : KernelData α) : Prop where
  rest : data' = { data with fields := data'.fields }
  size : data'.fields.size = data.fields.size
  arrays : ∀ id, ¬stale id → data'.fieldArray id = data.fieldArray id

variable {stale : Nat → Prop} {data data' data'' : KernelData α}

/-- Data agree with themselves. -/
theorem AgreeExcept.refl (stale : Nat → Prop) (data : KernelData α) : AgreeExcept stale data data :=
  ⟨rfl, rfl, fun _ _ => rfl⟩

/-- More fields may differ. -/
theorem AgreeExcept.mono {stale' : Nat → Prop} (h : AgreeExcept stale data data')
    (hstale : ∀ id, stale id → stale' id) : AgreeExcept stale' data data' :=
  ⟨h.rest, h.size, fun id hid => h.arrays id (mt (hstale id) hid)⟩

/-- Data that agree with data that agree with others. -/
theorem AgreeExcept.trans (h : AgreeExcept stale data data') (h' : AgreeExcept stale data' data'') :
    AgreeExcept stale data data'' := by
  refine ⟨?_, h'.size.trans h.size, fun id hid => (h'.arrays id hid).trans (h.arrays id hid)⟩
  rw [h'.rest, h.rest]

/-- Data without a field that differs are the same. -/
theorem AgreeExcept.eq (h : AgreeExcept (fun _ => False) data data') : data' = data := by
  have hfields : data'.fields = data.fields := by
    refine Array.ext h.size fun id hid hid' => ?_
    have harray := h.arrays id not_false
    rwa [fieldArray_eq, fieldArray_eq, Array.getElem?_eq_getElem hid,
      Array.getElem?_eq_getElem hid'] at harray
  rw [h.rest, hfields]

/-- The arrays of data with another array for a field. -/
theorem fieldArray_setField (data : KernelData α) (n : Nat) (values : GridArray α) (id : Nat) :
    (data.setField n values).fieldArray id =
      if n = id ∧ n < data.fields.size then values else data.fieldArray id := by
  rw [fieldArray_eq, fieldArray_eq, setField, Array.getElem?_setIfInBounds]
  by_cases hid : n = id
  · subst hid
    by_cases hlt : n < data.fields.size
    · rw [if_pos rfl, if_pos hlt, if_pos ⟨rfl, hlt⟩, Option.getD_some]
    · rw [if_pos rfl, if_neg hlt, if_neg fun h => hlt h.2,
        Array.getElem?_eq_none_iff.mpr (Nat.le_of_not_lt hlt)]
  · rw [if_neg hid, if_neg fun h => hid h.1]

/-- **An array that is set** does not differ any more. -/
theorem AgreeExcept.setField (h : AgreeExcept stale data data') (n : Nat) (values : GridArray α) :
    AgreeExcept (fun id => stale id ∧ id ≠ n) (data.setField n values) (data'.setField n values) := by
  refine ⟨?_, ?_, fun id hid => ?_⟩
  · rw [KernelData.setField, h.rest]
    rfl
  · show (data'.fields.setIfInBounds n values).size = (data.fields.setIfInBounds n values).size
    rw [Array.size_setIfInBounds, Array.size_setIfInBounds, h.size]
  · rw [fieldArray_setField, fieldArray_setField, h.size]
    by_cases hset : n = id ∧ n < data.fields.size
    · rw [if_pos hset, if_pos hset]
    · rw [if_neg hset, if_neg hset]
      by_cases hn : id = n
      · -- The field has no array in either.
        have hout : data.fields.size ≤ id := Nat.le_of_not_lt fun hlt => hset ⟨hn.symm, hn ▸ hlt⟩
        rw [fieldArray_eq, fieldArray_eq, Array.getElem?_eq_none_iff.mpr hout,
          Array.getElem?_eq_none_iff.mpr (h.size ▸ hout)]
      · exact h.arrays id fun hstale => hid ⟨hstale, hn⟩

/-- Setting the array of a field changes that array at most. -/
theorem agreeExcept_setField (data : KernelData α) {n : Nat} (hn : stale n) (values : GridArray α) :
    AgreeExcept stale data (data.setField n values) := by
  refine ⟨rfl, Array.size_setIfInBounds, fun id hid => ?_⟩
  have hne : n ≠ id := fun heq => hid (heq ▸ hn)
  rw [fieldArray_setField, if_neg fun hset => hne hset.1]

end KernelData

variable [Scalar α]

/-- **A compiled kernel** has its form and the programs of it. -/
theorem CompiledKernel.emit_eq_ok [DecidableEq α] {dim : Nat} {form : Form α} {k : CompiledKernel α}
    (h : emit dim form = .ok k) : k.form = form ∧ lowerForm form = .ok k.program ∧
      precomputedPrograms form = .ok k.fieldPrograms := by
  obtain ⟨-, h⟩ := require_bind_eq_ok_iff.mp h
  obtain ⟨-, h⟩ := require_bind_eq_ok_iff.mp h
  obtain ⟨p, hp, h⟩ := bind_eq_ok_iff.mp h
  obtain ⟨programs, hprograms, h⟩ := bind_eq_ok_iff.mp h
  obtain rfl := Except.ok.inj h
  exact ⟨rfl, hp, hprograms⟩

/-- **Evaluating some fields over the grid** changes their arrays at most. -/
theorem CompiledKernel.agreeExcept_evaluateFields {k : CompiledKernel α} {items : List (Nat × Program α)}
    {data data' : KernelData α} (h : items.foldlM k.evaluateField data = .ok data') :
    data.AgreeExcept (· ∈ items.map (·.1)) data' := by
  induction items generalizing data with
  | nil =>
    obtain rfl := Except.ok.inj h
    exact .refl _ _
  | cons item items ih =>
    rw [List.foldlM_cons, bind_eq_ok_iff] at h
    obtain ⟨middle, hmiddle, h⟩ := h
    obtain ⟨values, -, hmiddle⟩ := bind_eq_ok_iff.mp hmiddle
    obtain rfl := Except.ok.inj hmiddle
    have hfirst : data.AgreeExcept (· ∈ (item :: items).map (·.1)) (data.setField item.1 values) :=
      KernelData.agreeExcept_setField data (List.mem_cons_self ..) values
    exact hfirst.trans ((ih h).mono fun id hid => List.mem_cons_of_mem _ hid)

/-- Precomputed fields are evaluated one after the other, each from the data after those before it. -/
theorem CompiledKernel.evaluatePrecomputed_eq (k : CompiledKernel α) (data : KernelData α) :
    k.evaluatePrecomputed data = k.fieldPrograms.foldlM k.evaluateField data :=
  InPlace.finished_forM_change (fun item data => k.evaluateField data item) k.fieldPrograms data

/-- **Evaluating precomputed fields** changes their arrays at most. -/
theorem CompiledKernel.agreeExcept_evaluatePrecomputed {k : CompiledKernel α} {data data' : KernelData α}
    (h : k.evaluatePrecomputed data = .ok data') :
    data.AgreeExcept (· ∈ k.fieldPrograms.map (·.1)) data' :=
  agreeExcept_evaluateFields ((k.evaluatePrecomputed_eq data).symm.trans h)

/-! ## (2) Tables -/

/-- **Tables have the supports of their bases,** if there is an axis for each of them. -/
theorem spaceTables_supports [ScalarText α] {bases : List (KnotVector α)} {maxDeriv : Nat}
    {grid : TensorQuadrature α} {tables : List (AxisTables α)}
    (hlen : bases.length = grid.axes.length) (h : spaceTables bases grid maxDeriv = .ok tables) :
    tables.map (·.support) = bases.map (·.meshSupport) := by
  have hall : List.Forall₂ (fun (x : KnotVector α × CompositeRule α) t => x.1.meshSupport = t.support)
      (bases.zip grid.axes) tables := by
    refine (mapM_eq_ok_iff.mp h).imp fun x t ht => ?_
    obtain ⟨table, -, ht⟩ := bind_eq_ok_iff.mp ht
    obtain rfl := Except.ok.inj ht
    rfl
  have hfirst : (bases.zip grid.axes).map (fun x => x.1.meshSupport) = bases.map (·.meshSupport) := by
    have hbases := List.map_fst_zip (Nat.le_of_eq hlen)
    conv_rhs => rw [← hbases, List.map_map]
    rfl
  rw [← hfirst]
  have heq : List.Forall₂ (· = ·) ((bases.zip grid.axes).map fun x => x.1.meshSupport)
      (tables.map (·.support)) := by
    rw [List.forall₂_map_left_iff, List.forall₂_map_right_iff]
    exact hall
  rw [List.forall₂_eq_eq_eq] at heq
  exact heq.symm

/-- **Tables have the nodes of the grid,** if there is an axis for each of them. -/
theorem spaceTables_points [ScalarText α] {bases : List (KnotVector α)} {maxDeriv : Nat}
    {grid : TensorQuadrature α} {tables : List (AxisTables α)}
    (hlen : bases.length = grid.axes.length) (h : spaceTables bases grid maxDeriv = .ok tables) :
    tables.map (·.table.points) = grid.shape := by
  have hall : List.Forall₂ (fun (x : KnotVector α × CompositeRule α) t => t.table.points = x.2.nodes.size)
      (bases.zip grid.axes) tables := by
    refine (mapM_eq_ok_iff.mp h).imp fun x t ht => ?_
    obtain ⟨table, htable, ht⟩ := bind_eq_ok_iff.mp ht
    obtain rfl := Except.ok.inj ht
    rw [KnotVector.evaluateDerivatives_eq_ok htable]
    exact Array.length_toList
  have hsecond : (bases.zip grid.axes).map (fun x => x.2.nodes.size) = grid.shape := by
    rw [TensorQuadrature.shape]
    conv_rhs => rw [← List.map_snd_zip (Nat.le_of_eq hlen.symm), List.map_map]
    rfl
  rw [← hsecond]
  have heq : List.Forall₂ (· = ·) (tables.map (·.table.points))
      ((bases.zip grid.axes).map fun x => x.2.nodes.size) := by
    rw [List.forall₂_map_left_iff, List.forall₂_map_right_iff]
    exact hall.flip
  rwa [List.forall₂_eq_eq_eq] at heq

/-- Tables have as many functions as the knot vectors whose supports they have. -/
theorem map_dofs_eq {tables : List (AxisTables α)} {bases : List (KnotVector α)}
    (h : tables.map (·.support) = bases.map (·.meshSupport)) :
    tables.map (·.dofs) = bases.map (·.dofs) := by
  have hsizes := congrArg (List.map Array.size) h
  rw [List.map_map, List.map_map] at hsizes
  exact hsizes.trans (List.map_congr_left fun v _ => v.size_meshSupport)

/-- Functions of the bases are functions of the tables. -/
theorem forall₂_dofs {bases : List (KnotVector α)} {tables : List (AxisTables α)}
    (h : tables.map (·.support) = bases.map (·.meshSupport)) {index : List Nat}
    (hindex : List.Forall₂ (fun i kv => i < kv.dofs) index bases) :
    List.Forall₂ (fun i t => i < t.dofs) index tables := by
  have hdofs : List.Forall₂ (· < ·) index (bases.map (·.dofs)) := List.forall₂_map_right_iff.mpr hindex
  rw [← map_dofs_eq h, List.forall₂_map_right_iff] at hdofs
  exact hdofs

/-! ## (3) Prepared data -/

variable [Circular α] [ScalarText α]

/-- **The data hold grid and tables of some bases,** whatever their fields: Gauss nodes on the meshes of
the trial functions, and the derivatives of all functions there. -/
structure KernelData.Tabulates (data : KernelData α) (bases : KernelBases α)
    (maxDeriv : Nat) : Prop where
  grid : TensorQuadrature.gauss (bases.trial.map fun kv => kv.mesh.toList)
    data.pointsPerElement = .ok data.quadrature
  trial : spaceTables bases.trial data.quadrature maxDeriv = .ok data.trial
  test : spaceTables bases.test data.quadrature maxDeriv = .ok data.test

/-- Data with the same tables on as many points have the same grid and the same tables. -/
theorem KernelData.Tabulates.same {data data' : KernelData α} {bases : KernelBases α} {maxDeriv : Nat}
    (h : data.Tabulates bases maxDeriv) (h' : data'.Tabulates bases maxDeriv)
    (hpoints : data.pointsPerElement = data'.pointsPerElement) :
    data.quadrature = data'.quadrature ∧ data.trial = data'.trial ∧ data.test = data'.test := by
  have hsame := h.grid
  rw [hpoints] at hsame
  have hgrid := Except.ok.inj (hsame.symm.trans h'.grid)
  exact ⟨hgrid, Except.ok.inj (h.trial.symm.trans (hgrid ▸ h'.trial)),
    Except.ok.inj (h.test.symm.trans (hgrid ▸ h'.test))⟩

namespace CompiledKernel

/-- **Prepared data hold grid and tables of their bases.** -/
theorem prepare_tabulates {k : CompiledKernel α} {bases : KernelBases α}
    {geometry : GeometryMap α} {data : KernelData α} (h : k.prepare bases geometry = .ok data) :
    data.Tabulates bases k.form.requirements.maxDeriv := by
  obtain ⟨-, h⟩ := require_bind_eq_ok_iff.mp h
  obtain ⟨-, -, h⟩ := bind_eq_ok_iff.mp h
  obtain ⟨grid, hgrid, h⟩ := bind_eq_ok_iff.mp h
  obtain ⟨trial, htrial, h⟩ := bind_eq_ok_iff.mp h
  obtain ⟨test, htest, h⟩ := bind_eq_ok_iff.mp h
  obtain ⟨jacobian, -, h⟩ := bind_eq_ok_iff.mp h
  obtain ⟨physical, -, h⟩ := bind_eq_ok_iff.mp h
  obtain ⟨fields, -, h⟩ := bind_eq_ok_iff.mp h
  rw [(agreeExcept_evaluatePrecomputed h).rest]
  refine ⟨hgrid, htrial, ?_⟩
  cases bases with
  | shared bases =>
    obtain rfl := Except.ok.inj htest
    exact htrial
  | separate trial test => exact htest

end CompiledKernel

/-- There is an axis for each trial function space. -/
theorem KernelData.Tabulates.length_axes {data : KernelData α} {bases : KernelBases α} {maxDeriv : Nat}
    (h : data.Tabulates bases maxDeriv) : bases.trial.length = data.quadrature.axes.length := by
  have haxes := (gauss_eq_ok_iff.mp h.grid).2.length_eq
  rwa [List.length_map] at haxes

/-- **The data have the supports of bases on the same meshes.** -/
theorem KernelData.Tabulates.supports {data : KernelData α} {bases : KernelBases α} {maxDeriv : Nat}
    (h : data.Tabulates bases maxDeriv) (hlen : bases.trial.length = bases.test.length) :
    bases.trial ≠ [] ∧ data.trial.map (·.support) = bases.trial.map (·.meshSupport) ∧
      data.test.map (·.support) = bases.test.map (·.meshSupport) :=
  ⟨fun hnil => (gauss_eq_ok_iff.mp h.grid).1 (List.map_eq_nil_iff.mpr hnil),
    spaceTables_supports h.length_axes h.trial, spaceTables_supports (hlen.symm.trans h.length_axes) h.test⟩

/-- **The tables have the nodes of the grid.** -/
theorem KernelData.Tabulates.points {data : KernelData α} {bases : KernelBases α} {maxDeriv : Nat}
    (h : data.Tabulates bases maxDeriv) (hlen : bases.trial.length = bases.test.length) :
    data.test.map (·.table.points) = data.quadrature.shape :=
  spaceTables_points (hlen.symm.trans h.length_axes) h.test

end Galerkin
