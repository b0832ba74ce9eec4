import Galerkin.Proofs.Form.Inputs
import Galerkin.Proofs.Form.Programs
import Galerkin.Proofs.Geometry.Images
import Galerkin.Proofs.Kernel.Data
import Galerkin.Proofs.Quadrature.Composite

/-! # Preparing the arrays of a kernel

Preparation samples builtin and input fields and then evaluates the precomputed fields in the order of
their numbers. The program of each reads fields with lower numbers only, so whatever the arrays of
precomputed fields are before, they do not matter: each is written before it is read.

* **`CompiledKernel.Ordered`**, **`CompiledKernel.ordered_of_emit`** — the order of the programs;
* **`CompiledKernel.evaluatePrecomputed_congr`** — stale arrays of precomputed fields do not matter;
* **`CompiledKernel.foundation`**, **`CompiledKernel.prepare_eq`** — preparation, field functions last;
* **`CompiledKernel.prepare_spec`** — grid, points and samples of prepared data;
* **`CompiledKernel.builtin_eq_of_prepare`** — two kernels sample a builtin field alike;
* **`CompiledKernel.points_not_empty`** — the physical points of prepared data. -/

namespace Galerkin

variable {α : Type}

/-! ## (1) The order of the programs -/

/-- **A kernel with the programs of precomputed fields in order:** each reads fields with lower numbers
only. -/
structure CompiledKernel.Ordered (k : CompiledKernel α) : Prop where
  form : k.form.Valid
  increasing : k.fieldPrograms.Pairwise (·.1 < ·.1)
  reads : ∀ item ∈ k.fieldPrograms, ∀ id ∈ item.2.fields, id < item.1
  precomputed : ∀ item ∈ k.fieldPrograms, ∃ f ∈ k.form.fields,
    (∃ e, f.definition = .precomputed e) ∧ f.id = item.1

/-- The fields of a form are in the order of their numbers. -/
theorem Form.Valid.increasing {form : Form α} (hform : form.Valid) :
    form.fields.Pairwise (·.id < ·.id) := by
  rw [List.pairwise_iff_getElem]
  intro i j hi hj hij
  rw [hform.numbers (List.getElem?_eq_getElem hi), hform.numbers (List.getElem?_eq_getElem hj)]
  exact hij

section Programs

variable [Scalar α] [DecidableEq α] {form : Form α}

namespace CompiledKernel

/-- A program with a number is that of a precomputed field. -/
theorem fieldProgram?_eq_some {f : FieldVariable α} {item : Nat × Program α}
    (h : fieldProgram? form f = .ok (some item)) : (∃ e, f.definition = .precomputed e) ∧
      f.id = item.1 ∧ lowerField form f = .ok item.2 := by
  unfold fieldProgram? at h
  split at h
  · obtain ⟨p, hp, h⟩ := bind_eq_ok_iff.mp h
    obtain rfl := Option.some.inj (Except.ok.inj h)
    exact ⟨⟨_, ‹_›⟩, rfl, hp⟩
  · cases h

/-- The programs of some fields are in the order of the fields, and each is that of a precomputed field. -/
theorem filterMapM_fieldProgram? {fields : List (FieldVariable α)} {items : List (Nat × Program α)}
    (hfields : fields.Pairwise (·.id < ·.id)) (h : fields.filterMapM (fieldProgram? form) = .ok items) :
    items.Pairwise (·.1 < ·.1) ∧ ∀ item ∈ items, ∃ f ∈ fields, (∃ e, f.definition = .precomputed e) ∧
      f.id = item.1 ∧ lowerField form f = .ok item.2 := by
  induction fields generalizing items with
  | nil =>
    rw [List.filterMapM_nil] at h
    obtain rfl := Except.ok.inj h
    exact ⟨.nil, fun _ h => nomatch h⟩
  | cons f fields ih =>
    obtain ⟨hlt, hfields⟩ := List.pairwise_cons.mp hfields
    rw [List.filterMapM_cons] at h
    obtain ⟨result, hresult, h⟩ := bind_eq_ok_iff.mp h
    cases result with
    | none =>
      obtain ⟨hitems, hall⟩ := ih hfields h
      exact ⟨hitems, fun item hitem => (hall item hitem).imp fun _ hg => ⟨List.mem_cons_of_mem _ hg.1, hg.2⟩⟩
    | some first =>
      obtain ⟨rest, hrest, h⟩ := bind_eq_ok_iff.mp h
      obtain rfl := Except.ok.inj h
      obtain ⟨hitems, hall⟩ := ih hfields hrest
      have hfirst := fieldProgram?_eq_some hresult
      refine ⟨List.pairwise_cons.mpr ⟨fun item hitem => ?_, hitems⟩, List.forall_mem_cons.mpr ⟨?_, ?_⟩⟩
      · -- Later programs are those of later fields.
        obtain ⟨g, hg, -, hid, -⟩ := hall item hitem
        rw [← hfirst.2.1, ← hid]
        exact hlt g hg
      · exact ⟨f, List.mem_cons_self .., hfirst⟩
      · exact fun item hitem => (hall item hitem).imp fun _ hg => ⟨List.mem_cons_of_mem _ hg.1, hg.2⟩

/-- **Kernels are compiled in order.** -/
theorem ordered_of_emit (hform : form.Valid) {dim : Nat} {k : CompiledKernel α}
    (h : emit dim form = .ok k) : k.form = form ∧ k.Ordered := by
  obtain ⟨rfl, -, hprograms⟩ := emit_eq_ok h
  obtain ⟨hitems, hall⟩ := filterMapM_fieldProgram? hform.increasing hprograms
  refine ⟨rfl, hform, hitems, fun item hitem id hid => ?_, fun item hitem => ?_⟩
  · obtain ⟨f, hf, -, hnumber, hp⟩ := hall item hitem
    obtain ⟨c, g, -, rfl, hlt, -⟩ := ((lowerField_reads hform hf).1 _ hp).1.fields id hid
    exact hnumber ▸ hlt
  · obtain ⟨f, hf, hprecomputed, hnumber, -⟩ := hall item hitem
    exact ⟨f, hf, hprecomputed, hnumber⟩

end CompiledKernel

end Programs

/-! ## (2) Stale arrays -/

namespace CompiledKernel

variable [Scalar α] {data data' : KernelData α}

/-- The values of a program over the grid depend on the arrays that it reads. -/
theorem evaluateOnGrid_congr {p : Program α}
    (h : ∀ id ∈ p.fields, data'.fieldArray id = data.fieldArray id) (shape : List Nat) (components : Nat) :
    evaluateOnGrid data' p shape components = evaluateOnGrid data p shape components := by
  unfold evaluateOnGrid programFields
  rw [List.map_congr_left h]

/-- Evaluating a field is a step over the grid. -/
theorem evaluateField_eq (k : CompiledKernel α) (data : KernelData α) (item : Nat × Program α) :
    k.evaluateField data item = evaluateOnGrid data item.2 data.quadrature.shape
      ((k.form.fields[item.1]?.map (·.storageSize)).getD 0) >>= fun values =>
        .ok (data.setField item.1 values) := rfl

/-- **Stale arrays do not matter.** Precomputed fields are evaluated to the same arrays whatever arrays they
have before. -/
theorem evaluatePrecomputed_congr {k : CompiledKernel α} (hk : k.Ordered)
    (h : data.AgreeExcept (· ∈ k.fieldPrograms.map (·.1)) data') :
    k.evaluatePrecomputed data' = k.evaluatePrecomputed data := by
  rw [evaluatePrecomputed_eq, evaluatePrecomputed_eq]
  obtain ⟨-, hincreasing, hreads, -⟩ := hk
  -- The fields whose programs are still to come are stale, and no program reads one of those.
  generalize k.fieldPrograms = items at hincreasing hreads h
  induction items generalizing data data' with
  | nil =>
    have hsame : data' = data := (h.mono fun _ hid => nomatch hid).eq
    rw [hsame]
  | cons item items ih =>
    obtain ⟨hlater, hincreasing⟩ := List.pairwise_cons.mp hincreasing
    obtain ⟨hread, hreads⟩ := List.forall_mem_cons.mp hreads
    have hfresh : ∀ id ∈ item.2.fields, data'.fieldArray id = data.fieldArray id := by
      refine fun id hid => h.arrays id fun hstale => ?_
      have hlt := hread id hid
      rcases List.mem_cons.mp hstale with rfl | hstale
      · exact Nat.lt_irrefl _ hlt
      · obtain ⟨later, hmem, rfl⟩ := List.mem_map.mp hstale
        exact Nat.lt_asymm hlt (hlater later hmem)
    have hshape : data'.quadrature = data.quadrature := by rw [h.rest]
    rw [List.foldlM_cons, List.foldlM_cons, evaluateField_eq, evaluateField_eq,
      evaluateOnGrid_congr hfresh, hshape]
    cases evaluateOnGrid data item.2 data.quadrature.shape _ with
    | error e => rfl
    | ok values =>
      refine ih hincreasing hreads ((h.setField item.1 values).mono fun id hid => ?_)
      exact (List.mem_cons.mp hid.1).resolve_left hid.2

/-! ## (3) Fields -/

/-- The fields of prepared data: those that are sampled, then the precomputed ones. -/
def fillFields (k : CompiledKernel α) (base : KernelData α) (jacobian : JacobianData α) :
    Except Error (KernelData α) := do
  let fields ← k.form.fields.mapM (k.initialField base.quadrature jacobian base.points)
  k.evaluatePrecomputed { base with fields := fields.toArray }

variable {k : CompiledKernel α} {base : KernelData α} {jacobian : JacobianData α}

/-- **The array of a geometry field** is there if the Jacobian is, and if there is room for what is stored. -/
theorem initialField_builtin_iff {grid : TensorQuadrature α} {points values : GridArray α}
    {f : FieldVariable α} {which : BuiltinField} (hf : f.definition = .builtin which) :
    k.initialField grid jacobian points f = .ok values ↔
      ∃ determinants inverses, jacobian = some (determinants, inverses) ∧
        geometryField? which grid determinants inverses f.storageSize = some values := by
  rw [initialField, hf]
  rcases jacobian with - | ⟨determinants, inverses⟩
  · exact ⟨fun h => (nomatch h), fun ⟨_, _, h, _⟩ => nomatch h⟩
  · simp only [Option.some.injEq, Prod.mk.injEq, and_assoc, exists_and_left, exists_eq_left']
    cases geometryField? which grid determinants inverses f.storageSize with
    | none => exact ⟨fun h => (nomatch h), fun h => nomatch h⟩
    | some written =>
      exact ⟨fun h => congrArg some (Except.ok.inj h), fun h => congrArg Except.ok (Option.some.inj h)⟩

/-- **The array of a field that is not precomputed** is what was sampled for it. -/
theorem sampled_of_evaluatePrecomputed (hk : k.Ordered)
    {sample : FieldVariable α → Except Error (GridArray α)} {fields : List (GridArray α)}
    (hfields : k.form.fields.mapM sample = .ok fields)
    (h : k.evaluatePrecomputed { base with fields := fields.toArray } = .ok data)
    {f : FieldVariable α} (hf : f ∈ k.form.fields) (hsampled : ∀ e, f.definition ≠ .precomputed e) :
    sample f = .ok (data.fieldArray f.id) := by
  have hfresh : f.id ∉ k.fieldPrograms.map (·.1) := by
    intro hmem
    obtain ⟨item, hitem, hid⟩ := List.mem_map.mp hmem
    obtain ⟨g, hg, ⟨e, he⟩, hgid⟩ := hk.precomputed item hitem
    rw [hk.form.eq_of_id hg hf (hgid.trans hid)] at he
    exact hsampled e he
  rw [(agreeExcept_evaluatePrecomputed h).arrays _ hfresh]
  obtain ⟨hlength, hget⟩ := forall₂_iff_getElem?.mp (mapM_eq_ok_iff.mp hfields)
  have hlt : f.id < fields.length := hlength ▸ hk.form.id_lt hf
  rw [hget f.id f _ (hk.form.getElem?_id hf) (List.getElem?_eq_getElem hlt), KernelData.fieldArray_eq,
    List.getElem?_toArray, List.getElem?_eq_getElem hlt, Option.getD_some]

/-- Filling in fields leaves everything else. -/
theorem rest_of_fillFields (h : k.fillFields base jacobian = .ok data) :
    data = { base with fields := data.fields } := by
  obtain ⟨fields, -, h⟩ := bind_eq_ok_iff.mp h
  exact (agreeExcept_evaluatePrecomputed h).rest

/-! ## (4) Preparation -/

variable [Circular α] [ScalarText α]

/-- **What is prepared before the fields:** grid, tables and physical points, with no field so far, and the
Jacobian. -/
def foundation (k : CompiledKernel α) (bases : KernelBases α) (geometry : GeometryMap α) :
    Except Error (KernelData α × JacobianData α) := do
  let dim := k.form.dim
  require (geometry.dim == dim) (.kernel (.geometryDimension k.name dim geometry.dim))
  bases.checkMeshes k.name
  let points := bases.pointsPerElement
  let grid ← TensorQuadrature.gauss (bases.trial.map fun kv => kv.mesh.toList) points
  let maxDeriv := k.form.requirements.maxDeriv
  let trial ← spaceTables bases.trial grid maxDeriv
  let test ← testTables bases grid maxDeriv trial
  let jacobian ← k.jacobianData geometry grid
  let physical ← k.physicalPoints geometry grid
  pure (⟨trial, test, points, grid, #[], physical⟩, jacobian)

variable {bases : KernelBases α} {geometry : GeometryMap α}

/-- **Preparation fills in the fields last.** -/
theorem prepare_eq (k : CompiledKernel α) (bases : KernelBases α) (geometry : GeometryMap α) :
    k.prepare bases geometry =
      k.foundation bases geometry >>= fun (base, jacobian) => k.fillFields base jacobian := by
  unfold prepare foundation
  simp only [bind_assoc, pure_bind]
  rfl

/-- What the foundation is made of. -/
theorem foundation_spec (h : k.foundation bases geometry = .ok (base, jacobian)) :
    TensorQuadrature.gauss (bases.trial.map fun kv => kv.mesh.toList) bases.pointsPerElement =
        .ok base.quadrature ∧
      base.pointsPerElement = bases.pointsPerElement ∧
      k.jacobianData geometry base.quadrature = .ok jacobian ∧
      k.physicalPoints geometry base.quadrature = .ok base.points := by
  obtain ⟨-, h⟩ := require_bind_eq_ok_iff.mp h
  obtain ⟨-, -, h⟩ := bind_eq_ok_iff.mp h
  obtain ⟨grid, hgrid, h⟩ := bind_eq_ok_iff.mp h
  obtain ⟨trial, -, h⟩ := bind_eq_ok_iff.mp h
  obtain ⟨test, -, h⟩ := bind_eq_ok_iff.mp h
  obtain ⟨jacobian', hjacobian, h⟩ := bind_eq_ok_iff.mp h
  obtain ⟨physical, hphysical, h⟩ := bind_eq_ok_iff.mp h
  obtain ⟨rfl, rfl⟩ := Prod.mk.inj (Except.ok.inj h)
  exact ⟨hgrid, rfl, hjacobian, hphysical⟩

/-- **There are physical points** if a field samples a function there. -/
theorem points_not_empty (hinput : k.hasInput = true) (hgeometry : geometry.Made)
    (h : k.foundation bases geometry = .ok (base, jacobian)) : base.points.isEmpty = false := by
  obtain ⟨hgrid, -, -, hphysical⟩ := foundation_spec h
  rw [physicalPoints, if_pos hinput] at hphysical
  obtain ⟨haxes, hnodes⟩ := axes_of_gauss hgrid
  exact hgeometry.onGrid_not_empty haxes hnodes hphysical

/-- **Prepared data** hold what was sampled for every field that is not precomputed. -/
theorem prepare_spec (hk : k.Ordered) (h : k.prepare bases geometry = .ok data) :
    data.pointsPerElement = bases.pointsPerElement ∧
      k.physicalPoints geometry data.quadrature = .ok data.points ∧
      ∃ jacobian, k.jacobianData geometry data.quadrature = .ok jacobian ∧
        ∀ f ∈ k.form.fields, (∀ e, f.definition ≠ .precomputed e) →
          k.initialField data.quadrature jacobian data.points f = .ok (data.fieldArray f.id) := by
  rw [prepare_eq] at h
  obtain ⟨⟨base, jacobian⟩, hbase, hfill⟩ := bind_eq_ok_iff.mp h
  obtain ⟨-, hpoints, hjacobian, hphysical⟩ := foundation_spec hbase
  have hrest := rest_of_fillFields hfill
  have hquadrature : data.quadrature = base.quadrature := by rw [hrest]
  have hsame : data.points = base.points := by rw [hrest]
  obtain ⟨fields, hfields, hfill⟩ := bind_eq_ok_iff.mp hfill
  rw [hquadrature, hsame]
  refine ⟨?_, hphysical, jacobian, hjacobian, fun f hf hother => ?_⟩
  · rw [hrest, ← hpoints]
  · exact sampled_of_evaluatePrecomputed hk hfields hfill hf hother

/-- **Kernels of one dimension that are prepared over one geometry** have the same geometry fields with as
many components, if both need the Jacobian or neither does. -/
theorem builtin_eq_of_prepare {k' : CompiledKernel α} {data' : KernelData α} (hk : k.Ordered)
    (hk' : k'.Ordered) (hdim : k.form.dim = k'.form.dim)
    (hneeds : k.form.requirements.jacobian = k'.form.requirements.jacobian)
    (h : k.prepare bases geometry = .ok data) (h' : k'.prepare bases geometry = .ok data')
    {f f' : FieldVariable α} (hf : f ∈ k.form.fields) (hf' : f' ∈ k'.form.fields) {which : BuiltinField}
    (hdef : f.definition = .builtin which) (hdef' : f'.definition = .builtin which)
    (hsize : f.storageSize = f'.storageSize) :
    data.fieldArray f.id = data'.fieldArray f'.id := by
  obtain ⟨hpoints, -, jacobian, hjacobian, hfields⟩ := prepare_spec hk h
  obtain ⟨hpoints', -, jacobian', hjacobian', hfields'⟩ := prepare_spec hk' h'
  have hgrid : data.quadrature = data'.quadrature := by
    have hgauss := (prepare_tabulates h).grid
    have hgauss' := (prepare_tabulates h').grid
    rw [hpoints] at hgauss
    rw [hpoints'] at hgauss'
    exact Except.ok.inj (hgauss.symm.trans hgauss')
  have hsame : jacobian = jacobian' := by
    rw [jacobianData, hneeds, hdim, hgrid] at hjacobian
    exact Except.ok.inj (hjacobian.symm.trans hjacobian')
  have hfield := hfields f hf fun _ he => nomatch hdef.symm.trans he
  have hfield' := hfields' f' hf' fun _ he => nomatch hdef'.symm.trans he
  obtain ⟨determinants, inverses, hjacobian, hvalues⟩ := (initialField_builtin_iff hdef).mp hfield
  obtain ⟨determinants', inverses', hjacobian', hvalues'⟩ := (initialField_builtin_iff hdef').mp hfield'
  obtain ⟨rfl, rfl⟩ := Prod.mk.inj (Option.some.inj (hjacobian.symm.trans (hsame.trans hjacobian')))
  rw [hgrid, hsize] at hvalues
  exact Option.some.inj (hvalues.symm.trans hvalues')

end CompiledKernel

/-- **The samples of a function** are its values at the nodes. -/
theorem get?_sampleInput {shape : List Nat} {points : GridArray α} {f : InputFunction α}
    {values : GridArray α} (h : sampleInput shape points f = .ok values) {n : Nat} (hn : n < points.nodes) :
    ∃ x, f (points.nodeData n).toList = .ok x ∧ values.get? n 0 = some x := by
  obtain ⟨xs, hxs, h⟩ := bind_eq_ok_iff.mp h
  obtain rfl := Except.ok.inj h
  obtain ⟨hlength, hget⟩ := forall₂_iff_getElem?.mp (mapM_eq_ok_iff.mp hxs)
  have hlt : n < xs.length := by rwa [← hlength, List.length_range]
  refine ⟨xs[n], hget n n _ (List.getElem?_range hn) (List.getElem?_eq_getElem hlt), ?_⟩
  have hsize : ∀ node ∈ xs.map fun x => #[x], node.size = 1 := List.forall_mem_map.mpr fun _ _ => rfl
  rw [GridArray.get?_ofNodes hsize n Nat.one_pos, List.getElem?_map, List.getElem?_eq_getElem hlt]
  rfl

end Galerkin
