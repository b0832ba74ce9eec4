import Galerkin.Proofs.Kernel.GeometryFields
import Galerkin.Proofs.Kernel.Ranges
import Galerkin.Proofs.Kernel.SeparateMeshes

/-! # Prepared data fit their form

The kernels read in range on data that fit their form. Preparation makes such data: grid and tables of the given
bases, and for every array field an array with the components that the field keeps. Geometry fields are stored
in arrays of this size, fields that sample a function keep one component, and the programs of precomputed fields
have one output for each component.

* **`CompiledKernel.holds_of_prepare`** — the arrays of prepared data;
* **`CompiledKernel.fits_of_prepare`** — prepared data fit the form. -/

namespace Galerkin

variable {α : Type} [Scalar α]

/-! ## (1) Samples and meshes -/

omit [Scalar α] in
/-- The samples of a function are one component for each point. -/
theorem holds_sampleInput {shape : List Nat} {points : GridArray α} {f : InputFunction α}
    {values : GridArray α} (h : sampleInput shape points f = .ok values) : values.Holds points.nodes 1 := by
  obtain ⟨xs, hxs, h⟩ := bind_eq_ok_iff.mp h
  obtain rfl := Except.ok.inj h
  have hlength : (xs.map fun x => #[x]).length = points.nodes := by
    rw [List.length_map, ← (mapM_eq_ok_iff.mp hxs).length_eq, List.length_range]
  have hsize : ∀ node ∈ xs.map fun x => #[x], node.size = 1 := List.forall_mem_map.mpr fun _ _ => rfl
  exact ⟨hlength, rfl, (GridArray.size_ofNodes hsize).trans (congrArg (· * 1) hlength)⟩

/-- **Bases that pass the mesh check** have as many elements on every axis. -/
theorem KernelBases.elements_of_checkMeshes {bases : KernelBases α} {kernel : String}
    (h : bases.checkMeshes kernel = .ok ()) (hlength : bases.trial.length = bases.test.length) :
    bases.trial.map (·.elements) = bases.test.map (·.elements) := by
  cases bases with
  | shared bases => rfl
  | separate trial test =>
    refine List.ext_getElem (by rw [List.length_map, List.length_map, hlength]) fun a hu hv => ?_
    rw [List.length_map] at hu hv
    rw [List.getElem_map, List.getElem_map]
    have hsame := checkMeshes_separate_iff.mp h a _ _ (List.getElem?_eq_getElem hu)
      (List.getElem?_eq_getElem hv)
    have hsize : trial[a].mesh.size = test[a].mesh.size := eq_of_beq (Bool.and_eq_true _ _ ▸ hsame).1
    exact congrArg (· - 1) hsize

/-! ## (2) Arrays -/

variable [DecidableEq α] [Circular α] [ScalarText α] {b : FormBuilder α} {form : Form α} {dim : Nat}
  {k : CompiledKernel α} {bases : KernelBases α} {geometry : GeometryMap α} {data : KernelData α}

namespace CompiledKernel

/-- **Prepared data hold the components of every array field** at every node of the grid. -/
theorem holds_of_prepare (hb : b.Reachable) (hfinal : b.finalize = .ok form) (hk : emit dim form = .ok k)
    (h : k.prepare bases geometry = .ok data) {f : FieldVariable α} (hf : f ∈ form.fields)
    (harray : f.isArray = true) (hcount : nodeCount data.quadrature.shape * f.storageSize < UInt64.size) :
    (data.fieldArray f.id).Holds (nodeCount data.quadrature.shape) f.storageSize := by
  have hform := hb.valid.form hfinal
  obtain ⟨hkform, hordered⟩ := ordered_of_emit hform hk
  obtain ⟨-, -, hprograms⟩ := emit_eq_ok hk
  subst hkform
  cases hdef : f.definition with
  | builtin which => exact (geometry_of_prepare hordered h hf hdef hcount).1
  | perEntry o =>
    rw [FieldVariable.isArray, hdef] at harray
    cases harray
  | input function =>
    obtain ⟨-, hphysical, jacobian, -, hfields⟩ := prepare_spec hordered h
    have hsampled := hfields f hf fun o he => by
      rw [hdef] at he
      cases he
    have hinput : k.hasInput = true := List.any_eq_true.mpr ⟨f, hf, by rw [hdef]⟩
    rw [physicalPoints, if_pos hinput] at hphysical
    have hpoints := GeometryMap.nodes_onGrid (axes_of_gauss (prepare_tabulates h).grid).1 hphysical
    obtain ⟨-, hsame⟩ := FormBuilder.finalize_eq_ok hfinal
    have hone : f.storageSize = 1 := hb.valid.inputs f (by rw [hsame] at hf; exact hf) function hdef
    rw [initialField, hdef] at hsampled
    cases function with
    | none => cases hsampled
    | some function =>
      rw [hone, ← hpoints]
      exact holds_sampleInput hsampled
  | precomputed o =>
    rw [prepare_eq] at h
    obtain ⟨⟨base, jacobian⟩, -, hfill⟩ := bind_eq_ok_iff.mp h
    have hrest := rest_of_fillFields hfill
    obtain ⟨fields, hfields, hfill⟩ := bind_eq_ok_iff.mp hfill
    obtain ⟨p, hmem, hp⟩ := exists_mem_programs hprograms hf hdef
    have hlength : fields.toArray.size = k.form.fields.length := (mapM_eq_ok_iff.mp hfields).length_eq.symm
    rw [evaluatePrecomputed_eq] at hfill
    have hfixed := evaluateFields_fixed (inOrder_of_programs hform hprograms) hlength hfill _ hmem
    rw [width_eq hform hf] at hfixed
    have hgrid : data.quadrature = base.quadrature := by rw [hrest]
    rw [hgrid]
    exact holds_evaluateOnGrid ((lowerField_reads hform hf).1 _ hp).1.slots hfixed

/-! ## (3) Kernels on prepared data -/

/-- **Prepared data fit their form,** if there is one basis for each axis of the form and the entries of every
array can be counted in words. -/
theorem fits_of_prepare (hb : b.Reachable) (hfinal : b.finalize = .ok form) (hk : emit dim form = .ok k)
    (h : k.prepare bases geometry = .ok data) (htrial : bases.trial.length = form.dim)
    (htest : bases.test.length = form.dim)
    (hcount : ∀ f ∈ form.fields, nodeCount data.quadrature.shape * f.storageSize < UInt64.size) :
    data.Fits form bases := by
  obtain ⟨hkform, -, -⟩ := emit_eq_ok hk
  obtain ⟨-, hcheck⟩ := require_bind_eq_ok_iff.mp h
  obtain ⟨⟨⟩, hcheck, -⟩ := bind_eq_ok_iff.mp hcheck
  refine ⟨hkform ▸ prepare_tabulates h, htrial, htest,
    KernelBases.elements_of_checkMeshes hcheck (htrial.trans htest.symm), fun f hf harray => ?_⟩
  have hholds := holds_of_prepare hb hfinal hk h hf harray (hcount f hf)
  have hpos := FieldVariable.storageSize_pos ((hb.valid.form hfinal).shapes f hf)
  rw [KernelData.fieldArray_eq] at hholds
  cases hget : data.fields[f.id]? with
  | some values => exact ⟨values, rfl, by rw [hget] at hholds; exact hholds⟩
  | none =>
    -- The missing array would be empty, and have no components.
    rw [hget] at hholds
    exact absurd hholds.components hpos.ne

end CompiledKernel

end Galerkin
