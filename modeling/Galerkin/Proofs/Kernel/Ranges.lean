import Galerkin.Proofs.Form.Programs
import Galerkin.Proofs.Kernel.Checked
import Galerkin.Proofs.Kernel.Entries

/-! # Kernels read what is there

The program of a form asks for derivatives up to the highest order of the form, and for components that
the fields have. The nodes that an entry visits lie under its functions, and no support ends behind the
last element. So on data with tables up to that order, and arrays with these components, an entry is the
same whether or not its reads and writes are checked. Nothing about the arithmetic is needed for this.

* **`AxisTables.Bounded`** — tables with the nodes under every function;
* **`KernelData.Fits`** — data that fit a form;
* **`CompiledKernel.combine?_eq`** — the loops over the nodes read what is there;
* **`FormBuilder.Reachable.entries_inRange`** — so do the entries of the forms of a builder. -/

namespace Galerkin

variable {α : Type} [Scalar α]

/-! ## (1) Extents of tables -/

/-- **A table with the nodes under every function:** it has all functions of its axis, `perElement` nodes
on each element of their supports, and derivatives up to order `maxDeriv`. -/
structure AxisTables.Bounded (t : AxisTables α) (perElement maxDeriv : Nat) : Prop where
  functions : t.table.functions = t.dofs
  last_le : ∀ i < t.dofs, perElement * (t.supportOf i).last ≤ t.table.points
  order : t.table.maxDeriv = maxDeriv

section Tables

variable [Circular α] [ScalarText α]

/-- **Tables over a grid** on meshes with as many elements have the nodes under every function. -/
theorem spaceTables_bounded {bases : List (KnotVector α)} {meshes : List (List α)}
    {perElement maxDeriv : Nat} {grid : TensorQuadrature α} {tables : List (AxisTables α)}
    (hgrid : List.Forall₂ (fun mesh axis => compositeGauss mesh perElement = .ok axis) meshes grid.axes)
    (hmeshes : List.Forall₂ (fun (kv : KnotVector α) mesh => kv.elements = mesh.length - 1) bases meshes)
    (h : spaceTables bases grid maxDeriv = .ok tables) :
    tables.map (·.table.points) = grid.shape ∧ ∀ t ∈ tables, t.Bounded perElement maxDeriv := by
  rw [spaceTables, mapM_eq_ok_iff] at h
  rw [TensorQuadrature.shape]
  generalize grid.axes = axes at h hgrid ⊢
  induction hmeshes generalizing axes tables with
  | nil =>
    obtain rfl := List.forall₂_nil_left_iff.mp hgrid
    obtain rfl := List.forall₂_nil_left_iff.mp h
    exact ⟨rfl, fun _ ht => absurd ht List.not_mem_nil⟩
  | @cons kv mesh kvs meshes helements hrest ih =>
    obtain ⟨axis, axes, haxis, haxes, rfl⟩ := List.forall₂_cons_left_iff.mp hgrid
    obtain ⟨t, ts, ht, hts, rfl⟩ := List.forall₂_cons_left_iff.mp h
    obtain ⟨table, htable, ht⟩ := bind_eq_ok_iff.mp ht
    obtain rfl := Except.ok.inj ht
    obtain rfl := KnotVector.evaluateDerivatives_eq_ok htable
    obtain ⟨hpoints, hbounded⟩ := ih axes hts haxes
    have hsize : axis.nodes.size = perElement * kv.elements := helements ▸ compositeGauss_size haxis
    refine ⟨?_, List.forall_mem_cons.mpr ⟨⟨?_, fun i hi => ?_, Int.toNat_natCast _⟩, hbounded⟩⟩
    · rw [List.map_cons, List.map_cons, hpoints, Array.length_toList]
    · exact kv.size_meshSupport.symm
    · show perElement * (kv.meshSupport.getD i ⟨0, 0⟩).last ≤ axis.nodes.toList.length
      rw [Array.length_toList, hsize, kv.getD_meshSupport (kv.size_meshSupport ▸ hi)]
      exact Nat.mul_le_mul_left _ (kv.elementOf_le _)

/-- **Data that fit a form:** grid and tables of some bases, up to the highest order of the form; one basis
per axis for the trial and for the test functions, with the same number of elements; and for every array
field an array with its components at every node. -/
structure KernelData.Fits (data : KernelData α) (form : Form α) (bases : KernelBases α) : Prop where
  tabulates : data.Tabulates bases form.requirements.maxDeriv
  trial : bases.trial.length = form.dim
  test : bases.test.length = form.dim
  elements : bases.trial.map (·.elements) = bases.test.map (·.elements)
  arrays : ∀ f ∈ form.fields, f.isArray = true →
    ∃ a, data.fields[f.id]? = some a ∧ a.Holds (nodeCount data.quadrature.shape) f.storageSize

/-- **The tables of data that fit.** -/
theorem KernelData.Fits.tables {data : KernelData α} {form : Form α} {bases : KernelBases α}
    (h : data.Fits form bases) : data.quadrature.shape ≠ [] ∧
      (data.trial.map (·.support) = bases.trial.map (·.meshSupport) ∧
        data.trial.map (·.table.points) = data.quadrature.shape ∧
        ∀ t ∈ data.trial, t.Bounded data.pointsPerElement form.requirements.maxDeriv) ∧
      data.test.map (·.support) = bases.test.map (·.meshSupport) ∧
        data.test.map (·.table.points) = data.quadrature.shape ∧
        ∀ t ∈ data.test, t.Bounded data.pointsPerElement form.requirements.maxDeriv := by
  obtain ⟨-, htrial, htest⟩ := h.tabulates.supports (h.trial.trans h.test.symm)
  obtain ⟨hne, hgrid⟩ := gauss_eq_ok_iff.mp h.tabulates.grid
  -- The grid lies on the meshes of the trial functions; those of the test functions are as long.
  have hmeshes : ∀ {kvs : List (KnotVector α)}, bases.trial.map (·.elements) = kvs.map (·.elements) →
      List.Forall₂ (fun (kv : KnotVector α) mesh => kv.elements = mesh.length - 1) kvs
        (bases.trial.map fun kv => kv.mesh.toList) := by
    intro kvs hkvs
    have hall : List.Forall₂ (· = ·) (kvs.map (·.elements)) (bases.trial.map (·.elements)) := by
      rw [List.forall₂_eq_eq_eq]
      exact hkvs.symm
    rw [List.forall₂_map_left_iff, List.forall₂_map_right_iff] at hall
    rw [List.forall₂_map_right_iff]
    exact hall.imp fun kv u hu => hu.trans (by rw [Array.length_toList]; rfl)
  refine ⟨fun hnil => hne ?_, ⟨htrial, spaceTables_bounded hgrid (hmeshes rfl) h.tabulates.trial⟩,
    htest, spaceTables_bounded hgrid (hmeshes h.elements) h.tabulates.test⟩
  rw [TensorQuadrature.shape, List.map_eq_nil_iff] at hnil
  rw [hnil] at hgrid
  exact List.forall₂_nil_right_iff.mp hgrid

end Tables

namespace CompiledKernel

/-! ## (2) One axis -/

/-- **What the loops read on an axis is there:** the test function and the nodes that are visited, with
derivatives up to the highest order of the form, and in a bilinear form the same of the trial function. -/
structure AxisInRange (form : Form α) (a : LoopAxis α) : Prop where
  function : a.2.1.1 < a.1.2.table.functions
  nodes : ∀ q ∈ a.2.2.indices, q < a.1.2.table.points
  order : a.1.2.table.maxDeriv = form.requirements.maxDeriv
  trial : form.arity = .bilinear → a.2.1.2 < a.1.1.table.functions ∧
    a.1.1.table.points = a.1.2.table.points ∧ a.1.1.table.maxDeriv = form.requirements.maxDeriv

variable {form : Form α} {a : LoopAxis α} {axis : Nat}

/-- The factor of a load that the form can ask for. -/
theorem loadFactor?_eq (ha : AxisInRange form a) {load : BasisLoad} (hload : form.AdmitsLoad load)
    (haxis : axis < form.dim) {q : Nat} (hq : q ∈ a.2.2.indices) :
    loadFactor? a.1.1 a.1.2 a.2.1.1 a.2.1.2 axis q load =
      some (loadFactor a.1.1 a.1.2 a.2.1.1 a.2.1.2 axis q load) := by
  have hlt : axis < load.orders.length := hload.length ▸ haxis
  obtain ⟨hnonneg, hle⟩ := hload.orders _ (List.getElem_mem hlt)
  have horder : load.orders.getD axis 0 = load.orders[axis] := by
    rw [List.getD_eq_getElem?_getD, List.getElem?_eq_getElem hlt, Option.getD_some]
  have hpoint := ha.nodes q hq
  have htest : load.orders[axis].toNat ≤ a.1.2.table.maxDeriv := by
    rw [ha.order]
    omega
  unfold loadFactor? loadFactor
  rw [List.getElem?_eq_getElem hlt, horder]
  show (if load.orders[axis] < 0 then _ else _) = _
  rw [if_neg (Int.not_lt.mpr hnonneg)]
  cases hrole : load.role with
  | test => exact if_pos ⟨ha.function, hpoint, htest⟩
  | trial =>
    obtain ⟨hfunction, hpoints, hmax⟩ := ha.trial (hload.trial hrole)
    have hstride : a.1.1.table.pointStride = a.1.2.table.pointStride := by
      rw [DerivativeTable.pointStride, DerivativeTable.pointStride, hmax, ha.order]
    exact (if_pos hstride).trans (if_pos ⟨hfunction, hpoints ▸ hpoint, by omega⟩)

/-- **The nodes of an axis, with the factors of all loads.** -/
theorem axisSlice?_eq (ha : AxisInRange form a) (haxis : axis < form.dim) {loads : List BasisLoad}
    (hloads : ∀ load ∈ loads, form.AdmitsLoad load) :
    axisSlice? loads a.1.1 a.1.2 a.2.1.1 a.2.1.2 axis a.2.2 =
        some (axisSlice loads a.1.1 a.1.2 a.2.1.1 a.2.1.2 axis a.2.2) ∧
      (axisSlice loads a.1.1 a.1.2 a.2.1.1 a.2.1.2 axis a.2.2).Fits loads.length := by
  constructor
  · unfold axisSlice? axisSlice
    rw [mapM_eq_some_map fun q hq => ?_]
    · rfl
    · rw [mapM_eq_some_map fun load hload => loadFactor?_eq ha (hloads load hload) haxis hq]
      rfl
  · rintro _ hmem
    obtain ⟨q, hq, rfl⟩ := List.mem_map.mp hmem
    exact ⟨ha.nodes q hq, by rw [List.size_toArray, List.length_map]⟩

/-! ## (3) Loops -/

variable {k : CompiledKernel α} {data : KernelData α} {test trial : List Nat} {nodes : List Interval}

omit [Scalar α] in
/-- **The arrays that a program reads** are there, with the components that it reads. -/
theorem fieldsHold_of_readsOnly {bound : Nat} {p : Program α} {nodes : Nat}
    (hp : p.ReadsOnly form.AdmitsLoad (form.HasComponent bound))
    (harrays : ∀ f ∈ form.fields, f.isArray = true →
      ∃ a, data.fields[f.id]? = some a ∧ a.Holds nodes f.storageSize) :
    p.fields.mapM (fun id => data.fields[id]?) = some (p.fields.map data.fieldArray) ∧
      FieldsHold p (p.fields.map data.fieldArray).toArray nodes := by
  have hfield : ∀ id c, form.HasComponent bound id c → ∃ a width, data.fields[id]? = some a ∧
      a.Holds nodes width ∧ c < width := by
    rintro _ c ⟨f, hf, rfl, -, harray, hc⟩
    obtain ⟨a, ha, hholds⟩ := harrays f hf harray
    exact ⟨a, _, ha, hholds, hc⟩
  have hget : ∀ {id : Nat} {a : GridArray α}, data.fields[id]? = some a → data.fieldArray id = a := by
    intro id a ha
    rw [KernelData.fieldArray_eq, ha, Option.getD_some]
  constructor
  · refine mapM_eq_some_map fun id hid => ?_
    obtain ⟨c, hc⟩ := hp.fields id hid
    obtain ⟨a, -, ha, -⟩ := hfield id c hc
    rw [hget ha, ha]
  · intro slot c hmem
    have hslot : slot < p.fields.length := hp.slots _ hmem
    have hid := List.getElem?_eq_getElem hslot
    obtain ⟨a, width, ha, hholds, hc⟩ := hfield _ c (hp.components slot c hmem _ hid)
    refine ⟨a, width, ?_, hholds, hc⟩
    rw [List.getElem?_toArray, List.getElem?_map, hid, Option.map_some, hget ha]

/-- **The loops of a kernel read what is there** if they do on every axis, and add to slots of the
program. -/
theorem combine?_eq {bound : Nat} (hp : k.program.ReadsOnly form.AdmitsLoad (form.HasComponent bound))
    (harrays : ∀ f ∈ form.fields, f.isArray = true →
      ∃ a, data.fields[f.id]? = some a ∧ a.Holds (nodeCount data.quadrature.shape) f.storageSize)
    (hne : data.quadrature.shape ≠ [])
    (hextents : ((data.trial.zip data.test).zip ((test.zip trial).zip nodes)).map
      (·.1.2.table.points) = data.quadrature.shape)
    (haxes : ∀ (n : Nat) (a : LoopAxis α),
      ((data.trial.zip data.test).zip ((test.zip trial).zip nodes))[n]? = some a →
        n < form.dim ∧ AxisInRange form a) :
    k.combine? data test trial nodes = some (k.combine data test trial nodes) ∧
      (k.combine data test trial nodes).size = k.program.slots := by
  set axes : List (LoopAxis α) := (data.trial.zip data.test).zip ((test.zip trial).zip nodes)
  obtain ⟨hfields, hhold⟩ := fieldsHold_of_readsOnly hp harrays
  -- Every axis has its slice.
  have hslice : ∀ x ∈ axes.zipIdx, x.2 < form.dim ∧ AxisInRange form x.1 := by
    rintro ⟨a, n⟩ hx
    exact haxes n a (List.mk_mem_zipIdx_iff_getElem?.mp hx)
  have hslices : axisSlices? k.program.loads data test trial nodes =
      some (axisSlices k.program.loads data test trial nodes) := by
    refine mapM_eq_some_map fun x hx => ?_
    exact (axisSlice?_eq (hslice x hx).2 (hslice x hx).1 hp.loads).1
  have hcount : (axisSlices k.program.loads data test trial nodes).map (·.extent) =
      data.quadrature.shape := by
    rw [← hextents, axisSlices, List.map_map]
    have hzip : axes.zipIdx.map (fun x => x.1.1.2.table.points) = axes.map (·.1.2.table.points) := by
      conv_rhs => rw [← List.zipIdx_map_fst 0 axes, List.map_map]
      rfl
    exact hzip
  rw [combine?, hfields, hslices]
  refine sweep?_eq hp hhold _ ?_ 0 _ _ ?_ Array.size_replicate Array.size_replicate
  · intro slice hmem
    obtain ⟨x, hx, rfl⟩ := List.mem_map.mp hmem
    exact (axisSlice?_eq (hslice x hx).2 (hslice x hx).1 hp.loads).2
  · rw [hcount, Nat.zero_add, Nat.one_mul, nodeCount_eq_product hne]

/-! ## (4) Entries -/

section Entries

variable [Circular α] [ScalarText α] {bases : KernelBases α}

/-- **The axes of an entry are in range** if the nodes lie under the test function. -/
theorem axes_inRange (hfits : data.Fits form bases)
    (hi : List.Forall₂ (fun i kv => i < kv.dofs) test bases.test) (hlen : trial.length = test.length)
    (hj : form.arity = .bilinear → List.Forall₂ (fun j kv => j < kv.dofs) trial bases.trial)
    (hnodes : List.Forall₂ (fun range s => range.last ≤ data.pointsPerElement * s.last) nodes
      (supportsOf data.test test)) :
    ((data.trial.zip data.test).zip ((test.zip trial).zip nodes)).map (·.1.2.table.points) =
        data.quadrature.shape ∧
      ∀ (n : Nat) (a : LoopAxis α),
        ((data.trial.zip data.test).zip ((test.zip trial).zip nodes))[n]? = some a →
          n < form.dim ∧ AxisInRange form a := by
  obtain ⟨-, ⟨husupport, hupoints, hubounded⟩, hvsupport, hvpoints, hvbounded⟩ := hfits.tables
  have hi' := forall₂_dofs hvsupport hi
  have htests : data.test.length = form.dim := by
    rw [← List.length_map (·.support), hvsupport, List.length_map, hfits.test]
  have htrials : data.trial.length = form.dim := by
    rw [← List.length_map (·.support), husupport, List.length_map, hfits.trial]
  have hnodescount : nodes.length = data.test.length := by
    rw [hnodes.length_eq, supportsOf, List.length_zipWith, hi'.length_eq, Nat.min_self]
  have htestcount := hi'.length_eq
  obtain ⟨hus, hvs, his, hjs, hranges⟩ := map_zip_columns data.trial data.test test trial nodes
    (by omega) (by omega) (by omega) (by omega)
  set axes : List (LoopAxis α) := (data.trial.zip data.test).zip ((test.zip trial).zip nodes)
  refine ⟨?_, fun n a ha => ?_⟩
  · conv_rhs => rw [← hvpoints, ← hvs, List.map_map]
    rfl
  -- The entries of the lists on this axis.
  have hcolumn : ∀ {β : Type} {column : LoopAxis α → β} {xs : List β}, axes.map column = xs →
      xs[n]? = some (column a) := by
    rintro β column xs rfl
    rw [List.getElem?_map, ha, Option.map_some]
  have hv := hcolumn hvs
  have hu := hcolumn hus
  have hvmem := hvbounded _ (List.mem_of_getElem? hv)
  have humem := hubounded _ (List.mem_of_getElem? hu)
  have htest : a.2.1.1 < a.1.2.dofs :=
    (forall₂_iff_getElem?.mp hi').2 n _ _ (hcolumn his) hv
  have hpoints : a.1.1.table.points = a.1.2.table.points := by
    have hsame := hupoints.trans hvpoints.symm
    have hat := congrArg (·[n]?) hsame
    simp only [List.getElem?_map, hu, hv, Option.map_some, Option.some.injEq] at hat
    exact hat
  refine ⟨?_, ?_, fun q hq => ?_, hvmem.order, fun harity => ⟨?_, hpoints, humem.order⟩⟩
  · rw [← htrials]
    exact (List.getElem?_eq_some_iff.mp hu).1
  · rw [hvmem.functions]
    exact htest
  · have hsupport : (supportsOf data.test test)[n]? = some (a.1.2.supportOf a.2.1.1) := by
      rw [supportsOf, List.getElem?_zipWith, hv, hcolumn his]
    have hlast := (forall₂_iff_getElem?.mp hnodes).2 n _ _ (hcolumn hranges) hsupport
    calc q < a.2.2.last := (Interval.mem_indices.mp hq).2
      _ ≤ data.pointsPerElement * (a.1.2.supportOf a.2.1.1).last := hlast
      _ ≤ a.1.2.table.points := hvmem.last_le _ htest
  · rw [humem.functions]
    have hj' := forall₂_dofs husupport (hj harity)
    exact (forall₂_iff_getElem?.mp hj').2 n _ _ (hcolumn hjs) hu

/-- The nodes on a common support lie under the test function. -/
theorem last_overlaps_le (n : Nat) {ss ts : List Interval} (hlen : ss.length = ts.length) :
    List.Forall₂ (fun range s => range.last ≤ n * s.last)
      ((List.zipWith Interval.intersect ss ts).map (Interval.scale n)) ss := by
  induction ss generalizing ts with
  | nil =>
    obtain rfl := List.eq_nil_of_length_eq_zero hlen.symm
    exact .nil
  | cons s ss ih =>
    obtain ⟨t, ts, rfl⟩ := List.exists_cons_of_length_eq_add_one hlen.symm
    exact .cons (Nat.mul_le_mul_left n (Nat.min_le_left _ _)) (ih (Nat.succ.inj hlen))

end Entries

end CompiledKernel

variable [DecidableEq α] [Circular α] [ScalarText α] {form : Form α}

/-- **Kernel reads stay in range.** Take a form that a builder returns, with references that carry the sizes
of their fields. It has a program, and a kernel with this program reads and writes in range on all data
that fit the form: tables are read at functions, points and orders that they have, with one stride for both
functions; arrays at their nodes and components; registers after they are written in the same evaluation;
and values are added to slots of the program. For with all these checks an entry of functions in range has
the same value as without them. -/
theorem FormBuilder.Reachable.entries_inRange {b : FormBuilder α} (hb : b.Reachable)
    (h : b.finalize = .ok form) (hrefs : form.SizesMatch) :
    ∃ p, lowerForm form = .ok p ∧ p.slots = form.outputSlots ∧
      ∀ (programs : List (Nat × Program α)) (data : KernelData α) (bases : KernelBases α),
        data.Fits form bases →
        (form.arity = .bilinear → ∀ test trial,
          List.Forall₂ (fun i kv => i < kv.dofs) test bases.test →
          List.Forall₂ (fun j kv => j < kv.dofs) trial bases.trial →
          ∃ sums, CompiledKernel.entry ⟨form, p, programs⟩ data test trial = .ok sums ∧
            CompiledKernel.entry? ⟨form, p, programs⟩ data test trial = .ok (some sums) ∧
            sums.size = p.slots) ∧
        (form.arity = .linear → ∀ test, List.Forall₂ (fun i kv => i < kv.dofs) test bases.test →
          ∃ sums, CompiledKernel.entry1 ⟨form, p, programs⟩ data test = .ok sums ∧
            CompiledKernel.entry1? ⟨form, p, programs⟩ data test = .ok (some sums) ∧
            sums.size = p.slots) := by
  have hform := hb.valid.form h
  have horders := boundsOrders_of_finalize h
  obtain ⟨hne, rfl⟩ := finalize_eq_ok h
  obtain ⟨hreads, hisOk⟩ := lowerForm_reads hform horders
  obtain ⟨p, hp⟩ := hisOk hne hrefs
  obtain ⟨hreadsOnly, hslots⟩ := hreads p hp
  refine ⟨p, hp, hslots, fun programs data bases hfits => ?_⟩
  obtain ⟨hshape, ⟨husupport, -⟩, hvsupport, -⟩ := hfits.tables
  constructor
  · intro harity test trial hi hj
    have hi' := forall₂_dofs hvsupport hi
    have hj' := forall₂_dofs husupport hj
    have htests := hi'.length_eq
    have htrials := hj'.length_eq
    have hcount : test.length = trial.length := by
      rw [hi.length_eq, hj.length_eq, hfits.test, hfits.trial]
    have hcheck : (b.arity == .bilinear) = true := beq_iff_eq.mpr harity
    unfold CompiledKernel.entry CompiledKernel.entry?
    rw [hcheck]
    rcases CompiledKernel.commonNodes_spec data.pointsPerElement hi' hj' (by omega) with
      ⟨hnone, -⟩ | ⟨hsome, -⟩
    · -- The supports do not meet, so nothing is read.
      rw [hnone]
      exact ⟨_, rfl, rfl, Array.size_replicate⟩
    · have hsupports : (supportsOf data.test test).length = (supportsOf data.trial trial).length := by
        rw [supportsOf, supportsOf, List.length_zipWith, List.length_zipWith]
        omega
      obtain ⟨hextents, haxes⟩ := CompiledKernel.axes_inRange hfits hi hcount.symm (fun _ => hj)
        (CompiledKernel.last_overlaps_le data.pointsPerElement hsupports)
      rw [hsome]
      obtain ⟨hcombine, hsize⟩ := CompiledKernel.combine?_eq (k := ⟨_, p, programs⟩) hreadsOnly
        hfits.arrays hshape hextents haxes
      exact ⟨_, rfl, congrArg Except.ok hcombine, hsize⟩
  · intro harity test hi
    have hi' := forall₂_dofs hvsupport hi
    have hcheck : (b.arity == .linear) = true := beq_iff_eq.mpr harity
    unfold CompiledKernel.entry1 CompiledKernel.entry1?
    rw [hcheck, CompiledKernel.testNodes_eq_ok data.pointsPerElement hi']
    have hnodes : List.Forall₂ (fun range s => range.last ≤ data.pointsPerElement * s.last)
        ((supportsOf data.test test).map (Interval.scale data.pointsPerElement))
        (supportsOf data.test test) :=
      List.forall₂_map_left_iff.mpr (List.forall₂_same.mpr fun _ _ => Nat.le_refl _)
    obtain ⟨hextents, haxes⟩ := CompiledKernel.axes_inRange hfits hi (rfl : test.length = test.length)
      (fun hbilinear => absurd (harity.symm.trans hbilinear) (by decide)) hnodes
    obtain ⟨hcombine, hsize⟩ := CompiledKernel.combine?_eq (k := ⟨_, p, programs⟩) hreadsOnly
      hfits.arrays hshape hextents haxes
    exact ⟨_, rfl, congrArg Except.ok hcombine, hsize⟩

/-- The weights at the nodes of one element. -/
def fourWeights : GridArray ℚ := ⟨[2, 2], 4, 1, #[1, 1, 1, 1]⟩

/-- Its kernel reads derivatives and weights at the four nodes of one element, all of them in range. -/
theorem entries_inRange_weightForm : ∃ (data : KernelData ℚ) (p : Program ℚ),
    data.Fits weightForm (.shared [unitKnots, unitKnots]) ∧ lowerForm weightForm = .ok p ∧
      ∃ sums, CompiledKernel.entry ⟨weightForm, p, []⟩ data [0, 1] [1, 1] = .ok sums ∧
        CompiledKernel.entry? ⟨weightForm, p, []⟩ data [0, 1] [1, 1] = .ok (some sums) := by
  obtain ⟨rule, hgauss, hnodes⟩ := gaussRule_two
  obtain ⟨data, hdata, hpoints, hfields⟩ := @exists_tabulates ℚ _ _ _ _ _
    (.shared [unitKnots, unitKnots]) (List.cons_ne_nil _ _) rfl 2 rule hgauss hnodes 1 #[fourWeights]
  have hshape : data.quadrature.shape = [2, 2] := by
    obtain ⟨-, hgrid⟩ := gauss_eq_ok_iff.mp hdata.grid
    rw [hpoints] at hgrid
    obtain ⟨a, as, ha, hrest, haxes⟩ := List.forall₂_cons_left_iff.mp hgrid
    obtain ⟨c, cs, hc, hnil, rfl⟩ := List.forall₂_cons_left_iff.mp hrest
    obtain rfl := List.forall₂_nil_left_iff.mp hnil
    have hmesh : unitKnots.mesh.toList.length = 2 := by decide +kernel
    rw [TensorQuadrature.shape, haxes, List.map_cons, List.map_cons, List.map_nil,
      compositeGauss_size ha, compositeGauss_size hc, hmesh]
  have hfits : data.Fits weightForm (.shared [unitKnots, unitKnots]) := by
    refine ⟨hdata, rfl, rfl, rfl, fun f hf _ => ?_⟩
    obtain rfl := List.mem_singleton.mp hf
    rw [hshape, hfields]
    exact ⟨fourWeights, rfl, rfl, rfl, rfl⟩
  obtain ⟨b, hb, hfinal⟩ := exists_builder_weightForm
  have hrefs : weightForm.SizesMatch := by
    refine ⟨fun f hf e he => ?_, fun a ha e he name shape symmetric hnode f hf _ => ?_⟩
    · obtain rfl := List.mem_singleton.mp hf
      cases he
    · obtain rfl := List.mem_singleton.mp ha
      obtain rfl := List.mem_singleton.mp hf
      obtain rfl := Option.some.inj he
      simp only [Expr.nodes, List.cons_append, List.nil_append, List.mem_cons, reduceCtorEq,
        Expr.field.injEq, List.not_mem_nil, or_false, false_or] at hnode
      rw [hnode.2.1]
  obtain ⟨p, hp, -, hentries⟩ := hb.entries_inRange hfinal hrefs
  have hindex : List.Forall₂ (fun i (kv : KnotVector ℚ) => i < kv.dofs) [0, 1] [unitKnots, unitKnots] :=
    .cons (by decide) (.cons (by decide) .nil)
  have hindex' : List.Forall₂ (fun i (kv : KnotVector ℚ) => i < kv.dofs) [1, 1] [unitKnots, unitKnots] :=
    .cons (by decide) (.cons (by decide) .nil)
  obtain ⟨sums, hentry, hchecked, -⟩ := (hentries [] data _ hfits).1 rfl [0, 1] [1, 1] hindex hindex'
  exact ⟨data, p, hfits, hp, sums, hentry, hchecked⟩

end Galerkin
