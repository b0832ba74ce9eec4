import Galerkin.Proofs.Kernel.RowSums

/-! # Consistency of mass, load and stiffness

In two and three dimensions the kernels of mass, load and stiffness are there. Over one basis for trial and
test functions, a row of mass adds up to the load of the source one on the same grid and with the same
weight, and a row of stiffness adds up to zero, whatever the coefficients.

* **`CompiledKernel.exists_emit`** — a form whose references match has a kernel;
* **`StandardForm.mass_row`**, **`StandardForm.stiffness_row`** — the rows of mass and stiffness;
* **`StandardForm.prepared_rows`** — so it is for data that are prepared over one geometry;
* **`StandardForm.rows_consistent`** — the kernels and their rows, for any weight and coefficients. -/

namespace Galerkin

variable {K : Type} [Field K] [LinearOrder K]

/-! ## (1) Kernels of standard forms -/

namespace CompiledKernel

/-- **A form whose references match is compiled** if its derivative orders are supported. -/
theorem exists_emit {form : Form K} (hform : form.Valid) (hrefs : form.ReferencesMatch)
    (hne : form.accumulations ≠ []) (horder : form.requirements.maxDeriv ≤ maxDerivOrder) :
    ∃ k, emit form.dim form = .ok k := by
  obtain ⟨p, hp⟩ := lowerForm_isOk hform hrefs hne
  obtain ⟨items, hitems⟩ := exists_programs hform hrefs
  refine ⟨⟨form, p, items⟩, require_bind_eq_ok_iff.mpr ⟨beq_self_eq_true _, ?_⟩⟩
  refine require_bind_eq_ok_iff.mpr ⟨decide_eq_true horder, ?_⟩
  exact bind_eq_ok_iff.mpr ⟨p, hp, bind_eq_ok_iff.mpr ⟨items, hitems, rfl⟩⟩

/-- A specification whose form has a kernel is compiled. -/
theorem exists_emitSpec {spec : FormSpec K} {form : Form K} (hbuild : spec.build form.dim = .ok form)
    (hform : form.Valid) (hrefs : form.ReferencesMatch) (hne : form.accumulations ≠ [])
    (horder : form.requirements.maxDeriv ≤ maxDerivOrder) : ∃ k, emitSpec form.dim spec = .ok k := by
  obtain ⟨k, hk⟩ := exists_emit hform hrefs hne horder
  exact ⟨k, bind_eq_ok_iff.mpr ⟨form, hbuild, hk⟩⟩

/-- The kernel of a specification is that of the form it builds. -/
theorem emit_of_emitSpec {spec : FormSpec K} {dim : Nat} {form : Form K} (hbuild : spec.build dim = .ok form)
    {k : CompiledKernel K} (h : emitSpec dim spec = .ok k) : emit dim form = .ok k := by
  obtain ⟨form', hbuild', hk⟩ := bind_eq_ok_iff.mp h
  rwa [Except.ok.inj (hbuild.symm.trans hbuild')]

end CompiledKernel

namespace StandardForm

open CompiledKernel

variable {d : Nat}

omit [Field K] [LinearOrder K] in
/-- The references of mass match. -/
theorem referencesMatch_massForm : (massForm d : Form K).ReferencesMatch :=
  Form.referencesMatch_of_all rfl rfl

/-- Mass is compiled. -/
theorem exists_massKernel (hd : d ∈ [2, 3]) : ∃ k, emitSpec d (mass : FormSpec K) = .ok k :=
  exists_emitSpec (mass_build hd) (valid_massForm hd) referencesMatch_massForm (List.cons_ne_nil _ _)
    (Nat.zero_le _)

omit [Field K] [LinearOrder K] in
/-- The references of stiffness match. -/
theorem referencesMatch_stiffnessForm (hd : d ∈ [2, 3]) : (stiffnessForm d : Form K).ReferencesMatch := by
  rcases List.mem_pair.mp hd with rfl | rfl <;> exact Form.referencesMatch_of_all rfl rfl

/-- Stiffness is compiled. -/
theorem exists_stiffnessKernel (hd : d ∈ [2, 3]) : ∃ k, emitSpec d (stiffness : FormSpec K) = .ok k :=
  exists_emitSpec (stiffness_build hd) (valid_stiffnessForm hd) (referencesMatch_stiffnessForm hd)
    (List.cons_ne_nil _ _) (show 1 ≤ maxDerivOrder by decide)

/-- A load is compiled. -/
theorem exists_loadKernel (hd : d ∈ [2, 3]) (source : InputFunction K) :
    ∃ k, (load (some source) >>= emitSpec d) = .ok k := by
  obtain ⟨spec, hspec, hbuild⟩ := load_build hd source
  obtain ⟨k, hk⟩ := exists_emitSpec hbuild (valid_loadForm hd source)
    (Form.referencesMatch_of_all rfl rfl) (List.cons_ne_nil _ _) (Nat.zero_le _)
  exact ⟨k, bind_eq_ok_iff.mpr ⟨spec, hspec, hk⟩⟩

/-- The kernel of a load is that of its form. -/
theorem emit_loadForm (hd : d ∈ [2, 3]) {source : InputFunction K} {k : CompiledKernel K}
    (h : (load (some source) >>= emitSpec d) = .ok k) : emit d (loadForm d source) = .ok k := by
  obtain ⟨spec, hspec, hbuild⟩ := load_build hd source
  obtain ⟨spec', hspec', hk⟩ := bind_eq_ok_iff.mp h
  obtain rfl := Except.ok.inj (hspec.symm.trans hspec')
  exact emit_of_emitSpec hbuild hk

/-! ## (2) The function one -/

/-- **Mass of the function one** is the weighted test function. -/
theorem accumulated_massForm_one (point : PointData K) :
    ((massForm d).accumulated (point.withTrial (unitDerivative d)) 0).sum =
      point.field 0 0 * point.valueOf .test d := by
  rw [accumulated_massForm, List.sum_singleton, PointData.field_withTrial, PointData.valueOf_trial_withTrial,
    PointData.valueOf_test_withTrial, unitDerivative_replicate, mul_one]

/-- **Stiffness of the function one** is zero. -/
theorem accumulated_stiffnessForm_one (hd : d ∈ [2, 3]) (point : PointData K) :
    ((stiffnessForm d).accumulated (point.withTrial (unitDerivative d)) 0).sum = 0 := by
  rw [accumulated_stiffnessForm hd, List.sum_singleton]
  refine Finset.sum_eq_zero fun r _ => ?_
  rw [Finset.sum_eq_zero fun c hc => ?_, zero_mul]
  rw [PointData.slopeOf_trial_withTrial, unitDerivative_firstOrders (Finset.mem_range.mp hc), mul_zero]

end StandardForm

/-! ## (3) Rows of mass and stiffness -/

/-- What a program reads of a field at a node is the component there, or zero. -/
theorem KernelData.field_pointAt (data : KernelData K) (test trial node : List Nat) (id component : Nat) :
    (data.pointAt test trial node).field id component =
      ((data.fieldArray id).get? (MultiIndex.linearIndex node data.quadrature.shape) component).getD 0 :=
  Array.getD_eq_getD_getElem?

/-- The array of the field of a name. -/
def KernelData.arrayOf (data : KernelData K) (form : Form K) (name : String) : GridArray K :=
  ((form.findField? name).map data.fieldArray).getD .empty

variable [IsStrictOrderedRing K] [Circular K] [ScalarText K]

namespace StandardForm

open CompiledKernel

variable {d n : Nat} {bases : List (KnotVector K)} {test : List Nat}

/-- **A row of mass adds up to the load of the source one** on the same grid and with the same weight. -/
theorem mass_row (hd : d ∈ [2, 3]) (hbases : bases.length = d)
    (hrule : ∀ rule : ReferenceRule K, gaussRule n = .ok rule → ∀ x ∈ rule.nodes, -1 < x ∧ x < 1)
    {source : InputFunction K} {massKernel loadKernel : CompiledKernel K}
    (hmass : emit d (massForm d) = .ok massKernel) (hload : emit d (loadForm d source) = .ok loadKernel)
    {massData loadData : KernelData K} (hmassData : massData.Tabulates (.shared bases) 0)
    (hloadData : loadData.Tabulates (.shared bases) 0) (hmassPoints : massData.pointsPerElement = n)
    (hloadPoints : loadData.pointsPerElement = n) (hweight : massData.fieldArray 0 = loadData.fieldArray 1)
    (hsource : ∀ node < nodeCount loadData.quadrature.shape, (loadData.fieldArray 0).get? node 0 = some 1)
    (htest : List.Forall₂ (fun i kv => i < kv.dofs) test bases) :
    ∃ (entries : List Nat → K) (value : K),
      (∀ trial ∈ gridNodes (bases.map (·.dofs)),
        massKernel.entry massData test trial = .ok #[entries trial]) ∧
      loadKernel.entry1 loadData test = .ok #[value] ∧
      ((gridNodes (bases.map (·.dofs))).map entries).sum = value := by
  have hvanish : ∀ role, (massForm d : Form K).VanishesWithout role := by
    intro role
    cases role <;> exact Form.vanishesWithout_of_vanishes rfl
  obtain ⟨entries, hentries, hrow⟩ := row_spec (valid_massForm hd) hmass hmassData
    (hmassPoints.symm ▸ hrule) rfl rfl hvanish additive_massForm htest
  obtain ⟨sums, hentry, hsize, hsums⟩ := entry1_spec (valid_loadForm hd source) hload hloadData rfl
    (hloadPoints.symm ▸ hrule) rfl (Form.vanishesWithout_of_vanishes rfl) htest
  refine ⟨entries, _, hentries, hentry.trans (congrArg _ (eq_singleton hsize (hsums 0 Nat.one_pos))), ?_⟩
  obtain ⟨hgrid, -, htables⟩ := hmassData.same hloadData (hmassPoints.trans hloadPoints.symm)
  have hne : loadData.quadrature.shape ≠ [] := (hloadData.spec rfl (hloadPoints.symm ▸ hrule)).2.1
  rw [hrow, Form.gridSum, hbases, hgrid]
  -- At every node weight and test function are the same, and the source is one.
  refine congrArg List.sum (List.map_congr_left fun node hnode => ?_)
  have hone : (loadData.pointAt test test node).field 0 0 = 1 := by
    rw [KernelData.field_pointAt, hsource _ (MultiIndex.linearIndex_lt_nodeCount hne hnode), Option.getD_some]
  have hsame : (massData.pointAt test test node).field 0 0 = (loadData.pointAt test test node).field 1 0 := by
    rw [KernelData.field_pointAt, KernelData.field_pointAt, hweight, hgrid]
  have hvalue : (massData.pointAt test test node).valueOf .test d =
      (loadData.pointAt test test node).valueOf .test d :=
    congrArg (fun tables => tensorDerivative tables test node ((List.replicate d 0).map Int.ofNat)) htables
  rw [accumulated_massForm_one, accumulated_loadForm, List.sum_singleton, hone, hsame, hvalue, mul_one]

/-- **A row of stiffness adds up to zero,** whatever the coefficients. -/
theorem stiffness_row (hd : d ∈ [2, 3]) (hbases : bases.length = d)
    {kernel : CompiledKernel K} (hkernel : emit d (stiffnessForm d) = .ok kernel)
    {data : KernelData K} (hdata : data.Tabulates (.shared bases) 1)
    (hrule : ∀ rule : ReferenceRule K, gaussRule data.pointsPerElement = .ok rule →
      ∀ x ∈ rule.nodes, -1 < x ∧ x < 1)
    (htest : List.Forall₂ (fun i kv => i < kv.dofs) test bases) :
    ∃ entries : List Nat → K,
      (∀ trial ∈ gridNodes (bases.map (·.dofs)), kernel.entry data test trial = .ok #[entries trial]) ∧
      ((gridNodes (bases.map (·.dofs))).map entries).sum = 0 := by
  have hvanish : ∀ role, (stiffnessForm d : Form K).VanishesWithout role := by
    intro role
    rcases List.mem_pair.mp hd with rfl | rfl <;> cases role <;>
      exact Form.vanishesWithout_of_vanishes rfl
  obtain ⟨entries, hentries, hrow⟩ := row_spec (valid_stiffnessForm hd) hkernel hdata hrule rfl rfl hvanish
    (additive_stiffnessForm hd) htest
  refine ⟨entries, hentries, hrow.trans (List.sum_eq_zero fun x hx => ?_)⟩
  obtain ⟨node, -, rfl⟩ := List.mem_map.mp hx
  rw [hbases, accumulated_stiffnessForm_one hd]

section Prepared

variable {massKernel loadKernel stiffnessKernel : CompiledKernel K} {geometry : GeometryMap K}
  {massData loadData stiffnessData : KernelData K}

omit [IsStrictOrderedRing K] in
/-- Kernels of mass and of a load that are prepared over one geometry have the same weight. -/
theorem prepared_weight (hd : d ∈ [2, 3]) {source : InputFunction K} {b : KernelBases K}
    (hmass : emit d (massForm d) = .ok massKernel) (hload : emit d (loadForm d source) = .ok loadKernel)
    (hmassData : massKernel.prepare b geometry = .ok massData)
    (hloadData : loadKernel.prepare b geometry = .ok loadData) :
    massData.fieldArray 0 = loadData.fieldArray 1 := by
  obtain ⟨hmassIs, hmassOrdered⟩ := ordered_of_emit (valid_massForm hd) hmass
  obtain ⟨hloadIs, hloadOrdered⟩ := ordered_of_emit (valid_loadForm hd source) hload
  have hfield : (⟨0, "weight", .scalar, false, .builtin .weight⟩ : FieldVariable K) ∈
      massKernel.form.fields := by
    rw [hmassIs]
    exact List.mem_cons_self ..
  have hfield' : (⟨1, "weight", .scalar, false, .builtin .weight⟩ : FieldVariable K) ∈
      loadKernel.form.fields := by
    rw [hloadIs]
    exact List.mem_cons_of_mem _ (List.mem_cons_self ..)
  refine builtin_eq_of_prepare hmassOrdered hloadOrdered ?_ ?_ hmassData hloadData hfield hfield' rfl rfl
    rfl
  · rw [hmassIs, hloadIs]
    rfl
  · rw [hmassIs, hloadIs]
    rfl

omit [IsStrictOrderedRing K] in
/-- The kernel of the load of the source one has that value at every node when it is prepared. -/
theorem prepared_source (hd : d ∈ [2, 3]) {b : KernelBases K}
    (hload : emit d (loadForm d fun _ => .ok 1) = .ok loadKernel)
    (hloadData : loadKernel.prepare b geometry = .ok loadData) {node : Nat}
    (hnode : node < nodeCount loadData.quadrature.shape) :
    (loadData.fieldArray 0).get? node 0 = some 1 := by
  obtain ⟨his, hordered⟩ := ordered_of_emit (valid_loadForm hd _) hload
  obtain ⟨-, hphysical, jacobian, -, hfields⟩ := prepare_spec hordered hloadData
  have hinput : loadKernel.hasInput = true := by
    rw [hasInput, his]
    rfl
  rw [physicalPoints, if_pos hinput] at hphysical
  have hpoints := GeometryMap.nodes_onGrid (axes_of_gauss (prepare_tabulates hloadData).grid).1 hphysical
  have hfield : (⟨0, "f", .scalar, false, .input (some fun _ => .ok 1)⟩ : FieldVariable K) ∈
      loadKernel.form.fields := by
    rw [his]
    exact List.mem_cons_self ..
  have hsample : sampleInput loadData.quadrature.shape loadData.points (fun _ => .ok 1) =
      .ok (loadData.fieldArray 0) := by
    refine hfields _ hfield ?_
    rintro _ ⟨⟩
  obtain ⟨x, hx, hget⟩ := get?_sampleInput hsample (hpoints.symm ▸ hnode)
  rw [hget, ← Except.ok.inj hx]

/-- **Rows of kernels that are prepared** over one basis and one geometry: those of mass add up to the load
of the source one, and those of stiffness to zero. -/
theorem prepared_rows (hd : d ∈ [2, 3]) (hbases : bases.length = d)
    (hrule : ∀ rule : ReferenceRule K, gaussRule (KernelBases.shared bases).pointsPerElement = .ok rule →
      ∀ x ∈ rule.nodes, -1 < x ∧ x < 1) (hmass : emitSpec d mass = .ok massKernel)
    (hload : (load (some fun _ => .ok 1) >>= emitSpec d) = .ok loadKernel)
    (hstiffness : emitSpec d stiffness = .ok stiffnessKernel)
    (hmassData : massKernel.prepare (.shared bases) geometry = .ok massData)
    (hloadData : loadKernel.prepare (.shared bases) geometry = .ok loadData)
    (hstiffnessData : stiffnessKernel.prepare (.shared bases) geometry = .ok stiffnessData)
    (htest : List.Forall₂ (fun i kv => i < kv.dofs) test bases) :
    (∃ (entries : List Nat → K) (value : K),
      (∀ trial ∈ gridNodes (bases.map (·.dofs)),
        massKernel.entry massData test trial = .ok #[entries trial]) ∧
      loadKernel.entry1 loadData test = .ok #[value] ∧
      ((gridNodes (bases.map (·.dofs))).map entries).sum = value) ∧
    ∃ entries : List Nat → K,
      (∀ trial ∈ gridNodes (bases.map (·.dofs)),
        stiffnessKernel.entry stiffnessData test trial = .ok #[entries trial]) ∧
      ((gridNodes (bases.map (·.dofs))).map entries).sum = 0 := by
  have hmass' := emit_of_emitSpec (mass_build hd) hmass
  have hload' := emit_loadForm hd hload
  have hstiffness' := emit_of_emitSpec (stiffness_build hd) hstiffness
  obtain ⟨hmassIs, hmassOrdered⟩ := ordered_of_emit (valid_massForm hd) hmass'
  obtain ⟨hloadIs, hloadOrdered⟩ := ordered_of_emit (valid_loadForm hd _) hload'
  obtain ⟨hstiffnessIs, hstiffnessOrdered⟩ := ordered_of_emit (valid_stiffnessForm hd) hstiffness'
  have hmassTables := prepare_tabulates hmassData
  have hloadTables := prepare_tabulates hloadData
  have hstiffnessTables := prepare_tabulates hstiffnessData
  rw [hmassIs] at hmassTables
  rw [hloadIs] at hloadTables
  rw [hstiffnessIs] at hstiffnessTables
  have hmassPoints := (prepare_spec hmassOrdered hmassData).1
  have hloadPoints := (prepare_spec hloadOrdered hloadData).1
  have hstiffnessPoints := (prepare_spec hstiffnessOrdered hstiffnessData).1
  refine ⟨mass_row hd hbases hrule hmass' hload' hmassTables hloadTables hmassPoints hloadPoints ?_ ?_ htest,
    stiffness_row hd hbases hstiffness' hstiffnessTables (hstiffnessPoints.symm ▸ hrule) htest⟩
  · exact prepared_weight hd hmass' hload' hmassData hloadData
  · exact fun _ hnode => prepared_source hd hload' hloadData hnode

end Prepared

/-- **Mass, load and stiffness are consistent.** In two and three dimensions the kernels of mass, of the load
of any source, and of stiffness are there. Take one basis for trial and test functions on every axis, any
knot vectors, and Gauss rules with `n` nodes that lie strictly inside the reference interval. If data for
mass and load have the same weight, whatever it is, and the source has the value one at every node, then for
every test function the entries of mass for all trial functions have values, and they add up to the value of
the load. If data for stiffness have any weight and any transposed inverses at every node, then the matrix of
coefficients is evaluated, and for every test function the entries of stiffness add up to zero. -/
theorem rows_consistent (hd : d ∈ [2, 3]) (hbases : bases.length = d)
    (hrule : ∀ rule : ReferenceRule K, gaussRule n = .ok rule → ∀ x ∈ rule.nodes, -1 < x ∧ x < 1)
    (source : InputFunction K) :
    ∃ massKernel loadKernel stiffnessKernel : CompiledKernel K,
      emitSpec d mass = .ok massKernel ∧ (load (some source) >>= emitSpec d) = .ok loadKernel ∧
      emitSpec d stiffness = .ok stiffnessKernel ∧
      (∀ massData loadData : KernelData K,
        massData.Tabulates (.shared bases) massKernel.form.requirements.maxDeriv →
        loadData.Tabulates (.shared bases) loadKernel.form.requirements.maxDeriv →
        massData.pointsPerElement = n → loadData.pointsPerElement = n →
        massData.arrayOf massKernel.form "weight" = loadData.arrayOf loadKernel.form "weight" →
        (∀ node < nodeCount loadData.quadrature.shape,
          (loadData.arrayOf loadKernel.form "f").get? node 0 = some 1) →
        ∀ test, List.Forall₂ (fun i kv => i < kv.dofs) test bases →
          ∃ (entries : List Nat → K) (value : K),
            (∀ trial ∈ gridNodes (bases.map (·.dofs)),
              massKernel.entry massData test trial = .ok #[entries trial]) ∧
            loadKernel.entry1 loadData test = .ok #[value] ∧
            ((gridNodes (bases.map (·.dofs))).map entries).sum = value) ∧
      ∀ base : KernelData K,
        base.Tabulates (.shared bases) stiffnessKernel.form.requirements.maxDeriv →
        base.pointsPerElement = n → base.Sampled stiffnessKernel.form →
        ∃ data, stiffnessKernel.evaluatePrecomputed base = .ok data ∧
          ∀ test, List.Forall₂ (fun i kv => i < kv.dofs) test bases →
            ∃ entries : List Nat → K,
              (∀ trial ∈ gridNodes (bases.map (·.dofs)),
                stiffnessKernel.entry data test trial = .ok #[entries trial]) ∧
              ((gridNodes (bases.map (·.dofs))).map entries).sum = 0 := by
  obtain ⟨massKernel, hmassSpec⟩ := exists_massKernel (K := K) hd
  obtain ⟨loadKernel, hloadSpec⟩ := exists_loadKernel hd source
  obtain ⟨stiffnessKernel, hstiffnessSpec⟩ := exists_stiffnessKernel (K := K) hd
  have hmass := emit_of_emitSpec (mass_build hd) hmassSpec
  have hload := emit_loadForm hd hloadSpec
  have hstiffness := emit_of_emitSpec (stiffness_build hd) hstiffnessSpec
  obtain ⟨hmassForm, -⟩ := emit_eq_ok hmass
  obtain ⟨hloadForm, -⟩ := emit_eq_ok hload
  obtain ⟨hstiffnessForm, -, hprograms⟩ := emit_eq_ok hstiffness
  refine ⟨massKernel, loadKernel, stiffnessKernel, hmassSpec, hloadSpec, hstiffnessSpec, ?_, ?_⟩
  · rw [hmassForm, hloadForm]
    intro massData loadData hmassData hloadData hmassPoints hloadPoints hweight hone test htest
    exact mass_row hd hbases hrule hmass hload hmassData hloadData hmassPoints hloadPoints hweight hone htest
  · intro base hbase hpoints hsampled
    have hvalid : stiffnessKernel.form.Valid := hstiffnessForm ▸ valid_stiffnessForm hd
    obtain ⟨data, hdata⟩ := exists_evaluatePrecomputed hvalid (hstiffnessForm ▸ hprograms) hsampled
      (nodeCount_pos_of_gauss hbase.grid)
    have hrest := (agreeExcept_evaluatePrecomputed hdata).rest
    refine ⟨data, hdata, fun test htest => stiffness_row hd hbases hstiffness ?_ ?_ htest⟩
    · rw [hrest, ← show stiffnessKernel.form.requirements.maxDeriv = 1 from hstiffnessForm ▸ rfl]
      exact ⟨hbase.grid, hbase.trial, hbase.test⟩
    · rw [hrest]
      exact hpoints.symm ▸ hrule

/-- Weights at four nodes. -/
def fourWeights : GridArray ℚ := ⟨[2, 2], 4, 1, #[1, 2, 3, 5]⟩

/-- The source one at four nodes. -/
def fourOnes : GridArray ℚ := ⟨[2, 2], 4, 1, #[1, 1, 1, 1]⟩

/-- Transposed inverses at four nodes, one of them singular. -/
def fourInverses : GridArray ℚ := ⟨[2, 2], 4, 4, #[1, 0, 0, 1, 2, 1, 0, 3, 1, 2, 2, 4, 0, -1, 1, 0]⟩

/-- Two Gauss nodes on every axis of a single element. -/
theorem shape_unitKnots {data : KernelData ℚ} {maxDeriv : Nat}
    (h : data.Tabulates (.shared [unitKnots, unitKnots]) maxDeriv) (hpoints : data.pointsPerElement = 2) :
    data.quadrature.shape = [2, 2] := by
  obtain ⟨-, haxes⟩ := gauss_eq_ok_iff.mp h.grid
  have hmesh : unitKnots.mesh.toList.length = 2 := by decide +kernel
  rw [TensorQuadrature.shape]
  obtain ⟨first, rest, hfirst, hrest, heq⟩ := List.forall₂_cons_left_iff.mp haxes
  obtain ⟨second, rest, hsecond, hnil, rfl⟩ := List.forall₂_cons_left_iff.mp hrest
  obtain rfl := List.forall₂_nil_left_iff.mp hnil
  rw [heq, List.map_cons, List.map_cons, compositeGauss_size hfirst, compositeGauss_size hsecond, hmesh,
    hpoints]
  rfl

/-- Mass, load and stiffness of bilinear functions on one element. -/
theorem rows_consistent_unitKnots : ∃ massData loadData base : KernelData ℚ,
    massData.fields = #[fourWeights] ∧ loadData.fields = #[fourOnes, fourWeights] ∧
    base.fields = #[fourInverses, fourWeights, .empty] ∧
    ∃ (massKernel loadKernel stiffnessKernel : CompiledKernel ℚ) (data : KernelData ℚ)
      (entries slopes : List Nat → ℚ) (value : ℚ),
      emitSpec 2 mass = .ok massKernel ∧ (load (some fun _ => .ok 1) >>= emitSpec 2) = .ok loadKernel ∧
      emitSpec 2 stiffness = .ok stiffnessKernel ∧
      (∀ trial ∈ gridNodes [2, 2], massKernel.entry massData [0, 1] trial = .ok #[entries trial]) ∧
      loadKernel.entry1 loadData [0, 1] = .ok #[value] ∧ ((gridNodes [2, 2]).map entries).sum = value ∧
      stiffnessKernel.evaluatePrecomputed base = .ok data ∧
      (∀ trial ∈ gridNodes [2, 2], stiffnessKernel.entry data [0, 1] trial = .ok #[slopes trial]) ∧
      ((gridNodes [2, 2]).map slopes).sum = 0 := by
  obtain ⟨rule, hgauss, hnodes⟩ := gaussRule_two
  have hrule : ∀ r : ReferenceRule ℚ, gaussRule 2 = .ok r → ∀ x ∈ r.nodes, -1 < x ∧ x < 1 :=
    fun r hr => Except.ok.inj (hgauss.symm.trans hr) ▸ hnodes
  have hd : 2 ∈ [2, 3] := List.mem_cons_self ..
  obtain ⟨massKernel, loadKernel, stiffnessKernel, hmass, hload, hstiffness, hmassRows, hstiffnessRows⟩ :=
    @rows_consistent ℚ _ _ _ _ _ 2 2 [unitKnots, unitKnots] hd rfl hrule fun _ => .ok 1
  have hmassForm := (emit_eq_ok (emit_of_emitSpec (mass_build hd) hmass)).1
  have hloadForm := (emit_eq_ok (emit_loadForm hd hload)).1
  have hstiffnessForm := (emit_eq_ok (emit_of_emitSpec (stiffness_build hd) hstiffness)).1
  have htables := fun maxDeriv => @exists_tabulates ℚ _ _ _ _ _ (.shared [unitKnots, unitKnots])
    (List.cons_ne_nil _ _) rfl 2 rule hgauss hnodes maxDeriv
  obtain ⟨massData, hmassData, hmassPoints, hmassFields⟩ :=
    htables massKernel.form.requirements.maxDeriv #[fourWeights]
  obtain ⟨loadData, hloadData, hloadPoints, hloadFields⟩ :=
    htables loadKernel.form.requirements.maxDeriv #[fourOnes, fourWeights]
  obtain ⟨base, hbase, hbasePoints, hbaseFields⟩ :=
    htables stiffnessKernel.form.requirements.maxDeriv #[fourInverses, fourWeights, .empty]
  have htest : List.Forall₂ (fun i (kv : KnotVector ℚ) => i < kv.dofs) [0, 1] [unitKnots, unitKnots] :=
    .cons (by decide) (.cons (by decide) .nil)
  have hweight : massData.arrayOf massKernel.form "weight" = loadData.arrayOf loadKernel.form "weight" := by
    rw [hmassForm, hloadForm]
    show massData.fields.getD 0 _ = loadData.fields.getD 1 _
    rw [hmassFields, hloadFields]
    rfl
  have hone : ∀ node < nodeCount loadData.quadrature.shape,
      (loadData.arrayOf loadKernel.form "f").get? node 0 = some 1 := by
    rw [shape_unitKnots hloadData hloadPoints, hloadForm]
    show ∀ node < nodeCount [2, 2], (loadData.fields.getD 0 GridArray.empty).get? node 0 = some 1
    rw [hloadFields]
    decide +kernel
  have hsampled : base.Sampled stiffnessKernel.form := by
    rw [hstiffnessForm]
    refine ⟨by rw [hbaseFields]; rfl, fun f hf _ hother => ?_⟩
    rw [shape_unitKnots hbase hbasePoints, KernelData.fieldArray, hbaseFields]
    simp only [stiffnessForm, List.mem_cons, List.not_mem_nil, or_false] at hf
    rcases hf with rfl | rfl | rfl
    · exact ⟨rfl, rfl, rfl⟩
    · exact ⟨rfl, rfl, rfl⟩
    · exact absurd rfl (hother _)
  obtain ⟨entries, value, hentries, hvalue, hsum⟩ :=
    hmassRows massData loadData hmassData hloadData hmassPoints hloadPoints hweight hone [0, 1] htest
  obtain ⟨data, hdata, hrows⟩ := hstiffnessRows base hbase hbasePoints hsampled
  obtain ⟨slopes, hslopes, hzero⟩ := hrows [0, 1] htest
  exact ⟨massData, loadData, base, hmassFields, hloadFields, hbaseFields, massKernel, loadKernel,
    stiffnessKernel, data, entries, slopes, value, hmass, hload, hstiffness, hentries, hvalue, hsum, hdata,
    hslopes, hzero⟩

end StandardForm

end Galerkin
