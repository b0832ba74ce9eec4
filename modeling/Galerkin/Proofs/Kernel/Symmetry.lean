import Galerkin.Proofs.Assembly.BandedSymmetry
import Galerkin.Proofs.Form.Integrands
import Galerkin.Proofs.Kernel.Consistency

/-! # Symmetry of the standard forms

A form is symmetric if exchanging test and trial function transposes what it accumulates for a pair of
components. Over one basis for test and trial functions the entries of its kernel are then transposed by
exchanging the functions, whatever the fields hold. Assembly relies on that when it mirrors the blocks of a
form that declares itself symmetric.

* **`PointData.exchanged`**, **`Form.IsSymmetric`** — symmetry at a point;
* **`CompiledKernel.entry_transposed`**, **`CompiledKernel.TransposedEntries.mirrored`** — the entries of a
  symmetric form, and the blocks that assembly mirrors;
* **`StandardForm.declared_symmetric`** — the standard forms that declare themselves symmetric are. -/

namespace Galerkin

/-! ## (1) Exchanging test and trial function -/

section Exchange

variable {α : Type}

/-- The other role. -/
def BasisRole.other : BasisRole → BasisRole
  | trial => test
  | test => trial

@[simp] theorem BasisRole.other_trial : BasisRole.trial.other = .test := rfl

@[simp] theorem BasisRole.other_test : BasisRole.test.other = .trial := rfl

/-- **The point with test and trial function exchanged.** -/
def PointData.exchanged (point : PointData α) : PointData α :=
  { point with basis := fun load => point.basis ⟨load.role.other, load.orders⟩ }

namespace PointData

variable (point : PointData α) (role : BasisRole) (d : Nat)

@[simp] theorem field_exchanged : point.exchanged.field = point.field := rfl

@[simp] theorem valueOf_exchanged : point.exchanged.valueOf role d = point.valueOf role.other d := rfl

@[simp] theorem slopeOf_exchanged (i : Nat) :
    point.exchanged.slopeOf role d i = point.slopeOf role.other d i := rfl

end PointData

end Exchange

variable {K : Type} [Field K] [LinearOrder K]

omit [LinearOrder K] in
@[simp] theorem PointData.gradient_exchanged (point : PointData K) (jacobian : Nat) (role : BasisRole)
    (d : Nat) (orders : Nat → Nat) (i : Nat) :
    point.exchanged.gradient jacobian role d orders i = point.gradient jacobian role.other d orders i := rfl

/-- **A symmetric form:** exchanging test and trial function transposes what is accumulated for a pair of
components. -/
def Form.IsSymmetric (form : Form K) : Prop :=
  ∀ point : PointData K, ∀ r < form.components, ∀ c < form.components,
    (form.accumulated point (r * form.components + c)).sum =
      (form.accumulated point.exchanged (c * form.components + r)).sum

namespace StandardForm

variable {d : Nat}

/-- A form with one component is symmetric if its only slot does not change. -/
theorem isSymmetric_of_slot {form : Form K} (hcomponents : form.components = 1)
    (h : ∀ point : PointData K, form.accumulated point 0 = form.accumulated point.exchanged 0) :
    form.IsSymmetric := by
  intro point r hr c hc
  obtain rfl : r = 0 := by omega
  obtain rfl : c = 0 := by omega
  rw [Nat.zero_mul, Nat.zero_add, h]

/-- **Mass is symmetric.** -/
theorem isSymmetric_massForm : (massForm d : Form K).IsSymmetric := by
  refine isSymmetric_of_slot rfl fun point => ?_
  rw [accumulated_massForm, accumulated_massForm]
  simp only [PointData.field_exchanged, PointData.valueOf_exchanged, BasisRole.other_trial,
    BasisRole.other_test]
  rw [mul_right_comm]

/-- **Stiffness is symmetric,** since both entries of a pair are read where one of them is stored. -/
theorem isSymmetric_stiffnessForm (hd : d ∈ [2, 3]) : (stiffnessForm d : Form K).IsSymmetric := by
  refine isSymmetric_of_slot rfl fun point => ?_
  rw [accumulated_stiffnessForm hd, accumulated_stiffnessForm hd]
  simp only [PointData.field_exchanged, PointData.slopeOf_exchanged, BasisRole.other_trial,
    BasisRole.other_test, Finset.sum_mul]
  rw [Finset.sum_comm]
  refine congrArg (fun x => [x]) (Finset.sum_congr rfl fun c _ => Finset.sum_congr rfl fun r _ => ?_)
  rw [symmetricIndex_comm r c d, mul_right_comm]

/-- **The divergence form** in dimension `d`. -/
def divDivForm {α : Type} (d : Nat) : Form α where
  name := "divdiv"
  dim := d
  arity := .bilinear
  components := d
  symmetric := true
  fields := geometryFields d
  accumulations := divDivSums d
  requirements :=
    { parametricGradient := true, physicalGradient := true, weight := true, jacobian := true, maxDeriv := 1 }

set_option maxRecDepth 4000 in
/-- The divergence form is built in two and three dimensions. -/
theorem divDiv_build {α : Type} (hd : d ∈ [2, 3]) : (divDiv : FormSpec α).build d = .ok (divDivForm d) := by
  rcases List.mem_pair.mp hd with rfl | rfl <;> cbv

/-- It is the form that the body of the divergence form makes. -/
theorem builds_divDivForm {α : Type} (hd : d ∈ [2, 3]) :
    (divDiv : FormSpec α).Builds d (geometryFields d) (divDivSums d) (divDivForm d) :=
  ⟨divDiv_build hd, rfl, rfl, rfl⟩

/-- The divergence form is valid. -/
theorem valid_divDivForm {α : Type} (hd : d ∈ [2, 3]) : (divDivForm d : Form α).Valid :=
  divDiv_sound.valid (divDiv_build hd)

/-- The references of the divergence form match. -/
theorem referencesMatch_divDivForm {α : Type} (hd : d ∈ [2, 3]) : (divDivForm d : Form α).ReferencesMatch :=
  (builds_divDivForm hd).referencesMatch (valid_divDivForm hd) uses_divDivSums
    (uses_of_no_definition expression_geometryFields)

/-- **The divergence form accumulates** the product of a component each of the physical gradients. -/
theorem accumulated_divDivForm (hd : d ∈ [2, 3]) {i j : Nat} (hi : i < d) (hj : j < d) (point : PointData K) :
    (divDivForm d).accumulated point (i * d + j) =
      [point.field 0 0 * point.gradient 1 .trial d 0 j * point.gradient 1 .test d 0 i] := by
  have hform := valid_divDivForm (α := K) hd
  have hweight : FormBuilder.weightVariable 0 ∈ (divDivForm d : Form K).fields := List.mem_cons_self ..
  have hjacobian : FormBuilder.jacobianVariable 1 d ∈ (divDivForm d : Form K).fields :=
    List.mem_cons_of_mem _ (List.mem_singleton_self _)
  refine (builds_divDivForm hd).accumulated nodup_divDivSums (e := divDivIntegrand d i j) ?_ point ?_
  · rw [Nat.mul_comm i d]
    exact List.mem_map.mpr ⟨(i, j), Shape.mem_positions.mpr ⟨hi, hj⟩, rfl⟩
  · exact Form.valuesOf_binary (Form.valuesOf_binary (hform.valuesOf_weight hweight)
      (hform.valuesOf_component hj hjacobian .trial 0)) (hform.valuesOf_component hi hjacobian .test 0)

/-- **The divergence form is symmetric:** the blocks of a pair of functions are transposed. -/
theorem isSymmetric_divDivForm (hd : d ∈ [2, 3]) : (divDivForm d : Form K).IsSymmetric := by
  intro point r hr c hc
  change ((divDivForm d).accumulated point (r * d + c)).sum =
    ((divDivForm d).accumulated point.exchanged (c * d + r)).sum
  rw [accumulated_divDivForm hd hr hc, accumulated_divDivForm hd hc hr]
  simp only [PointData.field_exchanged, PointData.gradient_exchanged, BasisRole.other_trial,
    BasisRole.other_test]
  rw [mul_right_comm]

end StandardForm

/-! ## (2) Entries of symmetric forms -/

/-- Intersections do not depend on the order of the intervals. -/
theorem Interval.intersect_comm (s t : Interval) : s.intersect t = t.intersect s := by
  rw [intersect, intersect, Nat.max_comm, Nat.min_comm]

/-- **Exchanging the functions** exchanges them at every node, if there is one basis for both. -/
theorem KernelData.pointAt_exchanged {data : KernelData K} (hsame : data.trial = data.test)
    (test trial node : List Nat) :
    data.pointAt trial test node = (data.pointAt test trial node).exchanged := by
  have hbasis : (data.pointAt trial test node).basis = (data.pointAt test trial node).exchanged.basis := by
    funext ⟨role, orders⟩
    cases role with
    | trial => exact congrArg (tensorDerivative · test node orders) hsame
    | test => exact congrArg (tensorDerivative · trial node orders) hsame.symm
  exact congrArg (fun basis => PointData.mk basis (data.pointAt test trial node).field) hbasis

namespace CompiledKernel

variable {k : CompiledKernel K} {data : KernelData K} {test trial : List Nat}

/-- **Entries that are transposed by exchanging the functions:** both have values, a number for every pair of
components. -/
def TransposedEntries (k : CompiledKernel K) (data : KernelData K) (test trial : List Nat) : Prop :=
  ∃ sums sums', k.entry data test trial = .ok sums ∧ k.entry data trial test = .ok sums' ∧
    sums.size = k.form.components * k.form.components ∧
    sums'.size = k.form.components * k.form.components ∧
    ∀ r < k.form.components, ∀ c < k.form.components,
      sums[r * k.form.components + c]? = sums'[c * k.form.components + r]?

omit [Field K] [LinearOrder K] in
/-- The common support does not depend on the order of the functions. -/
theorem overlapsOf_comm (vs : List (AxisTables K)) (is js : List Nat) :
    overlapsOf vs vs is js = overlapsOf vs vs js is :=
  List.zipWith_comm_of_comm Interval.intersect_comm

omit [Field K] [LinearOrder K] in
/-- **So an entry visits the same nodes** when the functions are exchanged. -/
theorem commonNodes_comm (n : Nat) {vs : List (AxisTables K)} {is js : List Nat}
    (hi : List.Forall₂ (fun i v => i < v.dofs) is vs) (hj : List.Forall₂ (fun j v => j < v.dofs) js vs) :
    commonNodes n vs vs is js = commonNodes n vs vs js is := by
  have hswap := overlapsOf_comm vs js is
  rcases commonNodes_spec n hi hj rfl with ⟨h, s, hs, hempty⟩ | ⟨h, hall⟩
  · rcases commonNodes_spec n hj hi rfl with ⟨h', -⟩ | ⟨-, hall'⟩
    · rw [h, h']
    · rw [hall' s (hswap ▸ hs)] at hempty
      cases hempty
  · rcases commonNodes_spec n hj hi rfl with ⟨-, s, hs, hempty⟩ | ⟨h', -⟩
    · rw [hall s (hswap ▸ hs)] at hempty
      cases hempty
    · rw [h, h', hswap]

/-- **The entries of a symmetric form are transposed by exchanging the functions,** over one basis for test
and trial functions. -/
theorem entry_transposed (hform : k.form.Valid) (hp : lowerForm k.form = .ok k.program)
    (harity : k.form.arity = .bilinear) (hsymmetric : k.form.IsSymmetric) (hsame : data.trial = data.test)
    (hshape : data.test.map (·.table.points) = data.quadrature.shape)
    (hi : List.Forall₂ (fun i v => i < v.dofs) test data.test)
    (hj : List.Forall₂ (fun j v => j < v.dofs) trial data.test) :
    k.TransposedEntries data test trial := by
  set n := k.form.components with hn
  have hslots : k.form.outputSlots = n * n := by
    rw [Form.outputSlots, harity]
    rfl
  have hlt : ∀ r < n, ∀ c < n, r * n + c < k.form.outputSlots := fun r hr c hc => by
    rw [hslots]
    exact Shape.entry_lt_size (s := .matrix n n) hr hc
  have hentry (is js : List Nat) (nodes : Option (List Interval))
      (h : commonNodes data.pointsPerElement data.test data.test is js = .ok nodes) :
      k.entry data is js = .ok (nodes.elim (Array.replicate k.program.slots 0) (k.combine data is js)) := by
    have hnodes : commonNodes data.pointsPerElement data.test data.trial is js = .ok nodes := by
      rw [hsame]
      exact h
    rw [entry_of_commonNodes harity hnodes, Scalar.zero_exact]
  have hswap := commonNodes_comm data.pointsPerElement hj hi
  rcases commonNodes_spec data.pointsPerElement hi hj rfl with ⟨hnone, -⟩ | ⟨hsome, -⟩
  · -- Without a common node both entries are zero.
    have hcount := (lowerForm_slots hform hp).1
    have hsize : (Array.replicate k.program.slots (0 : K)).size = n * n := by
      rw [Array.size_replicate, hcount, hslots]
    have hzero : ∀ r < n, ∀ c < n, (Array.replicate k.program.slots (0 : K))[r * n + c]? = some 0 :=
      fun r hr c hc => by rw [Array.getElem?_replicate, if_pos (hcount ▸ hlt r hr c hc)]
    exact ⟨_, _, hentry test trial none hnone, hentry trial test none (hswap.trans hnone), hsize, hsize,
      fun r hr c hc => (hzero r hr c hc).trans (hzero c hc r hr).symm⟩
  · -- Otherwise both sum over the same nodes, with the functions exchanged at each of them.
    have haxes : data.trial.length = data.test.length := by rw [hsame]
    have hlength : ((overlapsOf data.test data.test test trial).map
        (Interval.scale data.pointsPerElement)).length = data.test.length :=
      (List.length_map _).trans (length_overlapsOf hi.length_eq hj.length_eq rfl)
    obtain ⟨hsize, hsums⟩ :=
      combine_spec hform hp hi.length_eq (hj.length_eq.trans haxes.symm) hlength haxes hshape
    obtain ⟨hsize', hsums'⟩ :=
      combine_spec hform hp hj.length_eq (hi.length_eq.trans haxes.symm) hlength haxes hshape
    refine ⟨_, _, hentry test trial _ hsome, hentry trial test _ (hswap.trans hsome), hsize.trans hslots,
      hsize'.trans hslots, fun r hr c hc => ?_⟩
    refine (hsums _ (hlt r hr c hc)).trans (Eq.trans ?_ (hsums' _ (hlt c hc r hr)).symm)
    refine congrArg (fun values => some (List.sum values)) (List.map_congr_left fun node _ => ?_)
    rw [data.pointAt_exchanged hsame test trial node]
    exact hsymmetric _ r hr c hc

/-- **The block that assembly mirrors is that of the mirrored pair.** -/
theorem TransposedEntries.mirrored (h : k.TransposedEntries data test trial) :
    ∃ sums sums', k.entry data test trial = .ok sums ∧ k.entry data trial test = .ok sums' ∧
      Assembler.mirrored k.form.components k.form.components sums = sums' := by
  obtain ⟨sums, sums', hsums, hsums', -, hsize', hblock⟩ := h
  refine ⟨sums, sums', hsums, hsums', Assembler.mirrored_eq_of_transposed hsize' fun r hr c hc => ?_⟩
  rw [Array.getD_eq_getD_getElem?, Array.getD_eq_getD_getElem?, hblock c hc r hr]

end CompiledKernel

/-! ## (3) Kernels of symmetric standard forms -/

variable [Circular K] [ScalarText K]

namespace CompiledKernel

variable {k : CompiledKernel K} {bases : List (KnotVector K)}

/-- **Data for which all entries are transposed** by exchanging the functions of some bases. -/
def TransposedOver (k : CompiledKernel K) (data : KernelData K) (bases : List (KnotVector K)) : Prop :=
  ∀ test trial, List.Forall₂ (fun i kv => i < kv.dofs) test bases →
    List.Forall₂ (fun j kv => j < kv.dofs) trial bases → k.TransposedEntries data test trial

/-- **The entries of a symmetric form are transposed** for all data over one basis for test and trial
functions, whatever the fields hold. -/
theorem transposedOver (hform : k.form.Valid) (hp : lowerForm k.form = .ok k.program)
    (harity : k.form.arity = .bilinear) (hsymmetric : k.form.IsSymmetric) {data : KernelData K}
    {maxDeriv : Nat} (hdata : data.Tabulates (.shared bases) maxDeriv) : k.TransposedOver data bases := by
  intro test trial htest htrial
  have hsame : data.trial = data.test := Except.ok.inj (hdata.trial.symm.trans hdata.test)
  obtain ⟨-, -, hsupports⟩ := hdata.supports rfl
  exact entry_transposed hform hp harity hsymmetric hsame (hdata.points rfl) (forall₂_dofs hsupports htest)
    (forall₂_dofs hsupports htrial)

/-- **The kernel of a symmetric form** is there, and its entries are transposed for the data that it evaluates
or prepares. -/
theorem exists_transposed {spec : FormSpec K} {form : Form K} (hbuild : spec.build form.dim = .ok form)
    (hform : form.Valid) (hrefs : form.ReferencesMatch) (hne : form.accumulations ≠ [])
    (horder : form.requirements.maxDeriv ≤ maxDerivOrder) (harity : form.arity = .bilinear)
    (hsymmetric : form.IsSymmetric) (bases : List (KnotVector K)) :
    ∃ k, emitSpec form.dim spec = .ok k ∧ k.form = form ∧
      (∀ base : KernelData K, base.Tabulates (.shared bases) form.requirements.maxDeriv →
        base.Sampled form → ∃ data, k.evaluatePrecomputed base = .ok data ∧ k.TransposedOver data bases) ∧
      ∀ (geometry : GeometryMap K) (data : KernelData K),
        k.prepare (.shared bases) geometry = .ok data → k.TransposedOver data bases := by
  obtain ⟨k, hk⟩ := exists_emitSpec hbuild hform hrefs hne horder
  obtain ⟨rfl, hp, hprograms⟩ := emit_eq_ok (emit_of_emitSpec hbuild hk)
  refine ⟨k, hk, rfl, fun base hbase hsampled => ?_, fun geometry data hdata => ?_⟩
  · obtain ⟨data, hdata⟩ :=
      exists_evaluatePrecomputed hform hprograms hsampled (nodeCount_pos_of_gauss hbase.grid)
    have htables : data.Tabulates (.shared bases) k.form.requirements.maxDeriv := by
      rw [(agreeExcept_evaluatePrecomputed hdata).rest]
      exact ⟨hbase.grid, hbase.trial, hbase.test⟩
    exact ⟨data, hdata, transposedOver hform hp harity hsymmetric htables⟩
  · exact transposedOver hform hp harity hsymmetric (prepare_tabulates hdata)

end CompiledKernel

namespace StandardForm

open CompiledKernel

variable {d : Nat}

/-- **Every standard form that declares itself symmetric is:** in two and three dimensions its kernel is
there, and over one basis for test and trial functions, with any knot vectors, exchanging the functions
transposes its entries. That holds for any values of the weight and of the transposed inverse Jacobian at
the nodes of the grid, as for data that are prepared over a geometry. -/
theorem declared_symmetric (hd : d ∈ [2, 3]) {name : String} {spec : FormSpec K}
    (hspec : (name, spec) ∈ bilinearForms) (hdeclared : spec.symmetric = true)
    (bases : List (KnotVector K)) :
    ∃ k, emitSpec d spec = .ok k ∧ k.form.symmetric = true ∧
      (∀ base : KernelData K, base.Tabulates (.shared bases) k.form.requirements.maxDeriv →
        base.Sampled k.form → ∃ data, k.evaluatePrecomputed base = .ok data ∧ k.TransposedOver data bases) ∧
      ∀ (geometry : GeometryMap K) (data : KernelData K),
        k.prepare (.shared bases) geometry = .ok data → k.TransposedOver data bases := by
  simp only [bilinearForms, List.mem_cons, List.not_mem_nil, or_false, Prod.mk.injEq] at hspec
  -- Heat and wave do not declare themselves symmetric.
  rcases hspec with ⟨-, rfl⟩ | ⟨-, rfl⟩ | ⟨-, rfl⟩ | ⟨-, rfl⟩ | ⟨-, rfl⟩
  · obtain ⟨k, hk, hkform, h⟩ := exists_transposed (mass_build hd) (valid_massForm hd)
      referencesMatch_massForm (List.cons_ne_nil _ _) (Nat.zero_le _) rfl isSymmetric_massForm bases
    exact ⟨k, hk, hkform ▸ rfl, hkform ▸ h⟩
  · obtain ⟨k, hk, hkform, h⟩ := exists_transposed (stiffness_build hd) (valid_stiffnessForm hd)
      (referencesMatch_stiffnessForm hd) (List.cons_ne_nil _ _) (show 1 ≤ maxDerivOrder by decide) rfl
      (isSymmetric_stiffnessForm hd) bases
    exact ⟨k, hk, hkform ▸ rfl, hkform ▸ h⟩
  · cases hdeclared
  · cases hdeclared
  · have hpos : 1 ≤ d := by rcases List.mem_pair.mp hd with rfl | rfl <;> decide
    obtain ⟨k, hk, hkform, h⟩ := exists_transposed (divDiv_build hd) (valid_divDivForm hd)
      (referencesMatch_divDivForm hd) (divDivSums_ne_nil hpos) (show 1 ≤ maxDerivOrder by decide) rfl
      (isSymmetric_divDivForm hd) bases
    exact ⟨k, hk, hkform ▸ rfl, hkform ▸ h⟩

/-- Blocks of the divergence form on one element, with transposed inverses of which one is singular and two
are not symmetric. -/
theorem declared_symmetric_unitKnots : ∃ base : KernelData ℚ, base.fields = #[fourWeights, fourInverses] ∧
    ∃ (k : CompiledKernel ℚ) (data : KernelData ℚ) (sums sums' : Array ℚ), emitSpec 2 divDiv = .ok k ∧
      k.evaluatePrecomputed base = .ok data ∧ k.entry data [0, 1] [1, 1] = .ok sums ∧
      k.entry data [1, 1] [0, 1] = .ok sums' ∧ sums[1]? = sums'[2]? ∧ sums[2]? = sums'[1]? := by
  obtain ⟨rule, hgauss, hnodes⟩ := gaussRule_two
  have hspec : ("divdiv", (divDiv : FormSpec ℚ)) ∈ bilinearForms := by
    simp only [bilinearForms, List.mem_cons, true_or, or_true]
  obtain ⟨k, hk, -, htransposed, -⟩ := @declared_symmetric ℚ _ _ _ _ 2 (List.mem_cons_self ..) "divdiv" divDiv
    hspec rfl [unitKnots, unitKnots]
  have hform := (emit_eq_ok (emit_of_emitSpec (divDiv_build (List.mem_cons_self ..)) hk)).1
  obtain ⟨base, hbase, hpoints, hfields⟩ := @exists_tabulates ℚ _ _ _ _ _ (.shared [unitKnots, unitKnots])
    (List.cons_ne_nil _ _) rfl 2 rule hgauss hnodes k.form.requirements.maxDeriv #[fourWeights, fourInverses]
  have hsampled : base.Sampled k.form := by
    rw [hform]
    refine ⟨by rw [hfields]; rfl, fun f hf _ _ => ?_⟩
    rw [shape_unitKnots hbase hpoints, KernelData.fieldArray, hfields]
    simp only [divDivForm, geometryFields, List.mem_cons, List.not_mem_nil, or_false] at hf
    rcases hf with rfl | rfl
    · exact ⟨rfl, rfl, rfl⟩
    · exact ⟨rfl, rfl, rfl⟩
  have hfirst : List.Forall₂ (fun i (kv : KnotVector ℚ) => i < kv.dofs) [0, 1] [unitKnots, unitKnots] :=
    .cons (by decide) (.cons (by decide) .nil)
  have hsecond : List.Forall₂ (fun i (kv : KnotVector ℚ) => i < kv.dofs) [1, 1] [unitKnots, unitKnots] :=
    .cons (by decide) (.cons (by decide) .nil)
  obtain ⟨data, hdata, hentries⟩ := htransposed base hbase hsampled
  obtain ⟨sums, sums', hsums, hsums', -, -, hblock⟩ := hentries [0, 1] [1, 1] hfirst hsecond
  have hcomponents : k.form.components = 2 := hform ▸ rfl
  rw [hcomponents] at hblock
  exact ⟨base, hfields, k, data, sums, sums', hk, hdata, hsums, hsums', hblock 0 (by decide) 1 (by decide),
    hblock 1 (by decide) 0 (by decide)⟩

end StandardForm

end Galerkin
