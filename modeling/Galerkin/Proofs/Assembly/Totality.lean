import Galerkin.Assembly.FormAssembler
import Galerkin.Proofs.Assembly.Visits
import Galerkin.Proofs.Basis.Starts
import Galerkin.Proofs.Kernel.Data
import Galerkin.Proofs.Kernel.Entries
import Galerkin.Proofs.Kernel.Nodes

/-! # Assembly over any bases

A form assembler can be made for all knot vectors, also for those with functions that vanish on the
domain. Its sparse matrix can be assembled, from entries of functions whose supports meet, if no test
function vanishes. An assembly that uses symmetry stops before it looks at the first neighbours of most
functions that vanish; there only axes behind one of positive degree count.

* **`KernelBases.supports`** — the supports of some bases;
* **`FormAssembler.hasSupports`**, **`FormAssembler.findsNeighbors`** — what a form assembler knows of
  its axes;
* **`FormAssembler.assembleSparse_total_iff`** — the bases over which an assembly succeeds. -/

namespace Galerkin

variable {α : Type} [Scalar α]

/-! ## (1) Supports of bases -/

/-- A combination of two lists that looks at the first one only. -/
theorem zipWith_eq_map_left {β γ δ : Type} (g : β → δ) {xs : List β} {ys : List γ}
    (h : xs.length ≤ ys.length) : List.zipWith (fun x _ => g x) xs ys = xs.map g := by
  rw [← List.map_uncurry_zip_eq_zipWith]
  conv_rhs => rw [← List.map_fst_zip h, List.map_map]
  rfl

/-- A combination of two lists that looks at the second one only. -/
theorem zipWith_eq_map_right {β γ δ : Type} (g : γ → δ) {xs : List β} {ys : List γ}
    (h : ys.length ≤ xs.length) : List.zipWith (fun _ y => g y) xs ys = ys.map g := by
  rw [List.zipWith_comm]
  exact zipWith_eq_map_left g h

namespace KernelBases

/-- **The supports of the test and trial functions** of some bases, axis by axis. -/
def supports (b : KernelBases α) : List AxisSupports :=
  List.zipWith (fun v u => ⟨v.meshSupport, u.meshSupport⟩) b.test b.trial

variable {b : KernelBases α}

/-- The supports of the test functions. -/
theorem map_test_supports (hlen : b.trial.length = b.test.length) :
    b.supports.map (·.test) = b.test.map (·.meshSupport) := by
  rw [supports, List.map_zipWith]
  exact zipWith_eq_map_left (fun v => v.meshSupport) hlen.ge

/-- The supports of the trial functions. -/
theorem map_trial_supports (hlen : b.trial.length = b.test.length) :
    b.supports.map (·.trial) = b.trial.map (·.meshSupport) := by
  rw [supports, List.map_zipWith]
  exact zipWith_eq_map_right (fun u => u.meshSupport) hlen.le

/-- There is a support for each test function. -/
theorem map_test_size_supports (hlen : b.trial.length = b.test.length) :
    b.supports.map (·.test.size) = b.test.map (·.dofs) := by
  have hsizes := congrArg (List.map Array.size) (map_test_supports hlen)
  rw [List.map_map, List.map_map] at hsizes
  exact hsizes.trans (List.map_congr_left fun v _ => v.size_meshSupport)

/-- There is a support for each trial function. -/
theorem map_trial_size_supports (hlen : b.trial.length = b.test.length) :
    b.supports.map (·.trial.size) = b.trial.map (·.dofs) := by
  have hsizes := congrArg (List.map Array.size) (map_trial_supports hlen)
  rw [List.map_map, List.map_map] at hsizes
  exact hsizes.trans (List.map_congr_left fun u _ => u.size_meshSupport)

/-- The supports of an axis are those of its two knot vectors. -/
theorem exists_of_mem_supports {x : AxisSupports} (hx : x ∈ b.supports) :
    ∃ v u, (v, u) ∈ b.test.zip b.trial ∧ x = ⟨v.meshSupport, u.meshSupport⟩ := by
  rw [supports, ← List.map_uncurry_zip_eq_zipWith] at hx
  obtain ⟨⟨v, u⟩, hmem, rfl⟩ := List.mem_map.mp hx
  exact ⟨v, u, hmem, rfl⟩

/-- A property of the test functions on all axes is one of the knot vectors. -/
theorem forall₂_supports_iff (hlen : b.trial.length = b.test.length) (p : Array Interval → Nat → Prop)
    (test : List Nat) : List.Forall₂ (fun x i => p x.test i) b.supports test ↔
      List.Forall₂ (fun v i => p v.meshSupport i) b.test test := by
  have hleft : List.Forall₂ (fun x i => p x.test i) b.supports test ↔
      List.Forall₂ p (b.supports.map (·.test)) test := List.forall₂_map_left_iff.symm
  have hright : List.Forall₂ (fun v i => p v.meshSupport i) b.test test ↔
      List.Forall₂ p (b.test.map (·.meshSupport)) test := List.forall₂_map_left_iff.symm
  rw [hleft, hright, map_test_supports hlen]

/-- Indices of test functions are in range of the knot vectors. -/
theorem forall₂_lt_supports_iff (hlen : b.trial.length = b.test.length) (test : List Nat) :
    List.Forall₂ (fun x i => i < x.test.size) b.supports test ↔
      KnotVector.InRange b.test test := by
  rw [forall₂_supports_iff hlen (fun s i => i < s.size)]
  simp only [KnotVector.size_meshSupport]
  exact Iff.rfl

/-- Test functions have supports if they do not vanish. -/
theorem nonemptyOnAxes_supports_iff (hlen : b.trial.length = b.test.length) (test : List Nat) :
    NonemptyOnAxes b.supports test ↔ KnotVector.SupportedOnAxes b.test test :=
  forall₂_supports_iff hlen (fun s i => (supportAt s i).first < (supportAt s i).last) test

/-- With the same basis for test and trial functions, they have the same supports. -/
theorem test_eq_trial {l : List (KnotVector α)} {x : AxisSupports} (hx : x ∈ (shared l).supports) :
    x.test = x.trial := by
  rw [supports, test, trial, List.zipWith_self] at hx
  obtain ⟨v, -, rfl⟩ := List.mem_map.mp hx
  rfl

/-- With the same basis for test and trial functions, the first neighbours are those of the knot
vectors. -/
theorem startsOn_supports (bases : List (KnotVector α)) (test : List Nat) :
    startsOn (shared bases).supports test = KnotVector.starts bases test := by
  unfold startsOn KnotVector.starts supports
  rw [KernelBases.test, trial, List.zipWith_self, List.zipWith_map_left]
  rfl

section

variable [LinearOrder α] [OrderedScalar α]

/-- The supports of all axes are sorted. -/
theorem sortedSupports_supports {x : AxisSupports} (hx : x ∈ b.supports) :
    SortedSupports x.trial := by
  obtain ⟨v, u, -, rfl⟩ := exists_of_mem_supports hx
  exact u.sortedSupports

/-- There are functions on every axis. -/
theorem size_pos_of_mem_supports {x : AxisSupports} (hx : x ∈ b.supports) : 0 < x.test.size := by
  obtain ⟨v, u, -, rfl⟩ := exists_of_mem_supports hx
  exact v.size_meshSupport.symm ▸ Nat.lt_of_le_of_lt (Nat.zero_le _) v.degree_lt_dofs

/-- **A function that does not vanish meets a function** of every basis with as many elements: one lies over
the first element of its support. -/
theorem exists_meets {v u : KnotVector α} (helements : v.elements = u.elements) {i : Nat} (hi : i < v.dofs)
    (hsupported : v.Supported i) : ∃ j < u.meshSupport.size, (v.supportOf i).Meets (u.supportOf j) := by
  have hend : (v.supportOf i).first < u.elements :=
    helements ▸ Nat.lt_of_lt_of_le hsupported (v.supportOf_le hi).2
  obtain ⟨j, hj, hcontains⟩ := u.exists_contains hend
  exact ⟨j, u.size_meshSupport.symm ▸ hj, _, Interval.contains_iff.mpr ⟨Nat.le_refl _, hsupported⟩,
    hcontains⟩

/-- **A test function that does not vanish is served** by bases with as many elements: some trial
function lies over its first element, and trial functions that vanish lie at the ends of the mesh. -/
theorem served_of_nonempty
    (hmesh : ∀ p ∈ b.test.zip b.trial, p.1.elements = p.2.elements) {test : List Nat}
    (htest : List.Forall₂ (fun x i => i < x.test.size) b.supports test)
    (hnonempty : NonemptyOnAxes b.supports test) : Served b.supports test := by
  have hall := (List.forall₂_iff_get.mp htest)
  refine List.forall₂_iff_get.mpr ⟨hall.1, fun c hc hc' => ⟨hall.2 c hc hc', ?_⟩⟩
  have hsupport := (List.forall₂_iff_get.mp hnonempty).2 c hc hc'
  have hi := hall.2 c hc hc'
  obtain ⟨v, u, hmem, hx⟩ := exists_of_mem_supports (b.supports.get_mem ⟨c, hc⟩)
  rw [hx] at hsupport hi ⊢
  generalize test.get ⟨c, hc'⟩ = i at hsupport hi ⊢
  have helements : v.elements = u.elements := hmesh _ hmem
  rw [v.size_meshSupport] at hi
  have hlast : (v.supportOf i).last ≤ v.elements := (v.supportOf_le hi).2
  constructor
  · exact exists_meets helements hi hsupport
  · intro j hj hfirst hstart
    rw [u.size_meshSupport] at hj
    by_contra hempty
    rcases u.support_of_isEmpty hj (not_lt.mp hempty) with hzero | htop
    · change (v.supportOf i).first < (u.supportOf j).last at hfirst
      omega
    · change (u.supportOf j).first < (v.supportOf i).last at hstart
      omega

end

end KernelBases

/-! ## (2) Axes of a form assembler -/

namespace FormAssembler

omit [Scalar α] in
/-- The table of an axis. -/
theorem meshSupport_eq_ok {dim : Nat} {data : KernelData α} {c : Nat} {x : AxisSupports}
    (hc : c < dim) (htest : (data.test.map (·.support))[c]? = some x.test)
    (htrial : (data.trial.map (·.support))[c]? = some x.trial) :
    meshSupport dim data c .test = .ok x.test ∧ meshSupport dim data c .trial = .ok x.trial := by
  have hcheck : checkIndex .formSupportAxis c dim = .ok () :=
    checkIndex_eq_ok_iff.mpr ⟨Int.natCast_nonneg _, Int.ofNat_lt.mpr hc⟩
  rw [List.getElem?_map] at htest htrial
  constructor
  · rw [meshSupport, hcheck]
    exact congrArg (fun o => Except.ok (Option.getD o #[])) htest
  · rw [meshSupport, hcheck]
    exact congrArg (fun o => Except.ok (Option.getD o #[])) htrial

variable [Circular α] [ScalarText α] {k : CompiledKernel α} {bases : KernelBases α}
  {geometry : GeometryMap α} {f : FormAssembler α}

omit [Circular α] [ScalarText α] in
/-- **Only assemblers with shared bases use symmetry.** -/
theorem exists_shared {pool : WorkerPool} (h : f.assembler.usesSymmetry pool = true) :
    ∃ l, f.bases = .shared l := by
  have hsymmetric : isSymmetric f.kernel f.bases = true := (Bool.and_eq_true_iff.mp h).2
  cases hbases : f.bases with
  | shared l => exact ⟨l, rfl⟩
  | separate trial test =>
    rw [hbases, isSymmetric, isSeparate, Bool.not_true, Bool.and_false] at hsymmetric
    cases hsymmetric

/-- **An assembler that is made** keeps kernel and bases, has components, functions on every axis and data
with the tables of its bases. -/
theorem make_eq_ok (h : (make (some k) bases geometry).result = .ok f) :
    f.kernel = k ∧ f.bases = bases ∧ 0 < k.form.components ∧
      f.data.Tabulates bases k.form.requirements.maxDeriv := by
  obtain ⟨⟨⟩, hspaces, h⟩ := Outcome.bind_eq_ok_iff.mp h
  obtain ⟨hcomponents, -⟩ := require_bind_eq_ok_iff.mp hspaces
  obtain ⟨data, hdata, h⟩ := Outcome.bind_eq_ok_iff.mp h
  obtain ⟨⟨⟩, -, h⟩ := Outcome.bind_eq_ok_iff.mp h
  obtain rfl := Except.ok.inj h
  refine ⟨rfl, rfl, ?_, CompiledKernel.prepare_tabulates hdata⟩
  exact (of_decide_eq_true (Bool.and_eq_true_iff.mp hcomponents).1 : 1 ≤ k.form.components)

section

variable (hmake : (make (some k) bases geometry).result = .ok f)
  (htrial : bases.trial.length = k.form.dim) (htest : bases.test.length = k.form.dim)

include hmake htrial htest

/-- **The supports of a form assembler** are those of its bases. -/
theorem hasSupports : f.assembler.HasSupports bases.supports := by
  obtain ⟨rfl, rfl, -, hdata⟩ := make_eq_ok hmake
  have hlen := htrial.trans htest.symm
  obtain ⟨-, htrials, htests⟩ := hdata.supports hlen
  refine ⟨?_, ?_, fun c x hx => ?_⟩
  · exact (KernelBases.map_test_size_supports hlen).symm
  · exact (KernelBases.map_trial_size_supports hlen).symm
  · have hc : c < f.kernel.form.dim := by
      have hlt := (List.getElem?_eq_some_iff.mp hx).1
      rwa [KernelBases.supports, List.length_zipWith, htrial, htest, Nat.min_self] at hlt
    refine meshSupport_eq_ok hc ?_ ?_
    · rw [htests, ← KernelBases.map_test_supports hlen, List.getElem?_map, hx]
      rfl
    · rw [htrials, ← KernelBases.map_trial_supports hlen, List.getElem?_map, hx]
      rfl

variable [LinearOrder α] [OrderedScalar α]

/-- **A form assembler finds the neighbours of every function,** whether its bases are shared or not. -/
theorem findsNeighbors : f.assembler.FindsNeighbors bases.supports := by
  have hsup := hasSupports hmake htrial htest
  obtain ⟨rfl, rfl, -, hdata⟩ := make_eq_ok hmake
  intro c x hx i hi
  obtain ⟨htestc, htrialc⟩ := hsup.meshSupport c x hx
  have hsorted := KernelBases.sortedSupports_supports (List.mem_of_getElem? hx)
  have hc : c < f.kernel.form.dim := by
    have hlt := (List.getElem?_eq_some_iff.mp hx).1
    rwa [KernelBases.supports, List.length_zipWith, htrial, htest, Nat.min_self] at hlt
  have hcheck : checkIndex .formNeighborAxis c f.kernel.form.dim = .ok () :=
    checkIndex_eq_ok_iff.mpr ⟨Int.natCast_nonneg _, Int.ofNat_lt.mpr hc⟩
  change ∃ range, neighborRange f.kernel.form.dim f.bases f.data c i = .ok range ∧ _
  change meshSupport f.kernel.form.dim f.data c .test = .ok x.test at htestc
  change meshSupport f.kernel.form.dim f.data c .trial = .ok x.trial at htrialc
  cases hbases : f.bases with
  | shared l =>
    rw [neighborRange, hcheck]
    rw [hbases] at hx
    have hsame : x.trial = x.test := (KernelBases.test_eq_trial (List.mem_of_getElem? hx)).symm
    rw [hsame] at hsorted ⊢
    obtain ⟨range, hrange, hneighbors⟩ := jointRange_spec hi hsorted
    exact ⟨range, bind_eq_ok_iff.mpr ⟨(), rfl, bind_eq_ok_iff.mpr ⟨_, htestc, hrange⟩⟩, hneighbors⟩
  | separate trial test =>
    rw [neighborRange, hcheck]
    obtain ⟨range, hrange, hneighbors⟩ :=
      Assembler.searchNeighbors_spec hc htestc htrialc hi hsorted
    exact ⟨range, bind_eq_ok_iff.mpr ⟨(), rfl, hrange⟩, hneighbors⟩

/-! ## (3) The theorem -/

/-- **The bases over which an assembly succeeds.** Take an assembler of a bilinear form, made for the same
bases or for bases on the same meshes, with matrix sizes within the range of storage indices. Its sparse
matrix can be assembled without entries of functions whose supports do not meet on every axis exactly if no
test function vanishes on the domain; with the use of symmetry only the functions behind an axis of
positive degree count. -/
theorem assembleSparse_total_iff (hmesh : bases.trial.map (·.mesh) = bases.test.map (·.mesh))
    (harity : k.form.arity = .bilinear) (hrows : f.assembler.test.FitsStorage)
    (hcols : f.assembler.trial.FitsStorage) (pool : WorkerPool) :
    (∃ m, (f.assembler.assembleSparse pool).result = .ok m ∧
      ∀ t ∈ m.entries, f.assembler.IsMeetingEntry bases.supports t) ↔
      if f.assembler.usesSymmetry pool = true then
        bases.test.Pairwise fun v w => 0 < v.degree → w.AllSupported
      else ∀ v ∈ bases.test, v.AllSupported := by
  have hsup := hasSupports hmake htrial htest
  have hfind := findsNeighbors hmake htrial htest
  obtain ⟨rfl, rfl, hcomponents, hdata⟩ := make_eq_ok hmake
  have hlen := htrial.trans htest.symm
  obtain ⟨hnil, htrials, htests⟩ := hdata.supports hlen
  have hne : f.bases.supports ≠ [] := by
    intro hempty
    have hzero := congrArg List.length hempty
    rw [KernelBases.supports, List.length_zipWith, ← hlen, Nat.min_self] at hzero
    exact hnil (List.eq_nil_of_length_eq_zero hzero)
  have hspaces : f.assembler.usesSymmetry pool = true → f.assembler.test = f.assembler.trial ∧
      ∀ x ∈ f.bases.supports, x.test = x.trial := by
    intro hsymmetric
    obtain ⟨l, hl⟩ := exists_shared hsymmetric
    change layoutOf f.kernel f.bases.test = layoutOf f.kernel f.bases.trial ∧ _
    rw [hl]
    exact ⟨rfl, fun x hx => KernelBases.test_eq_trial hx⟩
  have hblock : ∀ test trial, List.Forall₂ (· < ·) test f.assembler.test.dofs →
      List.Forall₂ (· < ·) trial f.assembler.trial.dofs →
      ∃ block, f.assembler.evaluator.block test trial = .ok block := by
    intro test trial hi hj
    rw [hsup.test_dofs, KernelBases.map_test_size_supports hlen, ← map_dofs_eq htests,
      List.forall₂_map_right_iff] at hi
    rw [hsup.trial_dofs, KernelBases.map_trial_size_supports hlen, ← map_dofs_eq htrials,
      List.forall₂_map_right_iff] at hj
    refine CompiledKernel.exists_entry harity hi hj ?_
    have htestlen := congrArg List.length htests
    have htriallen := congrArg List.length htrials
    rw [List.length_map, List.length_map] at htestlen htriallen
    exact htestlen.trans (hlen.symm.trans htriallen.symm)
  have helements : ∀ p ∈ f.bases.test.zip f.bases.trial, p.1.elements = p.2.elements := by
    have hall := List.forall₂_eq_eq_eq (α := Array α) ▸ hmesh.symm
    rw [List.forall₂_map_left_iff, List.forall₂_map_right_iff] at hall
    exact fun p hp => congrArg KnotVector.meshElements (List.forall₂_zip hall hp)
  rw [Assembler.assembleSparse_meeting_iff harity hne hsup hfind
    (fun x hx => KernelBases.sortedSupports_supports hx)
    (fun x hx => KernelBases.size_pos_of_mem_supports hx) hcomponents hcomponents hrows hcols hspaces
    rfl hblock fun test hin hsupported =>
      KernelBases.served_of_nonempty helements hin hsupported]
  simp only [KernelBases.forall₂_lt_supports_iff hlen, KernelBases.nonemptyOnAxes_supports_iff hlen]
  by_cases hsymmetric : f.assembler.usesSymmetry pool = true
  · rw [if_pos hsymmetric, ← KnotVector.supportedOnAxes_of_le_iff]
    refine forall₂_congr fun test hin => imp_congr_left ?_
    rw [Assembler.Visits, imp_iff_right hsymmetric]
    change MultiIndex.linearIndex (startsOn f.bases.supports test) (KnotVector.extents f.bases.trial) ≤
      MultiIndex.linearIndex test (KnotVector.extents f.bases.test) ↔ _
    obtain ⟨l, hl⟩ := exists_shared hsymmetric
    rw [hl, KernelBases.startsOn_supports]
    exact Iff.rfl
  · rw [if_neg hsymmetric, ← KnotVector.forall_supportedOnAxes_iff]
    refine forall₂_congr fun test hin => imp_iff_right fun htrue => absurd htrue hsymmetric

end

/-- Linear functions on one element, and one that vanishes there. -/
def cutKnots : KnotVector ℚ := ⟨1, #[0, 0, 1, 1, 2], by decide +kernel⟩

/-- **An assembly over a function that vanishes can fail:** the first neighbour of the last function here
is behind all functions. -/
theorem assembleSparse_cutKnots : (do
    let k ← CompiledKernel.emit 2 productForm
    let f ← (make (some k) (.shared [cutKnots, unitKnots]) (.identity 2)).result
    (f.assembler.assembleSparse ⟨{}, 1⟩).result) = .error (.index (.basisIndex 0) 3 3) := by
  decide +kernel

/-- An assembler over functions that do not vanish succeeds, and one over functions of which one does
fails, or has an entry of functions whose supports do not meet. -/
theorem assembleSparse_total_productForm : ∃ k, CompiledKernel.emit 2 productForm = .ok k ∧
    (∃ f, (make (some k) (.shared [unitKnots, unitKnots]) (.identity 2)).result = .ok f ∧
      ∃ m, (f.assembler.assembleSparse ⟨{}, 1⟩).result = .ok m ∧ ∀ t ∈ m.entries,
        f.assembler.IsMeetingEntry (KernelBases.shared [unitKnots, unitKnots]).supports t) ∧
    ∃ f, (make (some k) (.shared [cutKnots, unitKnots]) (.identity 2)).result = .ok f ∧
      ¬ ∃ m, (f.assembler.assembleSparse ⟨{}, 1⟩).result = .ok m ∧ ∀ t ∈ m.entries,
        f.assembler.IsMeetingEntry (KernelBases.shared [cutKnots, unitKnots]).supports t := by
  obtain ⟨⟨f, g⟩, hboth⟩ := exists_eq_ok (x := do
    let k ← CompiledKernel.emit 2 productForm
    let f ← (make (some k) (.shared [unitKnots, unitKnots]) (.identity 2)).result
    let g ← (make (some k) (.shared [cutKnots, unitKnots]) (.identity 2)).result
    pure (f, g)) (by decide +kernel)
  obtain ⟨k, hk, hboth⟩ := bind_eq_ok_iff.mp hboth
  obtain ⟨f', hf, hboth⟩ := bind_eq_ok_iff.mp hboth
  obtain ⟨g', hg, -⟩ := bind_eq_ok_iff.mp hboth
  obtain ⟨hform, -⟩ := CompiledKernel.emit_eq_ok hk
  have hdim : 2 = k.form.dim := hform ▸ rfl
  have harity : k.form.arity = .bilinear := hform ▸ rfl
  have hnosymmetry : ∀ {l : List (KnotVector ℚ)} {f : FormAssembler ℚ},
      (make (some k) (.shared l) (.identity 2)).result = .ok f →
      ¬ f.assembler.usesSymmetry ⟨{}, 1⟩ = true := by
    intro l f hf
    obtain ⟨rfl, -⟩ := make_eq_ok hf
    intro hsymmetric
    have hform' := (Bool.and_eq_true_iff.mp (Bool.and_eq_true_iff.mp hsymmetric).2).1
    rw [hform] at hform'
    cases hform'
  have hfits : ∀ {v : KnotVector ℚ} {f : FormAssembler ℚ}, v.dofs ≤ 3 →
      (make (some k) (.shared [v, unitKnots]) (.identity 2)).result = .ok f →
      f.assembler.test.FitsStorage ∧ f.assembler.trial.FitsStorage := by
    intro v f hv hf
    obtain ⟨rfl, hbases, -⟩ := make_eq_ok hf
    have hlayout : (layoutOf f.kernel [v, unitKnots]).FitsStorage := by
      change MultiIndex.product [v.dofs, unitKnots.dofs] * f.kernel.form.components ≤ _
      have hunit : unitKnots.dofs = 2 := rfl
      have hlimit : SparseMatrix.storageLimit.toNat = 2147483647 := rfl
      rw [hform, hunit, hlimit, MultiIndex.product_cons, MultiIndex.product_cons]
      exact (Nat.mul_le_mul_right _ (Nat.mul_le_mul_right _ hv)).trans (by decide)
    change (layoutOf f.kernel f.bases.test).FitsStorage ∧ (layoutOf f.kernel f.bases.trial).FitsStorage
    rw [hbases]
    exact ⟨hlayout, hlayout⟩
  refine ⟨k, hk, ⟨f', hf, ?_⟩, ⟨g', hg, ?_⟩⟩
  · obtain ⟨hrows, hcols⟩ := hfits (by decide) hf
    rw [assembleSparse_total_iff hf hdim hdim rfl harity hrows hcols, if_neg (hnosymmetry hf)]
    intro v hv
    rw [KernelBases.test, List.mem_pair, or_self] at hv
    rw [hv, KnotVector.allSupported_iff]
    decide +kernel
  · obtain ⟨hrows, hcols⟩ := hfits (by decide) hg
    rw [assembleSparse_total_iff hg hdim hdim rfl harity hrows hcols, if_neg (hnosymmetry hg)]
    intro hall
    have hcut := (cutKnots.allSupported_iff).mp (hall cutKnots (List.mem_cons_self ..))
    revert hcut
    decide +kernel

end FormAssembler

end Galerkin
