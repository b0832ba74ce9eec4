import Galerkin.Proofs.Basis.Mesh
import Galerkin.Proofs.Index.Meeting
import Mathlib.Data.Nat.Find

/-! # Supports of basis functions

The supports of the functions of a knot vector are sorted, and every element lies in one of them. A
function vanishes on the domain if its support is empty; then the support lies at an end of the mesh, and
the function is one of the first or one of the last.

* **`KnotVector.sortedSupports`** — supports do not decrease in either end;
* **`jointRange_spec`** — the search for the neighbours of a function;
* **`KnotVector.exists_span`** — the functions over an element;
* **`KnotVector.support_of_isEmpty`** — where the support of a function that vanishes lies;
* **`KnotVector.AllSupported`**, **`KnotVector.allSupported_iff`** — knot vectors without functions that
  vanish. -/

namespace Galerkin

/-- **The search of a knot vector** leads to the neighbours of a function. -/
theorem jointRange_spec {i : Nat} {supports : Array Interval} (hi : i < supports.size)
    (hsorted : SortedSupports supports) :
    ∃ range, jointRange supports i = .ok range ∧ Neighbors (supportAt supports i) supports range := by
  have hcheck : checkIndex .jointSupportFunction i supports.size = .ok () :=
    checkIndex_eq_ok_iff.mpr ⟨Int.natCast_nonneg _, Int.ofNat_lt.mpr hi⟩
  rw [jointRange, hcheck]
  refine ⟨_, rfl, partitionPoint_le _ _, partitionPoint_le _ _, fun j hj => ?_, fun j hj _ => ?_⟩
  · refine lt_search_first hsorted (fun k => ?_) hj
    rw [Bool.not_eq_true', decide_eq_false_iff_not, not_lt]
    exact Iff.rfl
  · exact lt_search_last hsorted (fun _ => decide_eq_true_iff) (Nat.zero_le _) (Nat.zero_le j) hj

namespace KnotVector

variable {α : Type} [Scalar α] [LinearOrder α] [OrderedScalar α] (kv : KnotVector α)

/-! ## (1) Sorted supports -/

/-- The support of a function of a knot vector. -/
def supportOf (f : Nat) : Interval := supportAt kv.meshSupport f

omit [LinearOrder α] [OrderedScalar α] in
/-- The support of a function goes from the element of its first knot to that of its last. -/
theorem supportOf_eq {f : Nat} (hf : f < kv.dofs) : kv.supportOf f =
    ⟨elementOf kv.mesh (kv.knot f), elementOf kv.mesh (kv.knot (f + kv.degree + 1))⟩ :=
  kv.getD_meshSupport hf _

/-- **The elements of a support,** by the knots of the function. -/
theorem contains_supportOf {f e : Nat} (hf : f < kv.dofs) (he : e < kv.elements) :
    (kv.supportOf f).contains e = true ↔
      kv.knot f ≤ knotAt kv.mesh e ∧ knotAt kv.mesh e < kv.knot (f + kv.degree + 1) :=
  kv.mem_support hf he _

/-- A later point starts a later element. -/
theorem elementOf_mono {s t : α} (hst : s ≤ t) : elementOf kv.mesh s ≤ elementOf kv.mesh t := by
  by_contra hlt
  have he : elementOf kv.mesh t < kv.elements :=
    Nat.lt_of_lt_of_le (not_le.mp hlt) (kv.elementOf_le s)
  have hpoint := (kv.lt_elementOf he s).mp (not_le.mp hlt)
  exact Nat.lt_irrefl _ ((kv.lt_elementOf he t).mpr (hpoint.trans_le hst))

/-- **Supports are sorted.** -/
theorem sortedSupports : SortedSupports kv.meshSupport := by
  have hsize := kv.size_meshSupport
  constructor
  · intro i j hij hj
    rw [hsize] at hj
    change (kv.supportOf i).first ≤ (kv.supportOf j).first
    rw [kv.supportOf_eq hj, kv.supportOf_eq (Nat.lt_of_le_of_lt hij hj)]
    exact kv.elementOf_mono (kv.knot_mono hij (by omega))
  · intro i j hij hj
    rw [hsize] at hj
    change (kv.supportOf i).last ≤ (kv.supportOf j).last
    rw [kv.supportOf_eq hj, kv.supportOf_eq (Nat.lt_of_le_of_lt hij hj)]
    exact kv.elementOf_mono (kv.knot_mono (by omega) (by omega))

/-- A support does not end before it starts, nor beyond the mesh. -/
theorem supportOf_le {f : Nat} (hf : f < kv.dofs) :
    (kv.supportOf f).first ≤ (kv.supportOf f).last ∧ (kv.supportOf f).last ≤ kv.elements := by
  rw [kv.supportOf_eq hf]
  exact ⟨kv.elementOf_mono (kv.knot_mono (by omega) (by omega)), kv.elementOf_le _⟩

/-! ## (2) Functions over an element -/

/-- **Every element lies between two knots of the domain,** one next to the other. -/
theorem exists_span {e : Nat} (he : e < kv.elements) :
    ∃ f, kv.degree ≤ f ∧ f < kv.dofs ∧ kv.knot f ≤ knotAt kv.mesh e ∧
      knotAt kv.mesh e < kv.knot (f + 1) := by
  have hsize := kv.size_mesh
  have hlower : kv.knot kv.degree ≤ knotAt kv.mesh e :=
    kv.lower_eq ▸ kv.mesh_le (Nat.zero_le e) (by omega)
  have hupper : knotAt kv.mesh e < kv.knot kv.dofs := kv.upper_eq ▸ kv.mesh_lt he (by omega)
  -- The first knot behind the start of the element.
  have hex : ∃ k, knotAt kv.mesh e < kv.knot k := ⟨kv.dofs, hupper⟩
  have hfind := Nat.find_spec hex
  have hle : Nat.find hex ≤ kv.dofs := Nat.find_min' hex hupper
  have hlt : kv.degree < Nat.find hex := by
    by_contra hge
    exact absurd (hfind.trans_le (kv.knot_mono (not_lt.mp hge) (by omega))) (not_lt.mpr hlower)
  refine ⟨Nat.find hex - 1, by omega, by omega, ?_, ?_⟩
  · exact not_lt.mp (Nat.find_min hex (by omega))
  · rwa [Nat.sub_add_cancel (by omega)]

/-- A function that starts at the knot before an element, or earlier by less than the degree, has the
element in its support. -/
theorem contains_of_span {e f g : Nat} (he : e < kv.elements) (hf : f < kv.dofs)
    (hstart : kv.knot f ≤ knotAt kv.mesh e) (hend : knotAt kv.mesh e < kv.knot (f + 1)) (hgf : g ≤ f)
    (hfg : f ≤ g + kv.degree) : (kv.supportOf g).contains e = true := by
  rw [kv.contains_supportOf (Nat.lt_of_le_of_lt hgf hf) he]
  exact ⟨(kv.knot_mono hgf (by omega)).trans hstart,
    hend.trans_le (kv.knot_mono (by omega) (by omega))⟩

/-- **Every element lies in the support of some function.** -/
theorem exists_contains {e : Nat} (he : e < kv.elements) :
    ∃ f < kv.dofs, (kv.supportOf f).contains e = true := by
  obtain ⟨f, -, hf, hstart, hend⟩ := kv.exists_span he
  exact ⟨f, hf, kv.contains_of_span he hf hstart hend (Nat.le_refl f) (Nat.le_add_right ..)⟩

/-- With a positive degree two functions next to each other share the first element. -/
theorem exists_pair_of_degree_pos (hdegree : 0 < kv.degree) :
    ∃ f, 0 < f ∧ f < kv.dofs ∧ (kv.supportOf (f - 1)).contains 0 = true ∧
      (kv.supportOf f).contains 0 = true := by
  obtain ⟨f, hp, hf, hstart, hend⟩ := kv.exists_span kv.elements_pos
  refine ⟨f, by omega, hf, ?_, ?_⟩
  · exact kv.contains_of_span kv.elements_pos hf hstart hend (by omega) (by omega)
  · exact kv.contains_of_span kv.elements_pos hf hstart hend (Nat.le_refl f) (by omega)

/-- **With degree zero a function meets no other.** -/
theorem eq_of_meets_of_degree_zero (hdegree : kv.degree = 0) {f g : Nat} (hf : f < kv.dofs)
    (hg : g < kv.dofs) (h : (kv.supportOf f).Meets (kv.supportOf g)) : f = g := by
  have hapart : ∀ {f g : Nat}, f < g → g < kv.dofs → (kv.supportOf f).Meets (kv.supportOf g) →
      False := by
    intro f g hfg hg ⟨e, hfe, hge⟩
    have he : e < kv.elements :=
      Nat.lt_of_lt_of_le (Interval.contains_iff.mp hge).2 (kv.supportOf_le hg).2
    have hfe := ((kv.contains_supportOf (hfg.trans hg) he).mp hfe).2
    have hge := ((kv.contains_supportOf hg he).mp hge).1
    exact absurd (hfe.trans_le ((kv.knot_mono (by omega) (by omega)).trans hge)) (lt_irrefl _)
  rcases Nat.lt_trichotomy f g with hlt | heq | hgt
  · exact (hapart hlt hg h).elim
  · exact heq
  · exact (hapart hgt hf (Interval.meets_comm.mp h)).elim

/-! ## (3) Functions that vanish -/

/-- **No knot lies inside an element.** -/
theorem le_knot_of_lt {f e : Nat} (hf : f < kv.dofs) (he : e < kv.elements)
    (hstart : knotAt kv.mesh e < kv.knot f) : knotAt kv.mesh (e + 1) ≤ kv.knot f := by
  have hsize := kv.size_mesh
  -- A knot behind the start of the domain is a knot of the domain, and so a point of the mesh.
  have hdomain : kv.degree ≤ f := by
    by_contra hlt
    have hlower : kv.knot kv.degree ≤ knotAt kv.mesh e :=
      kv.lower_eq ▸ kv.mesh_le (Nat.zero_le _) (by omega)
    exact absurd ((kv.knot_mono (by omega) (by omega)).trans hlower) (not_le.mpr hstart)
  obtain ⟨d, hd, hdeq⟩ := kv.exists_mesh_eq hdomain hf.le
  rw [← hdeq] at hstart ⊢
  have hlt : e < d := lt_of_not_ge fun hge => absurd hstart (not_lt.mpr (kv.mesh_le hge (by omega)))
  exact kv.mesh_le hlt hd

/-- **A function without elements lies at an end of the mesh,** before it or behind it. -/
theorem support_of_isEmpty {f : Nat} (hf : f < kv.dofs)
    (hempty : (kv.supportOf f).last ≤ (kv.supportOf f).first) :
    (kv.supportOf f).last = 0 ∨ (kv.supportOf f).first = kv.elements := by
  obtain ⟨hle, hlast⟩ := kv.supportOf_le hf
  by_contra hinside
  rw [not_or] at hinside
  have hsize := kv.size_mesh
  rw [kv.supportOf_eq hf] at hempty hle hlast hinside
  simp only at hempty hle hlast hinside
  set e := elementOf kv.mesh (kv.knot f) with he
  have hbefore : knotAt kv.mesh (e - 1) < kv.knot f :=
    (kv.lt_elementOf (by omega) _).mp (by omega)
  have hafter : kv.knot (f + kv.degree + 1) ≤ knotAt kv.mesh e := by
    refine not_lt.mp fun hlt => ?_
    have := (kv.lt_elementOf (by omega) _).mpr hlt
    omega
  have hinner := kv.le_knot_of_lt hf (by omega) hbefore
  rw [Nat.sub_add_cancel (by omega)] at hinner
  exact absurd (hafter.trans hinner) (not_le.mpr (kv.function_lt hf))

/-- Whether a function has elements in its support. -/
def Supported (f : Nat) : Prop := (kv.supportOf f).first < (kv.supportOf f).last

/-- **Knot vectors without functions that vanish on the domain.** -/
def AllSupported : Prop := ∀ f < kv.dofs, kv.Supported f

/-- With degree zero no function vanishes. -/
theorem allSupported_of_degree_zero (hdegree : kv.degree = 0) : kv.AllSupported := by
  intro f hf
  have hsize := kv.size_mesh
  obtain ⟨e, he, heq⟩ := kv.exists_mesh_eq (by omega) hf.le
  have hlt : knotAt kv.mesh e < kv.knot (f + kv.degree + 1) := heq ▸ kv.function_lt hf
  have helt : e < kv.elements := by
    refine lt_of_not_ge fun hge => ?_
    have htop : knotAt kv.mesh e = kv.knot kv.dofs := by
      rw [← kv.upper_eq, upper, Nat.le_antisymm (by omega) hge]
    exact absurd (htop ▸ hlt) (not_lt.mpr (kv.knot_mono (by omega) (by omega)))
  have hin := (kv.contains_supportOf hf helt).mpr ⟨heq.ge, hlt⟩
  rw [Interval.contains_iff] at hin
  exact Nat.lt_of_le_of_lt hin.1 hin.2

/-- **No function vanishes** if the domain starts with a knot that the next one exceeds, and ends with one
that exceeds the knot before it. -/
theorem allSupported_iff : kv.AllSupported ↔
    kv.knot kv.degree < kv.knot (kv.degree + 1) ∧ kv.knot (kv.dofs - 1) < kv.knot kv.dofs := by
  have hlt := kv.degree_lt_dofs
  have hpos := kv.elements_pos
  have hsize := kv.size_mesh
  have hcontains : ∀ f < kv.dofs, kv.Supported f → ∃ e < kv.elements,
      kv.knot f ≤ knotAt kv.mesh e ∧ knotAt kv.mesh e < kv.knot (f + kv.degree + 1) := by
    intro f hf hsupport
    have he : (kv.supportOf f).first < kv.elements :=
      Nat.lt_of_lt_of_le hsupport (kv.supportOf_le hf).2
    exact ⟨_, he, (kv.contains_supportOf hf he).mp
      (Interval.contains_iff.mpr ⟨Nat.le_refl _, hsupport⟩)⟩
  constructor
  · intro hall
    obtain ⟨d, hd, -, hfirst⟩ := hcontains 0 (by omega) (hall 0 (by omega))
    obtain ⟨e, he, hlast, -⟩ := hcontains (kv.dofs - 1) (by omega) (hall _ (by omega))
    rw [Nat.zero_add] at hfirst
    constructor
    · exact (kv.lower_eq ▸ kv.mesh_le (Nat.zero_le d) (by omega) :
        kv.knot kv.degree ≤ _).trans_lt hfirst
    · exact hlast.trans_lt (kv.upper_eq ▸ kv.mesh_lt he (by omega) : _ < kv.knot kv.dofs)
  · rintro ⟨hfirst, hlast⟩ f hf
    by_contra hempty
    rcases kv.support_of_isEmpty hf (not_lt.mp hempty) with hzero | htop
    · -- The last knot of the function lies behind the start of the domain.
      have hlower : knotAt kv.mesh 0 < kv.knot (f + kv.degree + 1) :=
        (kv.lower_eq.trans_lt hfirst).trans_le (kv.knot_mono (by omega) (by omega))
      have hin := (kv.lt_elementOf hpos _).mpr hlower
      rw [kv.supportOf_eq hf] at hzero
      simp only at hzero
      omega
    · -- The first knot of the function lies before the end of the domain, and behind all elements.
      rw [kv.supportOf_eq hf] at htop
      simp only at htop
      have hbefore : knotAt kv.mesh (kv.elements - 1) < kv.knot f :=
        (kv.lt_elementOf (by omega) _).mp (by omega)
      have hafter : kv.knot f < knotAt kv.mesh kv.elements :=
        (kv.knot_mono (by omega) (by omega)).trans_lt (hlast.trans_eq kv.upper_eq.symm)
      have hinner := kv.le_knot_of_lt hf (by omega) hbefore
      rw [Nat.sub_add_cancel hpos] at hinner
      exact absurd hinner (not_le.mpr hafter)

/-! ## (4) First neighbours -/

/-- The first function whose support ends behind the start of that of `f`. -/
def start (f : Nat) : Nat := firstNeighbor (kv.supportOf f) kv.meshSupport

omit [LinearOrder α] [OrderedScalar α] in
/-- There are no more functions before the first neighbour than functions. -/
theorem start_le (f : Nat) : kv.start f ≤ kv.dofs := kv.size_meshSupport ▸ firstNeighbor_le

/-- **A function lies before its first neighbour exactly if it vanishes.** -/
theorem lt_start_iff {f : Nat} (hf : f < kv.dofs) : f < kv.start f ↔ ¬ kv.Supported f := by
  rw [start, lt_firstNeighbor kv.sortedSupports (kv.size_meshSupport.symm ▸ hf), Supported, not_lt]
  exact Iff.rfl

/-- With degree zero a function is its own first neighbour. -/
theorem start_eq_of_degree_zero (hdegree : kv.degree = 0) {f : Nat} (hf : f < kv.dofs) :
    kv.start f = f := by
  have hall := kv.allSupported_of_degree_zero hdegree
  have hle : kv.start f ≤ f := not_lt.mp fun hlt => (kv.lt_start_iff hf).mp hlt (hall f hf)
  have hg : kv.start f < kv.dofs := Nat.lt_of_le_of_lt hle hf
  -- The first neighbour meets the function.
  have hstart := mt (@lt_firstNeighbor (kv.supportOf f) _ kv.sortedSupports _
    (kv.size_meshSupport.symm ▸ hg)).mpr (Nat.lt_irrefl _)
  have hfirst := kv.sortedSupports.first_mono _ _ hle (kv.size_meshSupport.symm ▸ hf)
  refine (kv.eq_of_meets_of_degree_zero hdegree hf hg (Interval.meets_iff.mpr ?_)).symm
  exact ⟨⟨hall f hf, hall _ hg⟩, not_le.mp hstart, Nat.lt_of_le_of_lt hfirst (hall f hf)⟩

/-- With a positive degree some function has an earlier neighbour. -/
theorem exists_start_lt (hdegree : 0 < kv.degree) :
    ∃ f < kv.dofs, kv.Supported f ∧ kv.start f < f := by
  obtain ⟨f, hpos, hf, hbefore, hin⟩ := kv.exists_pair_of_degree_pos hdegree
  rw [Interval.contains_iff] at hbefore hin
  refine ⟨f, hf, Nat.lt_of_le_of_lt hin.1 hin.2, ?_⟩
  have hnot : ¬ f - 1 < kv.start f := by
    rw [start, lt_firstNeighbor kv.sortedSupports (kv.size_meshSupport.symm ▸ (by omega))]
    change ¬ (kv.supportOf (f - 1)).last ≤ (kv.supportOf f).first
    omega
  omega

/-- Some function has elements in its support. -/
theorem exists_supported : ∃ f < kv.dofs, kv.Supported f := by
  obtain ⟨f, hf, hin⟩ := kv.exists_contains kv.elements_pos
  rw [Interval.contains_iff] at hin
  exact ⟨f, hf, Nat.lt_of_le_of_lt hin.1 hin.2⟩

end KnotVector

end Galerkin
