import Galerkin.Assembly.Matrix
import Galerkin.Proofs.Assembly.Sparse
import Galerkin.Proofs.Index.Linear
import Galerkin.Proofs.Index.Meeting
import Galerkin.Proofs.Steps

/-! # Neighbours of a test function

On every axis a range of trial functions is searched whose supports meet that of a test function. A row of
an assembly goes over the box of these ranges, and so over the trial functions whose supports meet that of
the test function on every axis, in storage order.

* **`Assembler.searchNeighbors_spec`** — the search on one axis;
* **`Assembler.HasSupports`**, **`Assembler.FindsNeighbors`** — what an assembler knows of its axes;
* **`MeetOnAxes`** — supports that meet on every axis;
* **`Assembler.partners_eq_filter`** — the trial functions that a row goes over;
* **`Assembler.rowTriplets_eq_ok`** — the entries of a row. -/

namespace Galerkin

variable {α : Type}

/-! ## (1) Searches on one axis -/

/-- **The search of an assembler** leads to the neighbours of a test function. -/
theorem Assembler.searchNeighbors_spec {dim axis i : Nat} {test trial : Array Interval}
    {meshSupport : (axis : Int) → Space → Except Error (Array Interval)} (haxis : axis < dim)
    (htest : meshSupport axis .test = .ok test) (htrial : meshSupport axis .trial = .ok trial)
    (hi : i < test.size) (hsorted : SortedSupports trial) :
    ∃ range, searchNeighbors dim meshSupport axis i = .ok range ∧
      Neighbors (supportAt test i) trial range := by
  have hcheckAxis : checkIndex .neighborAxis axis dim = .ok () :=
    checkIndex_eq_ok_iff.mpr ⟨Int.natCast_nonneg _, Int.ofNat_lt.mpr haxis⟩
  have hcheck : checkIndex .neighborFunction i test.size = .ok () :=
    checkIndex_eq_ok_iff.mpr ⟨Int.natCast_nonneg _, Int.ofNat_lt.mpr hi⟩
  rw [searchNeighbors, hcheckAxis, htest, htrial]
  refine ⟨_, bind_eq_ok_iff.mpr ⟨(), rfl, bind_eq_ok_iff.mpr ⟨test, rfl,
    bind_eq_ok_iff.mpr ⟨(), hcheck, bind_eq_ok_iff.mpr ⟨trial, rfl, rfl⟩⟩⟩⟩, ?_⟩
  set first := partitionPoint (fun j => decide ((supportAt trial j).last ≤ (supportAt test i).first)) 0
    trial.size with hfirst
  have hle : first ≤ trial.size := partitionPoint_le _ _
  refine ⟨hle, ?_, fun j hj => ?_, fun j hj hjfirst => ?_⟩
  · have hbounds := (partitionPoint_bounds
      (fun j => decide ((supportAt trial j).first < (supportAt test i).last)) first
      (trial.size - first)).2
    exact Nat.le_trans hbounds (by omega)
  · exact lt_search_first hsorted (fun _ => decide_eq_true_iff) hj
  · exact lt_search_last hsorted (fun _ => decide_eq_true_iff) hle hjfirst hj

/-! ## (2) Supports of an assembler -/

/-- The supports of the test and of the trial functions on one axis. -/
structure AxisSupports where
  test : Array Interval
  trial : Array Interval

/-- The supports of a tensor-product function, axis by axis. -/
def supportBox (supports : List (Array Interval)) (index : List Nat) : List Interval :=
  List.zipWith supportAt supports index

/-- **Whether the supports of a test and a trial function meet on every axis.** -/
def MeetOnAxes (axes : List AxisSupports) (test trial : List Nat) : Prop :=
  List.Forall₂ Interval.Meets (supportBox (axes.map (·.test)) test)
    (supportBox (axes.map (·.trial)) trial)

instance (axes : List AxisSupports) (test trial : List Nat) : Decidable (MeetOnAxes axes test trial) :=
  inferInstanceAs (Decidable (List.Forall₂ _ _ _))

/-- **A test function whose neighbours a search finds:** on every axis some support meets its own, and
none that it could meet is empty. -/
def Served (axes : List AxisSupports) (test : List Nat) : Prop :=
  List.Forall₂ (fun x i => i < x.test.size ∧
    (∃ j < x.trial.size, (supportAt x.test i).Meets (supportAt x.trial j)) ∧
    ∀ j < x.trial.size, (supportAt x.test i).first < (supportAt x.trial j).last →
      (supportAt x.trial j).first < (supportAt x.test i).last →
        (supportAt x.trial j).first < (supportAt x.trial j).last) axes test

/-- **Supports among which every test function has neighbours:** the trial functions have supports that
are sorted and not empty, and one of them meets that of a test function. -/
structure AxisSupports.Dense (x : AxisSupports) : Prop where
  sorted : SortedSupports x.trial
  nonempty : ∀ j < x.trial.size, (supportAt x.trial j).first < (supportAt x.trial j).last
  meets : ∀ i < x.test.size, ∃ j < x.trial.size, (supportAt x.test i).Meets (supportAt x.trial j)

/-- All test functions are served by such supports. -/
theorem served_of_dense {axes : List AxisSupports} (hdense : ∀ x ∈ axes, x.Dense) {test : List Nat}
    (htest : List.Forall₂ (fun x i => i < x.test.size) axes test) : Served axes test := by
  unfold Served
  induction htest with
  | nil => exact .nil
  | @cons x i axes test hi _ ih =>
    obtain ⟨hx, hdense⟩ := List.forall_mem_cons.mp hdense
    exact .cons ⟨hi, hx.meets i hi, fun j hj _ _ => hx.nonempty j hj⟩ (ih hdense)

/-- **Meeting is mutual** among the same supports. -/
theorem meetOnAxes_comm {axes : List AxisSupports} (hsame : ∀ x ∈ axes, x.test = x.trial)
    {test trial : List Nat} : MeetOnAxes axes test trial ↔ MeetOnAxes axes trial test := by
  have htables : axes.map (·.trial) = axes.map (·.test) :=
    List.map_congr_left fun x hx => (hsame x hx).symm
  unfold MeetOnAxes
  rw [htables]
  constructor
  · exact fun h => (h.imp fun _ _ hst => Interval.meets_comm.mp hst).flip
  · exact fun h => (h.imp fun _ _ hst => Interval.meets_comm.mp hst).flip

namespace Assembler

/-- **The supports of an assembler,** axis by axis, one for each function. -/
structure HasSupports (a : Assembler α) (axes : List AxisSupports) : Prop where
  test_dofs : a.test.dofs = axes.map (·.test.size)
  trial_dofs : a.trial.dofs = axes.map (·.trial.size)
  meshSupport : ∀ (k : Nat) x, axes[k]? = some x →
    a.meshSupport k .test = .ok x.test ∧ a.meshSupport k .trial = .ok x.trial

/-- There is an axis of trial functions. -/
theorem HasSupports.trial_ne_nil {a : Assembler α} {axes : List AxisSupports} (h : a.HasSupports axes)
    (hne : axes ≠ []) : a.trial.dofs ≠ [] := by
  rw [h.trial_dofs]
  exact fun hnil => hne (List.map_eq_nil_iff.mp hnil)

/-- There is an axis of test functions. -/
theorem HasSupports.test_ne_nil {a : Assembler α} {axes : List AxisSupports} (h : a.HasSupports axes)
    (hne : axes ≠ []) : a.test.dofs ≠ [] := by
  rw [h.test_dofs]
  exact fun hnil => hne (List.map_eq_nil_iff.mp hnil)

/-- An assembler searches neighbours on every axis. -/
def FindsNeighbors (a : Assembler α) (axes : List AxisSupports) : Prop :=
  ∀ (k : Nat) x, axes[k]? = some x → ∀ i < x.test.size, ∃ range,
    a.neighborRange k i = .ok range ∧ Neighbors (supportAt x.test i) x.trial range

variable {a : Assembler α} {axes : List AxisSupports} {test trial : List Nat}

/-- **The default search finds the neighbours** among sorted supports. -/
theorem findsNeighbors_of_default (hsup : a.HasSupports axes)
    (hsorted : ∀ x ∈ axes, SortedSupports x.trial)
    (hdefault : a.neighborRange = searchNeighbors axes.length a.meshSupport) :
    a.FindsNeighbors axes := by
  intro k x hx i hi
  obtain ⟨htest, htrial⟩ := hsup.meshSupport k x hx
  obtain ⟨hk, -⟩ := List.getElem?_eq_some_iff.mp hx
  rw [hdefault]
  exact searchNeighbors_spec hk htest htrial hi (hsorted x (List.mem_of_getElem? hx))

/-! ## (3) Boxes of neighbours -/

/-- **Every test function has a range of neighbours on every axis.** -/
theorem neighborRanges_eq_ok (hfind : a.FindsNeighbors axes)
    (htest : List.Forall₂ (fun x i => i < x.test.size) axes test) :
    ∃ ranges, a.neighborRanges test = .ok ranges ∧
      List.Forall₂ (fun (p : AxisSupports × Nat) range =>
        Neighbors (supportAt p.1.test p.2) p.1.trial range) (axes.zip test) ranges := by
  have hfrom : ∀ (axes : List AxisSupports) (test : List Nat) (m : Nat),
      List.Forall₂ (fun x i => i < x.test.size) axes test →
      (∀ (k : Nat) x, axes[k]? = some x → ∀ i < x.test.size, ∃ range,
        a.neighborRange ((m + k : Nat) : Int) i = .ok range ∧
          Neighbors (supportAt x.test i) x.trial range) →
      ∃ ranges, ((test.zipIdx m).mapM fun (p : Nat × Nat) => a.neighborRange (p.2 : Int) p.1) =
          .ok ranges ∧
        List.Forall₂ (fun (p : AxisSupports × Nat) range =>
          Neighbors (supportAt p.1.test p.2) p.1.trial range) (axes.zip test) ranges := by
    intro axes test m htest
    induction htest generalizing m with
    | nil => exact fun _ => ⟨[], rfl, .nil⟩
    | @cons x i axes test hi _ ih =>
      intro hfind
      obtain ⟨range, hrange, hneighbors⟩ := hfind 0 x rfl i hi
      obtain ⟨ranges, hranges, hall⟩ := ih (m + 1) fun k y hy j hj => by
        rw [Nat.add_assoc, Nat.add_comm 1]
        exact hfind (k + 1) y hy j hj
      refine ⟨range :: ranges, ?_, .cons hneighbors hall⟩
      exact mapM_eq_ok_iff.mpr (.cons hrange (mapM_eq_ok_iff.mp hranges))
  refine hfrom axes test 0 htest fun k x hx i hi => ?_
  rw [Nat.zero_add]
  exact hfind k x hx i hi

/-- **The box of the neighbours of a test function that is served:** no range is empty, and the cells are
the trial functions whose supports meet that of the test function on every axis. -/
theorem ranges_spec (hserved : Served axes test) {ranges : List Interval}
    (hranges : List.Forall₂ (fun (p : AxisSupports × Nat) range =>
      Neighbors (supportAt p.1.test p.2) p.1.trial range) (axes.zip test) ranges) :
    (∀ range ∈ ranges, range.first < range.last) ∧
      List.Forall₂ (fun range n => range.last ≤ n) ranges (axes.map (·.trial.size)) ∧
      ∀ trial, trial ∈ boxCells ranges ↔
        List.Forall₂ (· < ·) trial (axes.map (·.trial.size)) ∧ MeetOnAxes axes test trial := by
  unfold MeetOnAxes supportBox
  induction hserved generalizing ranges with
  | nil =>
    obtain rfl := List.forall₂_nil_left_iff.mp hranges
    refine ⟨fun _ hmem => (nomatch hmem), .nil, fun trial => ?_⟩
    rw [mem_boxCells, List.map_nil, List.forall₂_nil_right_iff, List.forall₂_nil_right_iff]
    exact (and_iff_left_of_imp fun h => h ▸ .nil).symm
  | @cons x i axes test hx _ ih =>
    obtain ⟨hi, ⟨k, hk, hmeets⟩, hfull⟩ := hx
    obtain ⟨range, ranges, hrange, hrest, rfl⟩ := List.forall₂_cons_left_iff.mp hranges
    obtain ⟨hpos, hin, hcells⟩ := ih hrest
    have hs := (Interval.meets_iff.mp hmeets).1.1
    have hk' := (hrange.contains_iff_meets hs hfull).mpr ⟨hk, hmeets⟩
    refine ⟨List.forall_mem_cons.mpr ⟨Nat.lt_of_le_of_lt hk'.1 hk'.2, hpos⟩,
      .cons hrange.last_le hin, fun trial => ?_⟩
    cases trial with
    | nil => simp [mem_boxCells]
    | cons j trial =>
      have hstep := hcells trial
      rw [mem_boxCells] at hstep ⊢
      rw [List.forall₂_cons, hstep, hrange.contains_iff_meets hs hfull, List.map_cons, List.map_cons,
        List.map_cons, List.zipWith_cons_cons, List.zipWith_cons_cons, List.forall₂_cons,
        List.forall₂_cons]
      exact and_and_and_comm

/-! ## (4) Rows -/

/-- The trial functions whose supports meet that of a test function on every axis, in storage order. -/
def meetingTrials (a : Assembler α) (axes : List AxisSupports) (test : List Nat) : List (List Nat) :=
  (gridNodes a.trial.dofs).filter fun trial => decide (MeetOnAxes axes test trial)

/-- **A row goes over the trial functions whose supports meet that of the test function,** with
`symmetric` over those with a number up to that of the test function. -/
theorem partners_eq_filter (hsup : a.HasSupports axes) (hne : axes ≠ []) (hserved : Served axes test)
    {ranges : List Interval}
    (hranges : List.Forall₂ (fun (p : AxisSupports × Nat) range =>
      Neighbors (supportAt p.1.test p.2) p.1.trial range) (axes.zip test) ranges)
    (symmetric : Bool) (i : Nat) :
    a.partners symmetric i ranges = (a.meetingTrials axes test).filter fun trial =>
      !symmetric || decide (MultiIndex.linearIndex trial a.trial.dofs ≤ i) := by
  obtain ⟨hpos, hin, hcells⟩ := ranges_spec hserved hranges
  rw [← hsup.trial_dofs] at hin hcells
  have hdofs := hsup.trial_ne_nil hne
  have hall : MultiIndex.walk (ranges.map (·.first)) (ranges.map (·.last)) =
      a.meetingTrials axes test := by
    rw [walk_eq_cells hpos, meetingTrials, gridNodes_eq_boxCells hdofs]
    refine boxCells_eq_filter hin fun trial htrial => ?_
    rw [decide_eq_true_iff, hcells]
    refine (and_iff_right ?_).symm
    rwa [← gridNodes_eq_boxCells hdofs, mem_gridNodes hdofs] at htrial
  have hgrow : (a.meetingTrials axes test).Pairwise fun x y =>
      MultiIndex.linearIndex x a.trial.dofs < MultiIndex.linearIndex y a.trial.dofs := by
    rw [← hall, walk_eq_cells hpos]
    exact pairwise_linearIndex hin
  unfold partners
  rw [hall]
  cases symmetric with
  | false => exact (List.filter_eq_self.mpr fun _ _ => rfl).symm
  | true =>
    refine takeWhile_eq_filter (hgrow.imp fun {x y} hlt hy => ?_)
    rw [decide_eq_true_iff] at hy ⊢
    exact Nat.le_trans (Nat.le_of_lt hlt) hy

/-- **Indices pass their check** if they name a function on every axis. -/
theorem checkAxes_eq_ok_iff {index : List Nat} {space : Space}
    (hlen : index.length = (a.layout space).dofs.length) :
    a.checkAxes index space = .ok () ↔ List.Forall₂ (· < ·) index (a.layout space).dofs := by
  rw [checkAxes, forM_eq_ok_iff, List.forall₂_iff_zip, and_iff_right hlen]
  constructor
  · intro h i n hmem
    obtain ⟨k, hk, heq⟩ := List.getElem_of_mem hmem
    have hcheck := h ((i, n), k) (List.mem_zipIdx_iff_getElem?.mpr
      (List.getElem?_eq_some_iff.mpr ⟨hk, heq⟩))
    exact Int.ofNat_lt.mp (checkIndex_eq_ok_iff.mp hcheck).2
  · rintro h ⟨⟨i, n⟩, axis⟩ hmem
    have hlt := h (List.fst_mem_of_mem_zipIdx hmem)
    exact checkIndex_eq_ok_iff.mpr ⟨Int.natCast_nonneg _, Int.ofNat_lt.mpr hlt⟩

variable {e : Evaluator α}

/-- The block of two functions in range is the one that is evaluated. -/
theorem blockBy_eq (harity : a.arity = .bilinear) (htest : List.Forall₂ (· < ·) test a.test.dofs)
    (htrial : List.Forall₂ (· < ·) trial a.trial.dofs) :
    a.blockBy e test trial = e.block test trial := by
  have htestcheck : a.checkAxes test .test = .ok () := (checkAxes_eq_ok_iff htest.length_eq).mpr htest
  have htrialcheck : a.checkAxes trial .trial = .ok () :=
    (checkAxes_eq_ok_iff htrial.length_eq).mpr htrial
  rw [blockBy, htestcheck, htrialcheck, harity]
  rfl

variable [Scalar α]

/-- **The entries of a row** are those of the blocks of the trial functions that it goes over. -/
theorem rowTriplets_eq_ok (hsup : a.HasSupports axes) (hfind : a.FindsNeighbors axes) (hne : axes ≠ [])
    (harity : a.arity = .bilinear) (hserved : Served axes test) {symmetric : Bool}
    {block : List Nat → Array α}
    (hblock : ∀ trial ∈ a.meetingTrials axes test, (symmetric = true →
      MultiIndex.linearIndex trial a.trial.dofs ≤ MultiIndex.linearIndex test a.test.dofs) →
        e.block test trial = .ok (block trial)) :
    let i := MultiIndex.linearIndex test a.test.dofs
    a.rowTriplets e symmetric test = .ok (((a.meetingTrials axes test).filter fun trial =>
      !symmetric || decide (MultiIndex.linearIndex trial a.trial.dofs ≤ i)).flatMap fun trial =>
        let j := MultiIndex.linearIndex trial a.trial.dofs
        a.blockTriplets i j (symmetric && i != j) (block trial)) := by
  intro i
  have htest : List.Forall₂ (fun x i => i < x.test.size) axes test := hserved.imp fun _ _ h => h.1
  obtain ⟨ranges, hranges, hall⟩ := neighborRanges_eq_ok hfind htest
  have hdofs : List.Forall₂ (· < ·) test a.test.dofs := by
    rw [hsup.test_dofs, List.forall₂_map_right_iff]
    exact htest.flip
  have hpartners := partners_eq_filter hsup hne hserved hall symmetric i
  refine bind_eq_ok_iff.mpr ⟨ranges, hranges, bind_eq_ok_iff.mpr ⟨_, ?_,
    congrArg Except.ok List.flatMap_def.symm⟩⟩
  rw [hpartners, mapM_eq_ok_iff, List.forall₂_map_right_iff, List.forall₂_same]
  intro trial htrial
  obtain ⟨hmem, hhalf⟩ := List.mem_filter.mp htrial
  have hin := (mem_gridNodes (hsup.trial_ne_nil hne)).mp (List.mem_of_mem_filter hmem)
  refine bind_eq_ok_iff.mpr ⟨block trial, ?_, rfl⟩
  rw [blockBy_eq harity hdofs hin]
  refine hblock trial hmem fun hsymmetric => ?_
  rw [hsymmetric, Bool.not_true, Bool.false_or] at hhalf
  exact of_decide_eq_true hhalf

end Assembler

end Galerkin
