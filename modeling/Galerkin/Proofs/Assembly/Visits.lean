import Galerkin.Proofs.Assembly.Positions

/-! # Pairs that an assembly visits

A row looks at the first neighbour of its test function before it looks at the ranges. So it visits this
pair even if no support meets that of the test function, unless the use of symmetry makes it stop before.
An assembly that visits only functions with supports succeeds, and has entries of functions whose supports
meet only; one that visits any other fails or has an entry of two functions whose supports do not meet.

* **`startsOn`** — the first neighbours of a test function;
* **`Assembler.start_mem_partners`**, **`Assembler.partners_eq_nil`** — when a row visits them;
* **`Assembler.visited_of_rowTriplets`** — a row that succeeds has the blocks of all pairs it visits;
* **`Assembler.Visits`**, **`Assembler.assembleSparse_meeting_iff`** — the condition for an assembly to
  succeed without other entries. -/

namespace Galerkin

variable {α : Type} {axes : List AxisSupports} {test trial : List Nat}

/-! ## (1) First neighbours -/

/-- The first neighbours of a test function, axis by axis. -/
def startsOn (axes : List AxisSupports) (test : List Nat) : List Nat :=
  List.zipWith (fun x i => firstNeighbor (supportAt x.test i) x.trial) axes test

/-- Whether the supports of a test function are not empty. -/
def NonemptyOnAxes (axes : List AxisSupports) (test : List Nat) : Prop :=
  List.Forall₂ (fun x i => (supportAt x.test i).first < (supportAt x.test i).last) axes test

/-- The ranges of a row begin with the first neighbours. -/
theorem map_first_eq_startsOn (hsorted : ∀ x ∈ axes, SortedSupports x.trial) {ranges : List Interval}
    (hranges : List.Forall₂ (fun (p : AxisSupports × Nat) range =>
      Neighbors (supportAt p.1.test p.2) p.1.trial range) (axes.zip test) ranges) :
    ranges.map (·.first) = startsOn axes test := by
  unfold startsOn
  induction axes generalizing test ranges with
  | nil =>
    obtain rfl := List.forall₂_nil_left_iff.mp hranges
    rfl
  | cons x axes ih =>
    obtain ⟨hx, hsorted⟩ := List.forall_mem_cons.mp hsorted
    cases test with
    | nil =>
      obtain rfl := List.forall₂_nil_left_iff.mp hranges
      rfl
    | cons i test =>
      obtain ⟨range, ranges, hrange, hrest, rfl⟩ := List.forall₂_cons_left_iff.mp hranges
      rw [List.map_cons, List.zipWith_cons_cons, hrange.first_eq hx, ih hsorted hrest]

/-- Supports that meet are not empty. -/
theorem MeetOnAxes.nonempty (h : MeetOnAxes axes test trial) (hlen : axes.length = test.length) :
    NonemptyOnAxes axes test := by
  unfold MeetOnAxes supportBox at h
  unfold NonemptyOnAxes
  induction axes generalizing test trial with
  | nil =>
    obtain rfl := List.eq_nil_of_length_eq_zero hlen.symm
    exact .nil
  | cons x axes ih =>
    obtain ⟨i, test, rfl⟩ := List.exists_cons_of_length_eq_add_one hlen.symm
    cases trial with
    | nil => cases h
    | cons j trial =>
      obtain ⟨hmeets, hrest⟩ := List.forall₂_cons.mp h
      exact .cons (Interval.meets_iff.mp hmeets).1.1 (ih hrest (Nat.succ.inj hlen))

namespace Assembler

variable {a : Assembler α} {e : Evaluator α} {symmetric : Bool}

/-! ## (2) Visits of a row -/

/-- **A row visits the first neighbours,** whether or not the ranges hold any. -/
theorem start_mem_partners {i : Nat} {ranges : List Interval}
    (h : symmetric = true → MultiIndex.linearIndex (ranges.map (·.first)) a.trial.dofs ≤ i) :
    ranges.map (·.first) ∈ a.partners symmetric i ranges := by
  have hlen : (ranges.map (·.first)).length = (ranges.map (·.last)).length := by
    rw [List.length_map, List.length_map]
  obtain ⟨rest, hwalk⟩ := MultiIndex.walk_eq_cons hlen
  unfold partners
  rw [hwalk]
  cases symmetric with
  | false => exact List.mem_cons_self ..
  | true =>
    rw [if_pos rfl, List.takeWhile_cons, if_pos (decide_eq_true (h rfl))]
    exact List.mem_cons_self ..

/-- **A row that uses symmetry visits nothing** if the first neighbours come after the test function. -/
theorem partners_eq_nil {i : Nat} {ranges : List Interval}
    (h : i < MultiIndex.linearIndex (ranges.map (·.first)) a.trial.dofs) :
    a.partners true i ranges = [] := by
  have hlen : (ranges.map (·.first)).length = (ranges.map (·.last)).length := by
    rw [List.length_map, List.length_map]
  obtain ⟨rest, hwalk⟩ := MultiIndex.walk_eq_cons hlen
  unfold partners
  rw [hwalk, if_pos rfl, List.takeWhile_cons, if_neg (by simpa using h)]

/-- Blocks that have a value are those of functions in range. -/
theorem lt_of_blockBy {block : Array α} (h : a.blockBy e test trial = .ok block)
    (hlen : trial.length = a.trial.dofs.length) : List.Forall₂ (· < ·) trial a.trial.dofs := by
  obtain ⟨-, -, h⟩ := bind_eq_ok_iff.mp h
  obtain ⟨⟨⟩, hcheck, -⟩ := bind_eq_ok_iff.mp h
  exact (checkAxes_eq_ok_iff hlen).mp hcheck

variable [Scalar α]

/-- **A row that succeeds has the blocks of all pairs it visits.** -/
theorem visited_of_rowTriplets {row : List (Triplet α)} {ranges : List Interval}
    (h : a.rowTriplets e symmetric test = .ok row) (hranges : a.neighborRanges test = .ok ranges) :
    let i := MultiIndex.linearIndex test a.test.dofs
    ∀ trial ∈ a.partners symmetric i ranges, ∃ block, a.blockBy e test trial = .ok block ∧
      let j := MultiIndex.linearIndex trial a.trial.dofs
      ∀ t ∈ a.blockTriplets i j (symmetric && i != j) block, t ∈ row := by
  intro i trial htrial
  obtain ⟨ranges', hranges', h⟩ := bind_eq_ok_iff.mp h
  obtain rfl := Except.ok.inj (hranges.symm.trans hranges')
  obtain ⟨parts, hparts, h⟩ := bind_eq_ok_iff.mp h
  obtain rfl := Except.ok.inj h
  obtain ⟨part, hmem, hpart⟩ := exists_step_of_mapM hparts htrial
  obtain ⟨block, hblock, hpart⟩ := bind_eq_ok_iff.mp hpart
  refine ⟨block, hblock, fun t ht => List.mem_flatten.mpr ⟨part, hmem, ?_⟩⟩
  exact Except.ok.inj hpart ▸ ht

/-- A row that visits nothing has no entries. -/
theorem rowTriplets_eq_nil {ranges : List Interval} (hranges : a.neighborRanges test = .ok ranges)
    (h : a.partners symmetric (MultiIndex.linearIndex test a.test.dofs) ranges = []) :
    a.rowTriplets e symmetric test = .ok [] := by
  refine bind_eq_ok_iff.mpr ⟨ranges, hranges, bind_eq_ok_iff.mpr ⟨[], ?_, rfl⟩⟩
  rw [h]
  rfl

/-! ## (3) Rows of functions with supports -/

/-- **The row of a test function with supports** has entries of functions whose supports meet only. -/
theorem exists_row_of_served (harity : a.arity = .bilinear) (hne : axes ≠ [])
    (hsup : a.HasSupports axes) (hfind : a.FindsNeighbors axes) (hrows : a.test.FitsStorage)
    (hcols : a.trial.FitsStorage)
    (hspaces : symmetric = true → a.test = a.trial ∧ ∀ x ∈ axes, x.test = x.trial)
    (hblock : ∀ test trial, List.Forall₂ (· < ·) test a.test.dofs →
      List.Forall₂ (· < ·) trial a.trial.dofs → ∃ block, e.block test trial = .ok block)
    (hserved : Served axes test) :
    ∃ row, a.rowTriplets e symmetric test = .ok row ∧ ∀ t ∈ row, a.IsMeetingEntry axes t := by
  have htest : List.Forall₂ (· < ·) test a.test.dofs := by
    rw [hsup.test_dofs, List.forall₂_map_right_iff]
    exact (hserved.imp fun _ _ h => h.1).flip
  have htrials : ∀ trial ∈ a.meetingTrials axes test, List.Forall₂ (· < ·) trial a.trial.dofs ∧
      MeetOnAxes axes test trial := by
    intro trial htrial
    obtain ⟨hgrid, hmeet⟩ := List.mem_filter.mp htrial
    exact ⟨(mem_gridNodes (hsup.trial_ne_nil hne)).mp hgrid, of_decide_eq_true hmeet⟩
  have hblocks : ∀ trial ∈ a.meetingTrials axes test, ∃ block, e.block test trial = .ok block :=
    fun trial htrial => hblock test trial htest (htrials trial htrial).1
  choose! block hblocks using hblocks
  refine ⟨_, rowTriplets_eq_ok hsup hfind hne harity hserved fun trial htrial _ => hblocks trial htrial,
    fun t ht => ?_⟩
  obtain ⟨trial, hmem, ht⟩ := List.mem_flatMap.mp ht
  obtain ⟨htrial, hmeet⟩ := htrials trial (List.mem_of_mem_filter hmem)
  obtain ⟨r, hr, c, hc, ⟨hrow, hcol⟩ | ⟨hmirror, hrow, hcol⟩⟩ := mem_blockTriplets ht
  · exact isMeetingEntry_of_meet hrows hcols htest htrial hmeet hr hc hrow hcol
  · -- A mirrored entry belongs to the mirrored pair.
    obtain ⟨hsame, htables⟩ := hspaces (Bool.and_eq_true_iff.mp hmirror).1
    rw [← hsame] at htrial hc hrow
    rw [hsame] at htest hr hcol
    exact isMeetingEntry_of_meet hrows hcols htrial htest ((meetOnAxes_comm htables).mp hmeet) hc hr
      hrow hcol

/-! ## (4) Success -/

/-- Whether a run visits the first neighbours of a test function. -/
def Visits (a : Assembler α) (axes : List AxisSupports) (symmetric : Bool) (test : List Nat) : Prop :=
  symmetric = true → MultiIndex.linearIndex (startsOn axes test) a.trial.dofs ≤
    MultiIndex.linearIndex test a.test.dofs

/-- A matrix is made from the entries of all rows. -/
theorem triplets_of_assembleSparse {pool : WorkerPool} (harity : a.arity = .bilinear)
    {m : SparseMatrix α} (h : (a.assembleSparse pool).result = .ok m) :
    ∃ triplets, (a.sparseTriplets pool).result = .ok triplets ∧ m.entries = triplets := by
  obtain ⟨_, _, hrest⟩ := Outcome.bind_eq_ok_iff.mp h
  obtain ⟨triplets, htriplets, -⟩ := Outcome.bind_eq_ok_iff.mp hrest
  have hmatrix := (assembleSparse_result harity htriplets).symm.trans h
  refine ⟨triplets, htriplets, ?_⟩
  rw [(SparseMatrix.ofTriplets_eq_ok_iff.mp hmatrix).2.2]

/-- **An assembly succeeds without entries of functions whose supports do not meet** exactly if all test
functions whose first neighbours it visits have supports. -/
theorem assembleSparse_meeting_iff {pool : WorkerPool} (harity : a.arity = .bilinear) (hne : axes ≠ [])
    (hsup : a.HasSupports axes) (hfind : a.FindsNeighbors axes)
    (hsorted : ∀ x ∈ axes, SortedSupports x.trial) (hpos : ∀ x ∈ axes, 0 < x.test.size)
    (hr : 0 < a.test.components) (hc : 0 < a.trial.components) (hrows : a.test.FitsStorage)
    (hcols : a.trial.FitsStorage)
    (hspaces : a.usesSymmetry pool = true → a.test = a.trial ∧ ∀ x ∈ axes, x.test = x.trial)
    (he : a.workerEvaluator.result = .ok e)
    (hblock : ∀ test trial, List.Forall₂ (· < ·) test a.test.dofs →
      List.Forall₂ (· < ·) trial a.trial.dofs → ∃ block, e.block test trial = .ok block)
    (hserved : ∀ test, List.Forall₂ (fun x i => i < x.test.size) axes test →
      NonemptyOnAxes axes test → Served axes test) :
    (∃ m, (a.assembleSparse pool).result = .ok m ∧ ∀ t ∈ m.entries, a.IsMeetingEntry axes t) ↔
      ∀ test, List.Forall₂ (fun x i => i < x.test.size) axes test →
        a.Visits axes (a.usesSymmetry pool) test → NonemptyOnAxes axes test := by
  have hdofs : ∀ n ∈ a.test.dofs, 0 < n := by
    rw [hsup.test_dofs]
    exact List.forall_mem_map.mpr hpos
  have hgrid : ∀ test, test ∈ gridNodes a.test.dofs ↔
      List.Forall₂ (fun x i => i < x.test.size) axes test := by
    intro test
    rw [mem_gridNodes (hsup.test_ne_nil hne), hsup.test_dofs, List.forall₂_map_right_iff]
    exact ⟨List.Forall₂.flip, List.Forall₂.flip⟩
  constructor
  · rintro ⟨m, hm, hentries⟩ test htest hvisits
    obtain ⟨triplets, htriplets, hm⟩ := triplets_of_assembleSparse harity hm
    rw [hm] at hentries
    obtain ⟨ranges, hranges, hall⟩ := neighborRanges_eq_ok hfind htest
    have hstarts := map_first_eq_startsOn hsorted hall
    obtain ⟨row, hrow, hmem⟩ := row_of_sparseTriplets hdofs he htriplets test
      ((hgrid test).mpr htest)
    -- The row visits the first neighbours, so it has the entries of their block.
    have hstart := start_mem_partners fun hsymmetric => hstarts ▸ hvisits hsymmetric
    obtain ⟨block, hstartblock, hblockmem⟩ := visited_of_rowTriplets hrow hranges _ hstart
    rw [hstarts] at hstartblock hblockmem
    have hlen : (startsOn axes test).length = a.trial.dofs.length := by
      rw [startsOn, List.length_zipWith, ← htest.length_eq, Nat.min_self, hsup.trial_dofs,
        List.length_map]
    obtain ⟨t, ht, htrow, htcol⟩ := exists_mem_blockTriplets hr hc _ _ _ block
    have hmeet := (hentries t (hmem t (hblockmem t ht))).meet hrows hcols
      ((mem_gridNodes (hsup.test_ne_nil hne)).mp ((hgrid test).mpr htest))
      (lt_of_blockBy hstartblock hlen) hr hc htrow htcol
    exact hmeet.nonempty htest.length_eq
  · intro h
    have hallrows : ∀ test ∈ gridNodes a.test.dofs, ∃ row,
        a.rowTriplets e (a.usesSymmetry pool) test = .ok row ∧ ∀ t ∈ row, a.IsMeetingEntry axes t := by
      intro test htest
      have htest := (hgrid test).mp htest
      by_cases hvisits : a.Visits axes (a.usesSymmetry pool) test
      · exact exists_row_of_served harity hne hsup hfind hrows hcols hspaces hblock
          (hserved test htest (h test htest hvisits))
      · obtain ⟨hsymmetric, hafter⟩ := Classical.not_imp.mp hvisits
        obtain ⟨ranges, hranges, hall⟩ := neighborRanges_eq_ok hfind htest
        rw [← map_first_eq_startsOn hsorted hall] at hafter
        refine ⟨[], rowTriplets_eq_nil hranges ?_, fun t ht => nomatch ht⟩
        rw [hsymmetric]
        exact partners_eq_nil (not_le.mp hafter)
    choose! row hallrows using hallrows
    have htriplets := sparseTriplets_eq_ok hdofs he
      fun test htest => (hallrows test htest).1
    have hentries : ∀ t ∈ ((gridNodes a.test.dofs).flatMap row).toArray, a.IsMeetingEntry axes t := by
      intro t ht
      obtain ⟨test, htest, ht⟩ := List.mem_flatMap.mp (List.mem_toArray.mp ht)
      exact (hallrows test htest).2 t ht
    exact ⟨_, (assembleSparse_result harity htriplets).trans
      (ofTriplets_of_meeting hrows hcols hentries), hentries⟩

end Assembler

end Galerkin
