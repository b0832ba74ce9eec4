import Galerkin.Proofs.Tape.Building
import Mathlib.Data.List.Count

/-! # Finishing a program changes no result

Finishing drops instructions that no output depends on, then slots that no instruction reads, and
numbers registers and slots anew. A kept register has in the finished program, under its new number,
the value it had before.

* **`rank`** — the number of marked positions before a position, the new number of a kept one;
* **`kept_getElem?`** — what is kept stands at its rank;
* **`liveRegisters_spec`** — operands of live instructions are live;
* **`finish_value`**, **`finish_evaluateAt`** — registers and results after finishing;
* **`finish_slotsListed`** — a finished program reads listed slots only. -/

namespace Galerkin.ProgramBuilder

variable {α β : Type}

/-! ## (1) Marks and ranks -/

/-- Whether a position is marked. -/
def marked (marks : Array Bool) (i : Nat) : Bool := marks.getD i false

/-- **The number of marked positions before `i`.** -/
def rank (marks : Array Bool) (i : Nat) : Nat := (List.range i).countP (marked marks)

/-- A marked position raises the rank of the next one. -/
theorem rank_succ (marks : Array Bool) (i : Nat) :
    rank marks (i + 1) = rank marks i + if marked marks i then 1 else 0 := by
  rw [rank, rank, List.range_succ, List.countP_append, List.countP_singleton]

/-- Ranks do not decrease. -/
theorem rank_mono (marks : Array Bool) {i j : Nat} (h : i ≤ j) : rank marks i ≤ rank marks j := by
  induction j, h using Nat.le_induction with
  | base => exact le_refl _
  | succ j _ ih =>
    rw [rank_succ]
    exact Nat.le_add_right_of_le ih

/-- **A marked position has a smaller rank than every later one.** -/
theorem rank_lt (marks : Array Bool) {i j : Nat} (hi : marked marks i = true) (h : i < j) :
    rank marks i < rank marks j := by
  have hle := rank_mono marks h
  rw [rank_succ, if_pos hi] at hle
  exact hle

/-- The numbers a running count assigns. -/
theorem foldl_ranks (ms : List Bool) :
    let counted := ms.foldl (fun ((ranks, count) : Array Nat × Nat) mark =>
      (ranks.push count, if mark then count + 1 else count)) (#[], 0)
    counted.1 = ((List.range ms.length).map fun i => (ms.take i).count true).toArray ∧
      counted.2 = ms.count true := by
  induction ms using List.reverseRecOn with
  | nil => exact ⟨rfl, rfl⟩
  | append_singleton ms m ih =>
    obtain ⟨hranks, hcount⟩ := ih
    simp only [List.foldl_append, List.foldl_cons, List.foldl_nil]
    constructor
    · rw [hranks, hcount, List.length_append, List.length_singleton, List.range_succ,
        List.map_append, List.map_singleton, List.push_toArray]
      congr 2
      · refine List.map_congr_left fun i hi => ?_
        rw [List.take_append_of_le_length (List.mem_range.mp hi).le]
      · rw [List.take_left]
    · rw [hcount, List.count_append, List.count_singleton]
      cases m <;> simp

/-- **The numbers that `ranks` assigns are the ranks.** -/
theorem ranks_getD (marks : Array Bool) {i : Nat} (hi : i < marks.size) :
    (ranks marks).getD i 0 = rank marks i := by
  have hlen : i < marks.toList.length := by rwa [Array.length_toList]
  have htake : marks.toList.take i = (List.range i).map (marked marks) := by
    refine List.ext_getElem (by simp; omega) fun j hj hj' => ?_
    have hj : j < marks.size := by simp at hj; omega
    simp [marked, hj]
  rw [ranks, ← Array.foldl_toList, (foldl_ranks marks.toList).1]
  simp only [Array.getD_eq_getD_getElem?, List.getElem?_toArray]
  rw [List.getElem?_map, List.getElem?_range hlen, Option.map_some, Option.getD_some, htake,
    List.count, List.countP_map, rank]
  congr 1
  funext j
  cases h : marked marks j <;> simp [h]

/-- What is kept of a list stands at the number of kept elements before it. -/
theorem kept_getElem?_from (marks : Array Bool) (values : List β) :
    ∀ {k j : Nat}, marked marks (k + j) = true →
      (((values.zipIdx k).filter fun (_, i) => marks.getD i false).map Prod.fst)[
        (List.range' k j).countP (marked marks)]? = values[j]? ∨ values.length ≤ j := by
  induction values with
  | nil => intro k j _; exact .inr (Nat.zero_le _)
  | cons v values ih =>
    intro k j hj
    rw [List.zipIdx_cons]
    cases j with
    | zero =>
      rw [List.filter_cons_of_pos (by simpa [marked] using hj)]
      exact .inl rfl
    | succ j =>
      have hj' : marked marks (k + 1 + j) = true := by rw [← hj]; congr 1; omega
      refine (ih hj').imp (fun h => ?_) fun h => Nat.succ_le_succ h
      rw [List.getElem?_cons_succ, ← h, List.range'_succ, List.countP_cons]
      by_cases hk : marked marks k = true
      · rw [List.filter_cons_of_pos (by simpa [marked] using hk), if_pos hk]
        rfl
      · rw [List.filter_cons_of_neg (by simpa [marked] using hk), if_neg hk]
        rfl

/-- **A kept element stands at its rank.** -/
theorem kept_getElem? {marks : Array Bool} {values : List β} {i : Nat} {v : β}
    (hi : marked marks i = true) (hv : values[i]? = some v) :
    (kept marks values)[rank marks i]? = some v := by
  have hlt : i < values.length := (List.getElem?_eq_some_iff.mp hv).1
  have h := (kept_getElem?_from marks values (k := 0) (j := i) (by rwa [Nat.zero_add])).resolve_right
    (not_le.mpr hlt)
  rw [← List.range_eq_range'] at h
  rw [kept, ← hv]
  exact h

/-- Kept elements are elements whose position is marked. -/
theorem mem_kept {marks : Array Bool} {values : List β} {v : β} :
    v ∈ kept marks values ↔ ∃ i, marked marks i = true ∧ values[i]? = some v := by
  simp only [kept, List.mem_map, List.mem_filter, Prod.exists, exists_and_right, exists_eq_right,
    List.mem_zipIdx_iff_getElem?, marked]
  exact exists_congr fun i => and_comm

/-- Marking a position of the array. -/
theorem marked_setIfInBounds (marks : Array Bool) (i j : Nat) :
    marked (marks.setIfInBounds i true) j =
      (marked marks j || decide (i = j) && decide (i < marks.size)) := by
  rw [marked, marked, Array.getD_eq_getD_getElem?, Array.getD_eq_getD_getElem?,
    Array.getElem?_setIfInBounds]
  by_cases h : i = j
  · subst h
    by_cases hi : i < marks.size
    · simp [hi]
    · simp [hi]
  · simp [h]

/-! ## (2) Live registers -/

/-- An instruction marks registers below its own only. -/
theorem marked_markOperands_of_le {live : Array Bool} {instr : Instr α} {k j : Nat}
    (hread : instr.ReadsBelow k) (hj : k ≤ j) :
    marked (markOperands live (instr, k)) j = marked live j := by
  cases instr with
  | arith op lhs rhs =>
    have hl : lhs ≠ j := by have := hread.1; omega
    have hr : rhs ≠ j := by have := hread.2; omega
    rw [markOperands]
    split
    · rw [marked_setIfInBounds, marked_setIfInBounds]
      simp [hl, hr]
    · rfl
  | _ => rfl

/-- An instruction takes no mark away. -/
theorem marked_markOperands_mono {live : Array Bool} {instr : Instr α} {k j : Nat}
    (h : marked live j = true) : marked (markOperands live (instr, k)) j = true := by
  cases instr with
  | arith op lhs rhs =>
    rw [markOperands]
    split
    · rw [marked_setIfInBounds, marked_setIfInBounds, h]
      simp
    · exact h
  | _ => exact h

/-- The number of marks does not change. -/
theorem size_markOperands (live : Array Bool) (item : Instr α × Nat) :
    (markOperands live item).size = live.size := by
  obtain ⟨instr, k⟩ := item
  cases instr with
  | arith op lhs rhs =>
    rw [markOperands]
    split
    · simp
    · rfl
  | _ => rfl

/-- **A live operation marks its operands.** -/
theorem marked_operands {live : Array Bool} {op : ArithOp} {lhs rhs k : Nat}
    (hk : marked live k = true) (hl : lhs < live.size) (hr : rhs < live.size) :
    marked (markOperands live (.arith (α := α) op lhs rhs, k)) lhs = true ∧
      marked (markOperands live (.arith (α := α) op lhs rhs, k)) rhs = true := by
  have hk' : live.getD k false = true := hk
  rw [markOperands, if_pos hk', marked_setIfInBounds, marked_setIfInBounds, marked_setIfInBounds]
  simp [hl, hr]

/-- **One backward sweep closes the marks under operands.** `code` holds the instructions from register
`k` on; later marks do not reach back to an instruction that has been looked at. -/
theorem sweep_marks (code : List (Instr α)) :
    ∀ {k : Nat} (live : Array Bool),
      (∀ {i instr}, code[i]? = some instr → Instr.ReadsBelow (k + i) instr) →
      k + code.length ≤ live.size →
      let result := (code.zipIdx k).foldr (fun instr live => markOperands live instr) live
      result.size = live.size ∧ (∀ j, marked live j = true → marked result j = true) ∧
        ∀ {i op lhs rhs}, code[i]? = some (.arith op lhs rhs) → marked result (k + i) = true →
          marked result lhs = true ∧ marked result rhs = true := by
  induction code with
  | nil =>
    intro k live _ _
    exact ⟨rfl, fun _ h => h, fun h => by simp at h⟩
  | cons instr code ih =>
    intro k live hread hsize
    rw [List.length_cons] at hsize
    have hreadTail : ∀ {i instr'}, code[i]? = some instr' → Instr.ReadsBelow (k + 1 + i) instr' := by
      intro i instr' h
      have h' := hread (i := i + 1) (by rwa [List.getElem?_cons_succ])
      rwa [Nat.add_assoc, Nat.add_comm 1 i]
    obtain ⟨hsz, hmono, hclosed⟩ := ih (k := k + 1) live hreadTail (by omega)
    have hhead : instr.ReadsBelow k := hread (i := 0) rfl
    simp only [List.zipIdx_cons, List.foldr_cons]
    set later := (code.zipIdx (k + 1)).foldr (fun instr live => markOperands live instr) live
    refine ⟨(size_markOperands _ _).trans hsz,
      fun j hj => marked_markOperands_mono (hmono j hj), ?_⟩
    intro i op lhs rhs hi hlive
    rw [marked_markOperands_of_le hhead (Nat.le_add_right k i)] at hlive
    cases i with
    | zero =>
      obtain rfl : instr = .arith op lhs rhs := Option.some.inj hi
      exact marked_operands hlive (by have := hhead.1; omega) (by have := hhead.2; omega)
    | succ i =>
      rw [List.getElem?_cons_succ] at hi
      have hlive' : marked later (k + 1 + i) = true := by rw [← hlive]; congr 1; omega
      obtain ⟨hl, hr⟩ := hclosed hi hlive'
      exact ⟨marked_markOperands_mono hl, marked_markOperands_mono hr⟩

/-- Outputs mark their registers. -/
theorem marked_wanted (outputs : List (Nat × Nat)) :
    ∀ live : Array Bool,
      let wanted := outputs.foldl (fun live (_, register) => live.setIfInBounds register true) live
      wanted.size = live.size ∧ (∀ j, marked live j = true → marked wanted j = true) ∧
        ∀ o ∈ outputs, o.2 < live.size → marked wanted o.2 = true := by
  induction outputs with
  | nil => intro live; exact ⟨rfl, fun _ h => h, fun _ h => by simp at h⟩
  | cons o outputs ih =>
    intro live
    obtain ⟨hsz, hmono, hwanted⟩ := ih (live.setIfInBounds o.2 true)
    rw [Array.size_setIfInBounds] at hsz hwanted
    refine ⟨hsz, fun j hj => hmono j (by rw [marked_setIfInBounds, hj, Bool.true_or]), ?_⟩
    intro o' ho' hlt
    rcases List.mem_cons.mp ho' with rfl | ho'
    · exact hmono _ (by rw [marked_setIfInBounds]; simp [hlt])
    · exact hwanted o' ho' hlt

variable {b : ProgramBuilder α}

/-- **The live registers:** one mark per register, outputs are marked, and with an operation its
operands. -/
theorem liveRegisters_spec (hb : b.WellFormed) :
    b.liveRegisters.size = b.code.size ∧
      (∀ o ∈ b.outputs, marked b.liveRegisters o.2 = true) ∧
      ∀ {i op lhs rhs}, b.code[i]? = some (.arith op lhs rhs) →
        marked b.liveRegisters i = true →
          marked b.liveRegisters lhs = true ∧ marked b.liveRegisters rhs = true := by
  obtain ⟨hwsize, -, hwanted⟩ :=
    marked_wanted b.outputs (Array.replicate b.code.size false)
  rw [Array.size_replicate] at hwsize hwanted
  have hread : ∀ {i instr}, b.code.toList[i]? = some instr → Instr.ReadsBelow (0 + i) instr := by
    intro i instr h
    rw [Nat.zero_add]
    exact hb.reads (by rwa [← Array.getElem?_toList])
  obtain ⟨hsize, hmono, hclosed⟩ := sweep_marks b.code.toList (k := 0) _ hread
    (by rw [hwsize, Array.length_toList, Nat.zero_add])
  refine ⟨hsize.trans hwsize, fun o ho => hmono _ (hwanted o ho (hb.outputs o ho)), ?_⟩
  intro i op lhs rhs hi hlive
  exact hclosed (i := i) (by rwa [Array.getElem?_toList]) (by rwa [Nat.zero_add])

/-! ## (3) Slots -/

/-- Slots that are marked stay marked, and those of the instructions are marked. -/
theorem marked_foldl_slots (slot? : Instr α → Option Nat) (code : List (Instr α)) :
    ∀ used : Array Bool,
      let result := code.foldl (fun used instr =>
        match slot? instr with
        | some slot => used.setIfInBounds slot true
        | none => used) used
      result.size = used.size ∧ (∀ j, marked used j = true → marked result j = true) ∧
        ∀ instr ∈ code, ∀ slot, slot? instr = some slot → slot < used.size →
          marked result slot = true := by
  induction code with
  | nil => intro used; exact ⟨rfl, fun _ h => h, fun _ h => by simp at h⟩
  | cons instr code ih =>
    intro used
    rw [List.foldl_cons]
    cases hslot : slot? instr with
    | none =>
      obtain ⟨hsz, hmono, hall⟩ := ih used
      refine ⟨hsz, hmono, fun instr' hi slot hs hlt => ?_⟩
      rcases List.mem_cons.mp hi with rfl | hi
      · rw [hslot] at hs
        cases hs
      · exact hall instr' hi slot hs hlt
    | some k =>
      obtain ⟨hsz, hmono, hall⟩ := ih (used.setIfInBounds k true)
      rw [Array.size_setIfInBounds] at hsz hall
      refine ⟨hsz, fun j hj => hmono j (by rw [marked_setIfInBounds, hj, Bool.true_or]), ?_⟩
      intro instr' hi slot hs hlt
      rcases List.mem_cons.mp hi with rfl | hi
      · obtain rfl : k = slot := Option.some.inj (hslot.symm.trans hs)
        exact hmono _ (by rw [marked_setIfInBounds]; simp [hlt])
      · exact hall instr' hi slot hs hlt

/-- **The slot of an instruction is used.** -/
theorem usedSlots_spec (count : Nat) (slot? : Instr α → Option Nat) (code : List (Instr α)) :
    (usedSlots count slot? code).size = count ∧
      ∀ instr ∈ code, ∀ slot, slot? instr = some slot → slot < count →
        marked (usedSlots count slot? code) slot = true := by
  obtain ⟨hsz, -, hall⟩ := marked_foldl_slots slot? code (Array.replicate count false)
  rw [Array.size_replicate] at hsz hall
  exact ⟨hsz, hall⟩

/-- The entry of a used slot stands in the list of used slots at the new number of the slot. -/
theorem kept_getD_ranks {marks : Array Bool} {values : List β} (hsize : marks.size = values.length)
    {slot : Nat} (hlt : slot < values.length) (hslot : marked marks slot = true) (d : β) :
    (ranks marks).getD slot 0 < (kept marks values).length ∧
      (kept marks values).getD ((ranks marks).getD slot 0) d = values.getD slot d := by
  have h := kept_getElem? hslot (List.getElem?_eq_getElem hlt)
  rw [ranks_getD marks (by omega)]
  refine ⟨(List.getElem?_eq_some_iff.mp h).1, ?_⟩
  rw [List.getD_eq_getElem?_getD, List.getD_eq_getElem?_getD, h, List.getElem?_eq_getElem hlt]

/-! ## (4) The finished program -/

/-- The instructions that are kept. -/
def keptCode (b : ProgramBuilder α) : List (Instr α) := kept b.liveRegisters b.code.toList

/-- A kept instruction with the numbers of the finished program. -/
def renumbered (b : ProgramBuilder α) : Instr α → Instr α :=
  renumber (ranks (usedSlots b.loads.length basisSlot? b.keptCode))
    (ranks (usedSlots b.fields.length fieldSlot? b.keptCode)) (ranks b.liveRegisters)

theorem finish_code (b : ProgramBuilder α) :
    b.finish.code = (b.keptCode.map b.renumbered).toArray := rfl

/-- **A live instruction is in the finished program,** at its rank and renumbered. -/
theorem finish_getElem? {i : Nat} {instr : Instr α} (hi : b.code[i]? = some instr)
    (hlive : marked b.liveRegisters i = true) :
    b.finish.code[rank b.liveRegisters i]? = some (b.renumbered instr) := by
  rw [finish_code, List.getElem?_toArray, List.getElem?_map, keptCode,
    kept_getElem? hlive (by rwa [Array.getElem?_toList]), Option.map_some]

/-- The new numbers of the operands of a live operation. -/
theorem renumbered_arith (hb : b.WellFormed) {i : Nat} {op : ArithOp} {lhs rhs : Nat}
    (hi : b.code[i]? = some (.arith op lhs rhs)) :
    b.renumbered (.arith op lhs rhs) =
      .arith op (rank b.liveRegisters lhs) (rank b.liveRegisters rhs) := by
  have hreads := hb.reads hi
  have hlt : i < b.code.size := (Array.getElem?_eq_some_iff.mp hi).1
  have hsize := (liveRegisters_spec hb).1
  rw [renumbered, renumber, ranks_getD _ (by have := hreads.1; omega),
    ranks_getD _ (by have := hreads.2; omega)]

/-- **A live instruction is renumbered to one that reads earlier registers and listed slots,** which
stand for the same loads and fields. -/
theorem renumbered_spec (hb : b.WellFormed) {i : Nat} {instr : Instr α}
    (hi : b.code[i]? = some instr) (hlive : marked b.liveRegisters i = true) :
    (b.renumbered instr).ReadsBelow (rank b.liveRegisters i) ∧
      (b.renumbered instr).SlotsBelow b.finish.loads.length b.finish.fields.length := by
  have hmem : instr ∈ b.keptCode := mem_kept.mpr ⟨i, hlive, by rwa [Array.getElem?_toList]⟩
  have hslots := hb.slots hi
  cases instr with
  | const c => exact ⟨trivial, trivial⟩
  | loadBasis slot =>
    obtain ⟨hsz, hall⟩ := usedSlots_spec b.loads.length basisSlot? b.keptCode
    exact ⟨trivial, (kept_getD_ranks hsz hslots (hall _ hmem slot rfl hslots) default).1⟩
  | loadField slot component =>
    obtain ⟨hsz, hall⟩ := usedSlots_spec b.fields.length fieldSlot? b.keptCode
    exact ⟨trivial, (kept_getD_ranks hsz hslots (hall _ hmem slot rfl hslots) default).1⟩
  | arith op lhs rhs =>
    obtain ⟨hl, hr⟩ := (liveRegisters_spec hb).2.2 hi hlive
    rw [renumbered_arith hb hi]
    exact ⟨⟨rank_lt _ hl (hb.reads hi).1, rank_lt _ hr (hb.reads hi).2⟩, trivial⟩

variable [Scalar α]

/-- **A live register keeps its value** under its new number. -/
theorem finish_value (hb : b.WellFormed) (point : PointData α) {i : Nat} (hi : i < b.code.size)
    (hlive : marked b.liveRegisters i = true) :
    b.finish.value point (rank b.liveRegisters i) = b.value point i := by
  induction i using Nat.strong_induction_on with
  | _ i ih =>
    have hget : b.code[i]? = some b.code[i] := Array.getElem?_eq_getElem hi
    have hmem : b.code[i] ∈ b.keptCode := mem_kept.mpr ⟨i, hlive, by rwa [Array.getElem?_toList]⟩
    have hslots := hb.slots hget
    have hreads := hb.reads hget
    rw [value_eq_stepValue hb point hget, Program.value, Program.registers_getD _ _ _
      (finish_getElem? hget hlive) (renumbered_spec hb hget hlive).1]
    cases hinstr : b.code[i] with
    | const c => rfl
    | loadBasis slot =>
      rw [hinstr] at hslots hmem
      obtain ⟨hsz, hall⟩ := usedSlots_spec b.loads.length basisSlot? b.keptCode
      exact congrArg point.basis (kept_getD_ranks hsz hslots (hall _ hmem slot rfl hslots) _).2
    | loadField slot component =>
      rw [hinstr] at hslots hmem
      obtain ⟨hsz, hall⟩ := usedSlots_spec b.fields.length fieldSlot? b.keptCode
      exact congrArg (point.field · component)
        (kept_getD_ranks hsz hslots (hall _ hmem slot rfl hslots) _).2
    | arith op lhs rhs =>
      rw [hinstr] at hreads hget
      obtain ⟨hl, hr⟩ := (liveRegisters_spec hb).2.2 hget hlive
      rw [renumbered_arith hb hget, stepValue_arith, ← ih lhs hreads.1 (hreads.1.trans hi) hl,
        ← ih rhs hreads.2 (hreads.2.trans hi) hr]
      rfl

/-- **Finishing changes no result:** the finished program adds to every slot what the instructions of
the builder, dead ones included, add to it. -/
theorem finish_evaluateAt (hb : b.WellFormed) (point : PointData α) (sums : Array α) :
    b.finish.evaluateAt point sums = b.draft.evaluateAt point sums := by
  have hvalue : ∀ o ∈ b.outputs,
      b.finish.value point ((ranks b.liveRegisters).getD o.2 0) = b.value point o.2 := by
    intro o ho
    obtain ⟨hsize, hout, -⟩ := liveRegisters_spec hb
    rw [ranks_getD _ (by rw [hsize]; exact hb.outputs o ho)]
    exact finish_value hb point (hb.outputs o ho) (hout o ho)
  rw [Program.evaluateAt_eq_addTerms, Program.evaluateAt_eq_addTerms]
  refine congrArg (Program.addTerms sums) ?_
  change (b.outputs.map fun (slot, register) =>
    (slot, (ranks b.liveRegisters).getD register 0)).map _ = b.outputs.map _
  rw [List.map_map]
  exact List.map_congr_left fun o ho => Prod.ext rfl (hvalue o ho)

/-! ## (5) Listed slots -/

omit [Scalar α] in
/-- **A finished program reads listed slots only.** -/
theorem finish_slotsListed (hb : b.WellFormed) : b.finish.SlotsListed := by
  intro instr hinstr
  rw [finish_code, List.mem_toArray, List.mem_map] at hinstr
  obtain ⟨old, hold, rfl⟩ := hinstr
  obtain ⟨i, hlive, hi⟩ := mem_kept.mp hold
  exact (renumbered_spec hb (by rwa [← Array.getElem?_toList]) hlive).2

end Galerkin.ProgramBuilder
