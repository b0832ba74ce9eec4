import Galerkin.Proofs.Exact
import Galerkin.Proofs.Tape.Calls
import Mathlib.Algebra.Order.Field.Rat
import Mathlib.Logic.Relation

/-! # Finished programs are well formed and minimal

Whatever calls built it, a finished program reads registers after they are written and slots that are
listed, and nothing of it can be left out: every instruction is used by an output, every slot is read, no
value is computed twice, and no operation is left on two constants. What its outputs add is what the calls
asked for.

* **`Program.Reads`**, **`Instr.Alike`** — what an instruction depends on, and instructions with the same
  value;
* **`Program.Reduced`** — the well-formed and minimal programs;
* **`Program.StandsFor`** — the expression that a register stands for, without registers and slots;
* **`ProgramBuilder.exists_path_of_live`**, **`ProgramBuilder.exists_reader`** — marks are set for what is
  used, and only for that;
* **`ProgramBuilder.renumbered_alike`** — instructions that are alike after finishing were alike before;
* **`ProgramBuilder.finish_reduced`** — every finished program is reduced, with the outputs in order. -/

namespace Galerkin

variable {α : Type}

/-! ## (1) Reduced programs -/

/-- **Instructions that have the same value:** they are the same, up to the order of operands that may be
exchanged. -/
def Instr.Alike (x y : Instr α) : Prop :=
  x = y ∨ ∃ op lhs rhs, op.commutes = true ∧ x = .arith op lhs rhs ∧ y = .arith op rhs lhs

namespace Program

/-- Instruction `i` reads register `j`. -/
def Reads (p : Program α) (i j : Nat) : Prop :=
  ∃ op lhs rhs, p.code[i]? = some (.arith op lhs rhs) ∧ (j = lhs ∨ j = rhs)

/-- **A well-formed and minimal program.** -/
structure Reduced (p : Program α) : Prop where
  /-- Operands come before the instruction that reads them. -/
  reads : ∀ (i : Nat) (instr : Instr α), p.code[i]? = some instr → instr.ReadsBelow i
  /-- Load instructions name listed slots. -/
  slots : p.SlotsListed
  /-- Outputs are registers that are added to slots of the program. -/
  outputs : ∀ o ∈ p.outputs, o.1 < p.slots ∧ o.2 < p.code.size
  /-- Every instruction is used by an output, directly or through others. -/
  used : ∀ i < p.code.size, ∃ o ∈ p.outputs, Relation.ReflTransGen p.Reads o.2 i
  /-- Loads are listed once. -/
  loads : p.loads.Nodup
  /-- Fields are listed once. -/
  fields : p.fields.Nodup
  /-- Listed loads are read. -/
  loads_read : ∀ slot < p.loads.length, Instr.loadBasis slot ∈ p.code
  /-- Listed fields are read. -/
  fields_read : ∀ slot < p.fields.length, ∃ component, Instr.loadField slot component ∈ p.code
  /-- No value is computed twice. -/
  distinct : ∀ (i j : Nat) (x y : Instr α), p.code[i]? = some x → p.code[j]? = some y → x.Alike y → i = j
  /-- No operation on two constants is left. -/
  folded : ∀ op lhs rhs, Instr.arith op lhs rhs ∈ p.code → ¬ BothConstant p.code lhs rhs

/-- **An expression** over basis derivatives and field components. -/
inductive Term (α : Type) where
  | const (c : Constant α)
  | basis (load : BasisLoad)
  | field (id component : Nat)
  | arith (op : ArithOp) (lhs rhs : Term α)
  deriving Repr, DecidableEq, Inhabited

/-- **The expression that a register stands for:** its instruction, with the listed loads and fields in
place of the slots, and expressions in place of the operands. -/
inductive StandsFor (p : Program α) : Nat → Term α → Prop where
  | const {i : Nat} {c : Constant α} (hi : p.code[i]? = some (.const c)) : StandsFor p i (.const c)
  | basis {i slot : Nat} {load : BasisLoad} (hi : p.code[i]? = some (.loadBasis slot))
      (hslot : p.loads[slot]? = some load) : StandsFor p i (.basis load)
  | field {i slot id component : Nat} (hi : p.code[i]? = some (.loadField slot component))
      (hslot : p.fields[slot]? = some id) : StandsFor p i (.field id component)
  | arith {i lhs rhs : Nat} {op : ArithOp} {s t : Term α} (hi : p.code[i]? = some (.arith op lhs rhs))
      (hs : StandsFor p lhs s) (ht : StandsFor p rhs t) : StandsFor p i (.arith op s t)

end Program

namespace ProgramBuilder

/-! ## (2) Marks are set for what is used -/

/-- Nothing is marked at the start. -/
theorem not_marked_replicate (n j : Nat) : ¬ marked (Array.replicate n false) j = true := by
  rw [marked, Array.getD_eq_getD_getElem?, Array.getElem?_replicate]
  split <;> simp

/-- What is marked after one more mark was marked before, or is the new mark. -/
theorem marked_or_eq {marks : Array Bool} {i j : Nat} (h : marked (marks.setIfInBounds i true) j = true) :
    marked marks j = true ∨ i = j := by
  rw [marked_setIfInBounds, Bool.or_eq_true, Bool.and_eq_true] at h
  exact h.imp id fun h => of_decide_eq_true h.1

/-- **A loop that sets marks** sets those that its elements ask for, and no others. -/
theorem exists_of_marked_foldl {β : Type} (mark? : β → Option Nat) (items : List β) :
    ∀ {marks : Array Bool} {j : Nat},
      marked (items.foldl (fun marks x =>
        match mark? x with
        | some i => marks.setIfInBounds i true
        | none => marks) marks) j = true →
      marked marks j = true ∨ ∃ x ∈ items, mark? x = some j := by
  induction items with
  | nil => exact fun h => .inl h
  | cons x items ih =>
    intro marks j h
    rw [List.foldl_cons] at h
    rcases ih h with h | ⟨y, hy, hmark⟩
    · split at h
      · rename_i i hi
        refine (marked_or_eq h).imp id ?_
        rintro rfl
        exact ⟨x, List.mem_cons_self .., hi⟩
      · exact .inl h
    · exact .inr ⟨y, List.mem_cons_of_mem _ hy, hmark⟩

/-- An instruction marks its operands only, and only if it is marked itself. -/
theorem operand_of_markOperands {live : Array Bool} {instr : Instr α} {k j : Nat}
    (h : marked (markOperands live (instr, k)) j = true) :
    marked live j = true ∨ marked live k = true ∧ ∃ op lhs rhs, instr = .arith op lhs rhs ∧
      (j = lhs ∨ j = rhs) := by
  cases instr with
  | arith op lhs rhs =>
    rw [markOperands] at h
    split at h
    · rename_i hk
      rcases marked_or_eq h with h | rfl
      · rcases marked_or_eq h with h | rfl
        · exact .inl h
        · exact .inr ⟨hk, op, _, rhs, rfl, .inl rfl⟩
      · exact .inr ⟨hk, op, lhs, _, rfl, .inr rfl⟩
    · exact .inl h
  | _ => exact .inl h

/-- **A sweep marks what is used only:** a property of the marked registers that passes from operations to
their operands holds of what it marks. -/
theorem of_marked_sweep (Used : Nat → Prop) (code : List (Instr α)) :
    ∀ {k : Nat} {live : Array Bool}, (∀ j, marked live j = true → Used j) →
      (∀ {i op lhs rhs}, code[i]? = some (.arith op lhs rhs) → Used (k + i) → Used lhs ∧ Used rhs) →
      ∀ j, marked ((code.zipIdx k).foldr (fun instr live => markOperands live instr) live) j = true →
        Used j := by
  induction code with
  | nil => exact fun hlive _ j h => hlive j h
  | cons instr code ih =>
    intro k live hlive hclosed j h
    have hlater := ih hlive (k := k + 1) fun {i op lhs rhs} hi hused =>
      hclosed (i := i + 1) (by rwa [List.getElem?_cons_succ]) (by rwa [Nat.add_right_comm] at hused)
    rw [List.zipIdx_cons, List.foldr_cons] at h
    rcases operand_of_markOperands h with h | ⟨hk, op, lhs, rhs, rfl, hj⟩
    · exact hlater j h
    · obtain ⟨hl, hr⟩ := hclosed (i := 0) rfl (hlater k hk)
      rcases hj with rfl | rfl
      · exact hl
      · exact hr

variable {b : ProgramBuilder α}

/-- **A live register is used by an output,** directly or through others. -/
theorem exists_path_of_live {j : Nat} (h : marked b.liveRegisters j = true) :
    ∃ o ∈ b.outputs, Relation.ReflTransGen b.draft.Reads o.2 j := by
  refine of_marked_sweep (fun j => ∃ o ∈ b.outputs, Relation.ReflTransGen b.draft.Reads o.2 j)
    b.code.toList (k := 0) ?_ ?_ j h
  · intro j hj
    rcases exists_of_marked_foldl (fun o : Nat × Nat => some o.2) b.outputs hj with hj | ⟨o, ho, heq⟩
    · exact absurd hj (not_marked_replicate _ j)
    · obtain rfl := Option.some.inj heq
      exact ⟨o, ho, .refl⟩
  · rintro i op lhs rhs hi ⟨o, ho, hpath⟩
    rw [Nat.zero_add] at hpath
    rw [Array.getElem?_toList] at hi
    exact ⟨⟨o, ho, hpath.tail ⟨op, lhs, rhs, hi, .inl rfl⟩⟩, ⟨o, ho, hpath.tail ⟨op, lhs, rhs, hi, .inr rfl⟩⟩⟩

/-- **Every slot that is kept has a reader.** -/
theorem exists_reader {β : Type} {values : List β} {slot? : Instr α → Option Nat} {code : List (Instr α)}
    {slot : Nat} (h : slot < (kept (usedSlots values.length slot? code) values).length) :
    ∃ instr ∈ code, ∃ old, slot? instr = some old ∧
      (ranks (usedSlots values.length slot? code)).getD old 0 = slot := by
  obtain ⟨old, hused, hold, hrank⟩ := exists_of_kept_getElem? (List.getElem?_eq_getElem h)
  rcases exists_of_marked_foldl slot? code hused with hstart | ⟨instr, hmem, hslot⟩
  · exact absurd hstart (not_marked_replicate _ old)
  · refine ⟨instr, hmem, old, hslot, ?_⟩
    rw [ranks_getD _ ?_, hrank]
    rw [(usedSlots_spec values.length slot? code).1]
    exact (List.getElem?_eq_some_iff.mp hold).1

/-! ## (3) Numbers are given once -/

/-- Different marked positions have different ranks. -/
theorem rank_inj {marks : Array Bool} {i j : Nat} (hi : marked marks i = true) (hj : marked marks j = true)
    (h : rank marks i = rank marks j) : i = j := by
  rcases Nat.lt_trichotomy i j with hlt | heq | hlt
  · exact absurd h (rank_lt marks hi hlt).ne
  · exact heq
  · exact absurd h (rank_lt marks hj hlt).ne'

/-- What is kept of a list is a part of it. -/
theorem kept_sublist {β : Type} (marks : Array Bool) (values : List β) :
    (kept marks values).Sublist values := by
  have h : (kept marks values).Sublist (values.zipIdx.map Prod.fst) := List.filter_sublist.map Prod.fst
  rwa [List.zipIdx_map_fst] at h

/-- Used slots that get the same number are the same. -/
theorem ranks_getD_inj {count : Nat} {slot? : Instr α → Option Nat} {code : List (Instr α)}
    {x y : Instr α} (hx : x ∈ code) (hy : y ∈ code) {s t : Nat} (hs : slot? x = some s)
    (ht : slot? y = some t) (hslt : s < count) (htlt : t < count)
    (h : (ranks (usedSlots count slot? code)).getD s 0 = (ranks (usedSlots count slot? code)).getD t 0) :
    s = t := by
  obtain ⟨hsize, hused⟩ := usedSlots_spec count slot? code
  rw [ranks_getD _ (hsize.symm ▸ hslt), ranks_getD _ (hsize.symm ▸ htlt)] at h
  exact rank_inj (hused x hx s hs hslt) (hused y hy t ht htlt) h

/-- A live instruction that is renumbered to an operation is one, and its operands are live. -/
theorem exists_arith_of_renumbered (hb : b.WellFormed) {i : Nat} {instr : Instr α}
    (hi : b.code[i]? = some instr) (hlive : marked b.liveRegisters i = true) {op : ArithOp} {lhs rhs : Nat}
    (h : b.renumbered instr = .arith op lhs rhs) :
    ∃ l r, instr = .arith op l r ∧ marked b.liveRegisters l = true ∧ marked b.liveRegisters r = true ∧
      rank b.liveRegisters l = lhs ∧ rank b.liveRegisters r = rhs := by
  cases instr with
  | arith op' l r =>
    obtain ⟨hl, hr⟩ := (liveRegisters_spec hb).2.2 hi hlive
    rw [renumbered_arith hb hi] at h
    obtain ⟨rfl, hlhs, hrhs⟩ := Instr.arith.inj h
    exact ⟨l, r, rfl, hl, hr, hlhs, hrhs⟩
  | _ => cases h

/-- **Live instructions stay different:** what is the same after renumbering was the same before. -/
theorem renumbered_inj (hb : b.WellFormed) {i j : Nat} {x y : Instr α} (hi : b.code[i]? = some x)
    (hilive : marked b.liveRegisters i = true) (hj : b.code[j]? = some y)
    (hjlive : marked b.liveRegisters j = true) (h : b.renumbered x = b.renumbered y) : x = y := by
  have hx : x ∈ b.keptCode := mem_kept.mpr ⟨i, hilive, by rwa [Array.getElem?_toList]⟩
  have hy : y ∈ b.keptCode := mem_kept.mpr ⟨j, hjlive, by rwa [Array.getElem?_toList]⟩
  have hxslots := hb.slots hi
  have hyslots := hb.slots hj
  cases x with
  | const c =>
    cases y with
    | const d => exact h
    | _ => cases h
  | loadBasis s =>
    cases y with
    | loadBasis t => rw [ranks_getD_inj hx hy rfl rfl hxslots hyslots (Instr.loadBasis.inj h)]
    | _ => cases h
  | loadField s c =>
    cases y with
    | loadField t d =>
      obtain ⟨hslot, rfl⟩ := Instr.loadField.inj h
      rw [ranks_getD_inj hx hy rfl rfl hxslots hyslots hslot]
    | _ => cases h
  | arith op l r =>
    obtain ⟨hl, hr⟩ := (liveRegisters_spec hb).2.2 hi hilive
    rw [renumbered_arith hb hi] at h
    obtain ⟨l', r', rfl, hl', hr', hlhs, hrhs⟩ := exists_arith_of_renumbered hb hj hjlive h.symm
    rw [rank_inj hl' hl hlhs, rank_inj hr' hr hrhs]

/-- **Live instructions that are alike after renumbering were alike before.** -/
theorem renumbered_alike (hb : b.WellFormed) {i j : Nat} {x y : Instr α} (hi : b.code[i]? = some x)
    (hilive : marked b.liveRegisters i = true) (hj : b.code[j]? = some y)
    (hjlive : marked b.liveRegisters j = true) (h : (b.renumbered x).Alike (b.renumbered y)) : x.Alike y := by
  rcases h with heq | ⟨op, lhs, rhs, hcommutes, hx, hy⟩
  · exact .inl (renumbered_inj hb hi hilive hj hjlive heq)
  · obtain ⟨l, r, rfl, hl, hr, rfl, rfl⟩ := exists_arith_of_renumbered hb hi hilive hx
    obtain ⟨r', l', rfl, hr', hl', hrank, hrank'⟩ := exists_arith_of_renumbered hb hj hjlive hy
    exact .inr ⟨op, l, r, hcommutes, rfl, by rw [rank_inj hr' hr hrank, rank_inj hl' hl hrank']⟩

/-- **A canonical builder computes no value twice.** -/
theorem Canonical.distinct (hb : b.Canonical) {i j : Nat} {x y : Instr α} (hi : b.code[i]? = some x)
    (hj : b.code[j]? = some y) (h : x.Alike y) : i = j := by
  have heq : x = y := by
    rcases h with heq | ⟨op, lhs, rhs, hcommutes, rfl, rfl⟩
    · exact heq
    · -- Both orders of the operands are increasing, so the operands are the same.
      have hle := hb.sorted op lhs rhs (Array.mem_of_getElem? hi) hcommutes
      have hge := hb.sorted op rhs lhs (Array.mem_of_getElem? hj) hcommutes
      rw [Nat.le_antisymm hle hge]
  subst heq
  have hlt := (Array.getElem?_eq_some_iff.mp hi).1
  apply (List.getElem?_inj hlt hb.code).mp
  rw [Array.getElem?_toList, Array.getElem?_toList, hi, hj]

/-! ## (4) Finished programs -/

/-- A canonical builder reads registers after they are written, and listed slots. -/
theorem Canonical.readsOnly (hb : b.Canonical) : b.draft.ReadsOnly (fun _ => True) fun _ _ => True := by
  refine ⟨fun i instr hi => hb.wellFormed.reads hi, fun instr hmem => ?_,
    fun o ho => ⟨hb.slots o ho, hb.wellFormed.outputs o ho⟩, fun _ _ => trivial, fun _ _ _ _ _ => trivial,
    fun _ _ => ⟨0, trivial⟩⟩
  obtain ⟨i, hi⟩ := Array.getElem?_of_mem hmem
  exact hb.wellFormed.slots hi

/-- The outputs of a finished program, by rank. -/
theorem finish_outputs (hb : b.WellFormed) :
    b.finish.outputs = b.outputs.map fun o => (o.1, rank b.liveRegisters o.2) := by
  refine List.map_congr_left fun o ho => ?_
  show (o.1, (ranks b.liveRegisters).getD o.2 0) = _
  rw [ranks_getD]
  rw [(liveRegisters_spec hb).1]
  exact hb.outputs o ho

/-- **What a live register depends on is live,** and depends on it in the finished program too. -/
theorem finish_path (hb : b.WellFormed) {i j : Nat} (hi : marked b.liveRegisters i = true)
    (hpath : Relation.ReflTransGen b.draft.Reads i j) : marked b.liveRegisters j = true ∧
      Relation.ReflTransGen b.finish.Reads (rank b.liveRegisters i) (rank b.liveRegisters j) := by
  induction hpath with
  | refl => exact ⟨hi, .refl⟩
  | tail _ hread ih =>
    obtain ⟨hlive, hpath⟩ := ih
    obtain ⟨op, lhs, rhs, hinstr, hj⟩ := hread
    obtain ⟨hl, hr⟩ := (liveRegisters_spec hb).2.2 hinstr hlive
    have hget := finish_getElem? hinstr hlive
    rw [renumbered_arith hb hinstr] at hget
    rcases hj with rfl | rfl
    · exact ⟨hl, hpath.tail ⟨op, _, _, hget, .inl rfl⟩⟩
    · exact ⟨hr, hpath.tail ⟨op, _, _, hget, .inr rfl⟩⟩

/-- A live register that becomes a constant is one. -/
theorem const_of_finish {i : Nat} (hi : i < b.code.size) (hlive : marked b.liveRegisters i = true)
    {c : Constant α} (h : b.finish.code[rank b.liveRegisters i]? = some (.const c)) :
    b.code[i]? = some (.const c) := by
  have hget := Array.getElem?_eq_getElem hi
  rw [finish_getElem? hget hlive] at h
  rw [hget]
  cases hinstr : b.code[i] with
  | const d =>
    rw [hinstr] at h
    exact h
  | _ =>
    rw [hinstr] at h
    cases h

/-- **A canonical builder finishes with a reduced program.** -/
theorem Canonical.reduced (hb : b.Canonical) : b.finish.Reduced := by
  have hwf := hb.wellFormed
  have hreads := finish_readsOnly hb.readsOnly
  refine ⟨hreads.reads, hreads.slots, hreads.outputs, fun i hi => ?used, hb.loads.sublist (kept_sublist _ _),
    hb.fields.sublist (kept_sublist _ _), fun slot hslot => ?loads, fun slot hslot => ?fields,
    fun i j x y hi hj h => ?distinct, fun op lhs rhs hmem hconst => ?folded⟩
  case used =>
    obtain ⟨k, old, -, hlive, rfl, -⟩ := exists_of_finish_getElem? (Array.getElem?_eq_getElem hi)
    obtain ⟨o, ho, hpath⟩ := exists_path_of_live hlive
    have holive := (liveRegisters_spec hwf).2.1 o ho
    refine ⟨(o.1, rank b.liveRegisters o.2), ?_, (finish_path hwf holive hpath).2⟩
    rw [finish_outputs hwf]
    exact List.mem_map_of_mem ho
  case loads =>
    obtain ⟨instr, hmem, old, hold, hnew⟩ := exists_reader hslot
    rw [finish_code, List.mem_toArray, List.mem_map]
    refine ⟨instr, hmem, ?_⟩
    cases instr with
    | loadBasis s =>
      obtain rfl := Option.some.inj hold
      exact congrArg Instr.loadBasis hnew
    | _ => cases hold
  case fields =>
    obtain ⟨instr, hmem, old, hold, hnew⟩ := exists_reader hslot
    cases instr with
    | loadField s component =>
      obtain rfl := Option.some.inj hold
      refine ⟨component, ?_⟩
      rw [finish_code, List.mem_toArray, List.mem_map]
      exact ⟨_, hmem, congrArg (Instr.loadField · component) hnew⟩
    | _ => cases hold
  case distinct =>
    obtain ⟨k, x, hk, hklive, rfl, rfl⟩ := exists_of_finish_getElem? hi
    obtain ⟨l, y, hl, hllive, rfl, rfl⟩ := exists_of_finish_getElem? hj
    rw [hb.distinct hk hl (renumbered_alike hwf hk hklive hl hllive h)]
  case folded =>
    obtain ⟨i, hi⟩ := Array.getElem?_of_mem hmem
    obtain ⟨k, old, hk, hlive, -, hold⟩ := exists_of_finish_getElem? hi
    obtain ⟨l, r, rfl, hl, hr, rfl, rfl⟩ := exists_arith_of_renumbered hwf hk hlive hold
    have hlt := (Array.getElem?_eq_some_iff.mp hk).1
    obtain ⟨hlk, hrk⟩ := hwf.reads hk
    obtain ⟨⟨c, hc⟩, d, hd⟩ := hconst
    exact hb.folded op l r (Array.mem_of_getElem? hk)
      ⟨⟨c, const_of_finish (hlk.trans hlt) hl hc⟩, d, const_of_finish (hrk.trans hlt) hr hd⟩

/-! ## (5) What registers stand for -/

/-- Every register stands for an expression. -/
theorem exists_standsFor (hb : b.WellFormed) {i : Nat} (hi : i < b.code.size) :
    ∃ t, b.draft.StandsFor i t := by
  induction i using Nat.strong_induction_on with
  | _ i ih =>
    have hget : b.code[i]? = some b.code[i] := Array.getElem?_eq_getElem hi
    have hslots := hb.slots hget
    have hreads := hb.reads hget
    cases hinstr : b.code[i] with
    | const c => exact ⟨.const c, .const (by rw [draft, hget, hinstr])⟩
    | loadBasis slot =>
      rw [hinstr] at hslots hget
      exact ⟨_, .basis hget (List.getElem?_eq_getElem hslots)⟩
    | loadField slot component =>
      rw [hinstr] at hslots hget
      exact ⟨_, .field hget (List.getElem?_eq_getElem hslots)⟩
    | arith op lhs rhs =>
      rw [hinstr] at hreads hget
      obtain ⟨s, hs⟩ := ih lhs hreads.1 (hreads.1.trans hi)
      obtain ⟨t, ht⟩ := ih rhs hreads.2 (hreads.2.trans hi)
      exact ⟨_, .arith hget hs ht⟩

/-- The entry of a used slot has the new number of the slot. -/
theorem kept_getElem?_ranks {β : Type} {values : List β} {slot? : Instr α → Option Nat}
    {code : List (Instr α)} {instr : Instr α} (hmem : instr ∈ code) {slot : Nat}
    (hslot : slot? instr = some slot) {v : β} (hv : values[slot]? = some v) :
    (kept (usedSlots values.length slot? code) values)[
      (ranks (usedSlots values.length slot? code)).getD slot 0]? = some v := by
  have hlt := (List.getElem?_eq_some_iff.mp hv).1
  obtain ⟨hsize, hused⟩ := usedSlots_spec values.length slot? code
  rw [ranks_getD _ (hsize.symm ▸ hlt)]
  exact kept_getElem? (hused instr hmem slot hslot hlt) hv

/-- **A live register stands for the same expression in the finished program.** -/
theorem finish_standsFor (hb : b.WellFormed) {i : Nat} {t : Program.Term α} (h : b.draft.StandsFor i t)
    (hlive : marked b.liveRegisters i = true) : b.finish.StandsFor (rank b.liveRegisters i) t := by
  have hmem : ∀ {i instr}, b.code[i]? = some instr → marked b.liveRegisters i = true → instr ∈ b.keptCode :=
    fun hi hlive => mem_kept.mpr ⟨_, hlive, by rwa [Array.getElem?_toList]⟩
  induction h with
  | const hi => exact .const (finish_getElem? hi hlive)
  | basis hi hslot =>
    exact .basis (finish_getElem? hi hlive) (kept_getElem?_ranks (hmem hi hlive) rfl hslot)
  | field hi hslot =>
    exact .field (finish_getElem? hi hlive) (kept_getElem?_ranks (hmem hi hlive) rfl hslot)
  | arith hi _ _ ihs iht =>
    obtain ⟨hl, hr⟩ := (liveRegisters_spec hb).2.2 hi hlive
    have hget := finish_getElem? hi hlive
    rw [renumbered_arith hb hi] at hget
    exact .arith hget (ihs hl) (iht hr)

variable [Scalar α] [DecidableEq α]

/-- **Finished programs are well formed and minimal, whatever calls built them.** Their outputs are those
that the calls asked for, in order, and stand for the same expressions. -/
theorem finish_reduced {slots : Int} {start : ProgramBuilder α} (h : make slots = .ok start)
    (calls : List (TapeCall α)) :
    (start.afterCalls calls).finish.Reduced ∧ (start.afterCalls calls).finish.slots = slots ∧
      List.Forall₂ (fun call out => out.1 = call.1 ∧
          ∃ t, (start.afterCalls calls).draft.StandsFor call.2 t ∧
            (start.afterCalls calls).finish.StandsFor out.2 t)
        (start.accumulated calls) (start.afterCalls calls).finish.outputs := by
  obtain ⟨hslots, h⟩ := require_bind_eq_ok_iff.mp h
  obtain rfl := Except.ok.inj h
  have hb := (canonical_empty (α := α) slots.toNat).afterCalls calls
  obtain ⟨hkeep, houtputs⟩ := afterCalls_outputs ({ slots := slots.toNat } : ProgramBuilder α) calls
  refine ⟨hb.reduced, ?_, ?_⟩
  · show ((afterCalls _ calls).slots : Int) = slots
    rw [hkeep]
    exact Int.toNat_of_nonneg (Int.one_nonneg.trans (of_decide_eq_true hslots))
  · rw [List.nil_append] at houtputs
    rw [finish_outputs hb.wellFormed, houtputs, List.forall₂_map_right_iff, List.forall₂_same]
    intro o ho
    rw [← houtputs] at ho
    obtain ⟨t, ht⟩ := exists_standsFor hb.wellFormed (hb.wellFormed.outputs o ho)
    exact ⟨rfl, t, ht, finish_standsFor hb.wellFormed ht ((liveRegisters_spec hb.wellFormed).2.1 o ho)⟩

/-- Calls with constants to fold, operations that are there in another order, loads that no output needs,
and requests that are refused. -/
def mixedCalls : List (TapeCall ℚ) :=
  [.constant ⟨2, false⟩, .constant ⟨3, false⟩, .arith .mul 0 1, .loadBasis ⟨.test, [0]⟩,
    .loadField 4 1, .loadBasis ⟨.trial, [1]⟩, .arith .mul 5 2, .arith .mul 2 5, .arith .sub 6 2,
    .arith .sub 2 6, .loadField (-1) 0, .arith .add 9 7, .accumulate 1 6, .accumulate 2 6,
    .arith .add 7 5, .accumulate 0 8, .accumulate 1 20]

/-- Of ten instructions, the outputs of these calls need four: a constant, a load and two operations. -/
theorem finish_reduced_mixedCalls :
    let b : ProgramBuilder ℚ := { slots := 2 }
    make 2 = .ok b ∧ (b.afterCalls mixedCalls).code.size = 10 ∧
      (b.afterCalls mixedCalls).finish.code.size = 4 ∧
      (b.afterCalls mixedCalls).finish.Reduced ∧ (b.afterCalls mixedCalls).finish.slots = (2 : Int) ∧
      List.Forall₂ (fun call out => out.1 = call.1 ∧
          ∃ t, (b.afterCalls mixedCalls).draft.StandsFor call.2 t ∧
            (b.afterCalls mixedCalls).finish.StandsFor out.2 t)
        (b.accumulated mixedCalls) (b.afterCalls mixedCalls).finish.outputs :=
  ⟨rfl, by decide +kernel, by decide +kernel, finish_reduced rfl mixedCalls⟩

end ProgramBuilder

end Galerkin
