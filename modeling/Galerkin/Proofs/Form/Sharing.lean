import Galerkin.Proofs.Form.Meaning
import Galerkin.Proofs.Form.LoweringRuns

/-! # Shared local fields

While a form is lowered, the registers of local fields are kept from one expression to the next. So a definition is
lowered when its field is met for the first time, wherever that is, and never again: from then on every reference
has the registers that were found then. Definitions refer to earlier fields only, and therefore the recursion from
fields to fields ends.

* **`LoweringSession`** — expressions that are lowered one after the other, and outputs between them;
* **`LoweringState.Settled`** — what holds between them;
* **`Form.SizesMatch.exists_run`** — the recursion ends, and no bound on its depth is met;
* **`Form.Keeps`** — a field whose registers stay what they are;
* **`FormBuilder.Reachable.lowering_shares`** — definitions are lowered once, and their registers are shared. -/

namespace Galerkin

variable {α : Type}

/-! ## (1) Sessions -/

/-- A lowering of a form before anything is lowered. -/
def LoweringState.start (form : Form α) : LoweringState α := { builder := { slots := form.outputSlots } }

/-- A register that is added to a slot is one of the builder, and what is kept for local fields stays. -/
theorem emitOutput_eq_ok {s t : LoweringState α} {slot : Int} {r : Nat}
    (h : (emitOutput slot r).run s = .ok ((), t)) : r < s.builder.code.size ∧ t.locals = s.locals := by
  obtain ⟨_, _, hstate, h⟩ := run_bind_eq_ok_iff.mp h
  obtain ⟨rfl, rfl⟩ := Prod.mk.inj (Except.ok.inj hstate)
  obtain ⟨b, _, hstep, h⟩ := run_bind_eq_ok_iff.mp h
  obtain ⟨hadded, rfl⟩ := run_liftM_eq_ok_iff.mp hstep
  obtain ⟨-, rfl⟩ := Prod.mk.inj (Except.ok.inj h)
  obtain ⟨⟨⟩, -, hchecked⟩ := bind_eq_ok_iff.mp hadded
  obtain ⟨⟨⟩, hregister, -⟩ := bind_eq_ok_iff.mp hchecked
  exact ⟨Int.ofNat_lt.mp (checkIndex_eq_ok_iff.mp hregister).2, rfl⟩

variable [Scalar α] [DecidableEq α]

/-- **Some work of one lowering:** parts of the expressions of a form are lowered one after the other, and
registers are added to slots between. The references to local fields that are met are noted. -/
inductive LoweringSession (form : Form α) : LoweringState α → (log : List LocalReference) → LoweringState α → Prop
  /-- Nothing is done yet. -/
  | refl (s : LoweringState α) : LoweringSession form s [] s
  /-- A part of an expression is lowered. -/
  | lower {s t u : LoweringState α} {log log' : List LocalReference} {registers : List Nat} {e x : Expr α}
      (h : LoweringSession form s log t) (he : form.Evaluates e) (hx : x ∈ e.nodes)
      (hrun : LoweringRun form .kernel [x] t log' [registers] u) : LoweringSession form s (log ++ log') u
  /-- A register is added to a slot. -/
  | output {s t u : LoweringState α} {log : List LocalReference} {slot : Int} {r : Nat}
      (h : LoweringSession form s log t) (houtput : (emitOutput slot r).run t = .ok ((), u)) :
      LoweringSession form s log u

variable {form : Form α} {s t u : LoweringState α} {log log' : List LocalReference} {registers : List Nat}

namespace LoweringSession

/-- Some work and some more. -/
theorem trans (h : LoweringSession form s log t) (h' : LoweringSession form t log' u) :
    LoweringSession form s (log ++ log') u := by
  induction h' with
  | refl =>
    rw [List.append_nil]
    exact h
  | lower _ he hx hrun ih =>
    rw [← List.append_assoc]
    exact .lower ih he hx hrun
  | output _ houtput ih => exact .output ih houtput

/-- **What is kept after some work** is what was kept before and the fields whose definitions were lowered. -/
theorem locals (h : LoweringSession form s log t) : t.locals = (loweredLocals log).reverse ++ s.locals := by
  induction h with
  | refl => rfl
  | lower _ _ _ hrun ih =>
    rw [hrun.locals, ih, loweredLocals_append, List.reverse_append, List.append_assoc]
  | output _ houtput ih => rw [(emitOutput_eq_ok houtput).2, ih]

/-- **A reference to a local field of the form** has the registers that are kept for the field in the end. -/
theorem reference (h : LoweringSession form s log t) :
    ∀ r ∈ log, (r.id, r.registers) ∈ t.locals ∧ ∃ f ∈ form.fields, f.isArray = false ∧ f.id = r.id := by
  induction h with
  | refl => exact fun _ h => nomatch h
  | lower _ _ _ hrun ih =>
    intro r hr
    rcases List.mem_append.mp hr with hr | hr
    · obtain ⟨hkept, hfield⟩ := ih r hr
      refine ⟨?_, hfield⟩
      rw [hrun.locals]
      exact List.mem_append_right _ hkept
    · exact hrun.reference r hr
  | output _ houtput ih =>
    rw [(emitOutput_eq_ok houtput).2]
    exact ih

end LoweringSession

/-- **What holds between the expressions that are lowered:** the lowering is regular, and it keeps the registers of
no local field twice. -/
structure LoweringState.Settled (s : LoweringState α) (form : Form α) : Prop where
  building : s.Building form form.AdmitsLoad (form.HasComponent form.fields.length) form.outputSlots
  nodup : (s.locals.map Prod.fst).Nodup

omit [Scalar α] [DecidableEq α] in
/-- A lowering starts settled. -/
theorem LoweringState.settled_start (form : Form α) : (LoweringState.start form).Settled form :=
  ⟨building_start form form.outputSlots _ _, List.nodup_nil⟩

/-! ## (2) The recursion ends -/

namespace Form

omit [Scalar α] [DecidableEq α] in
/-- **Parts of expressions that are evaluated** may be lowered, and are sized where references are. -/
theorem SizesMatch.part (hform : form.Valid) (horders : form.BoundsOrders) (hsizes : form.SizesMatch) {e x : Expr α}
    (he : form.Evaluates e) (hx : x ∈ e.nodes) :
    ∃ bound, form.Admits .kernel bound form.AdmitsLoad x ∧ form.Sizes x := by
  have hwhole : ∃ bound, form.Admits .kernel bound form.AdmitsLoad e ∧ form.Sizes e := by
    rcases he with ⟨a, ha, he⟩ | ⟨f, hf, he⟩
    · obtain ⟨y, hy, hbuilt, -⟩ := hform.sums a ha
      obtain rfl := Option.some.inj (hy.symm.trans he)
      exact ⟨_, hform.admits_sum horders a ha _ he, hsizes.sizes hbuilt.wellShaped (hsizes.sums a ha _ he)⟩
    · obtain ⟨y, hy, hbuilt, -⟩ := hform.locals f hf _ he
      obtain rfl := Option.some.inj hy
      exact ⟨_, hform.admits_local horders rfl f hf _ he,
        hsizes.sizes hbuilt.wellShaped (hsizes.definitions f hf _ (by rw [he]; rfl))⟩
  obtain ⟨bound, hadmits, hsized⟩ := hwhole
  obtain ⟨hsub, hshaped⟩ := Expr.nodes_subset hx
  exact ⟨bound, hadmits.of_mem_nodes hx, hshaped hsized.wellShaped, fun name shape symmetric hnode =>
    hsized.fields name shape symmetric (hsub _ hnode)⟩

/-- **The recursion ends.** A part of an expression has a run from every regular state, with as many registers as
its shape says, all of them in the builder. Any bound on the depth of the recursion that is larger than the number
of fields gives this run. -/
theorem SizesMatch.exists_run (hform : form.Valid) (horders : form.BoundsOrders) (hsizes : form.SizesMatch)
    {e x : Expr α} (he : form.Evaluates e) (hx : x ∈ e.nodes)
    (hs : s.Regular form form.AdmitsLoad (form.HasComponent form.fields.length)) :
    ∃ log registers t, LoweringRun form .kernel [x] s log [registers] t ∧
      Emitted form form.AdmitsLoad (form.HasComponent form.fields.length) s registers t ∧
      registers.length = x.shape.size ∧ ∀ depth, form.fields.length < depth →
        (lower form .kernel (fieldRegisters form .kernel depth) x).run s = .ok (registers, t) := by
  obtain ⟨bound, hadmits, hsized⟩ := hsizes.part hform horders he hx
  -- With a bound that is large enough the lowering succeeds, and what it does is a run.
  have hlower : ∀ depth, form.fields.length < depth → ∃ log registers t,
      LoweringRun form .kernel [x] s log [registers] t ∧
        Emitted form form.AdmitsLoad (form.HasComponent form.fields.length) s registers t ∧
        registers.length = x.shape.size ∧
        (lower form .kernel (fieldRegisters form .kernel depth) x).run s = .ok (registers, t) := by
    intro depth hdepth
    have hregular := lower_regular bound (fun f hf hbelow => fieldRegisters_regular hform
      (fun g hg _ => hasComponent g hg (hform.id_lt hg)) (hform.admits_local horders) depth f hf hbelow
      ((hform.id_lt hf).trans hdepth)) x hadmits s hs
    obtain ⟨⟨registers, t⟩, hrun⟩ := hregular.1 hsized
    obtain ⟨hemitted, hlength⟩ := hregular.2 registers t hrun
    obtain ⟨log, hexists⟩ := exists_run_of_lower (runsOf_fieldRegisters form .kernel depth) x s t registers hrun
    exact ⟨log, registers, t, hexists, hemitted, hlength hsized, hrun⟩
  obtain ⟨log, registers, t, hrun, hemitted, hlength, -⟩ := hlower _ (Nat.lt_succ_self _)
  refine ⟨log, registers, t, hrun, hemitted, hlength, fun depth hdepth => ?_⟩
  obtain ⟨_, _, _, hother, -, -, hresult⟩ := hlower depth hdepth
  -- There is one run only.
  obtain ⟨-, hregisters, rfl⟩ := hrun.unique hother
  obtain ⟨rfl, -⟩ := List.cons.inj hregisters
  exact hresult

/-- **Work leaves a lowering settled.** -/
theorem SizesMatch.settled (hform : form.Valid) (horders : form.BoundsOrders) (hsizes : form.SizesMatch)
    (h : LoweringSession form s log t) (hs : s.Settled form) : t.Settled form := by
  induction h with
  | refl => exact hs
  | lower _ he hx hrun ih =>
    -- The run of the part is the one that exists, since there is only one.
    obtain ⟨_, _, _, hother, hemitted, -⟩ := hsizes.exists_run hform horders he hx ih.building.regular
    obtain ⟨-, -, rfl⟩ := hother.unique hrun
    exact ⟨⟨hemitted.regular, hemitted.grows.slots.trans ih.building.slots⟩, hrun.nodup hform ih.nodup⟩
  | output _ houtput ih =>
    obtain ⟨hregister, hlocals⟩ := emitOutput_eq_ok houtput
    exact ⟨((emitOutput_regular ih.building hregister False.elim).2 _ _ houtput).1, hlocals ▸ ih.nodup⟩

end Form

/-! ## (3) Kept registers -/

/-- **A local field keeps its registers** from a state on: whatever is lowered after that, its definition is not
lowered again, every reference to it has these registers, be it in an expression or in a definition, and they are
registers of the builder. A reference that comes next does nothing else. -/
def Form.Keeps (form : Form α) (f : FieldVariable α) (registers : List Nat) (s : LoweringState α) : Prop :=
  ∀ log t, LoweringSession form s log t →
    (∀ r ∈ log, r.id = f.id → r.isFirst = false ∧ r.registers = registers) ∧
      (∀ r ∈ registers, r < t.builder.code.size) ∧
      ∀ depth, (fieldRegisters form .kernel (depth + 1) f.name).run t = .ok (registers, t)

/-- A reference to a local field whose registers are kept has them. -/
theorem fieldRegisters_kept (hform : form.Valid) {f : FieldVariable α} (hf : f ∈ form.fields)
    (hlocal : f.isArray = false) (h : s.locals.find? (·.1 == f.id) = some (f.id, registers)) (depth : Nat) :
    (fieldRegisters form .kernel (depth + 1) f.name).run s = .ok (registers, s) := by
  rw [fieldRegisters_local (hform.field_eq_ok hf) hlocal]
  refine run_bind_eq_ok_iff.mpr ⟨s, s, rfl, ?_⟩
  rw [h]
  rfl

/-- **Registers that are kept once are kept from then on.** -/
theorem Form.SizesMatch.keeps (hform : form.Valid) (horders : form.BoundsOrders) (hsizes : form.SizesMatch)
    (hs : s.Settled form) {f : FieldVariable α} (hf : f ∈ form.fields) (hlocal : f.isArray = false)
    (h : (f.id, registers) ∈ s.locals) : form.Keeps f registers s := by
  intro log t hsession
  have ht := hsizes.settled hform horders hsession hs
  have hkept : (f.id, registers) ∈ t.locals := by
    rw [hsession.locals]
    exact List.mem_append_right _ h
  refine ⟨fun r hr hid => ⟨?notFirst, ?same⟩, ht.building.regular.registers _ hkept,
    fieldRegisters_kept hform hf hlocal (find?_of_nodup ht.nodup hkept)⟩
  case same =>
    have hentry := List.inj_on_of_nodup_map ht.nodup (hsession.reference r hr).1 hkept hid
    exact (Prod.mk.inj hentry).2
  case notFirst =>
    -- Otherwise the field would be kept twice.
    by_contra hfirst
    obtain ⟨id, _, isFirst⟩ := r
    obtain rfl : isFirst = true := Bool.eq_true_of_not_eq_false hfirst
    have hnodup := ht.nodup
    rw [hsession.locals, List.map_append] at hnodup
    refine List.disjoint_of_nodup_append hnodup ?_ (List.mem_map_of_mem h)
    exact List.mem_map.mpr ⟨_, List.mem_reverse.mpr (mem_loweredLocals.mpr hr), hid⟩

/-- **A reference to a local field is the last one that its run notes,** with the registers of the run. -/
theorem LoweringRun.exists_reference (hform : form.Valid) {e : Expr α} {f : FieldVariable α} (hf : f ∈ form.fields)
    (hlocal : f.isArray = false) (he : e.reference? = some f.name)
    (h : LoweringRun form .kernel [e] s log [registers] t) :
    ∃ r, log.getLast? = some r ∧ r.id = f.id ∧ r.registers = registers := by
  cases h with
  | operation he' => cases he.symm.trans he'
  | array he' hf' harray =>
    obtain rfl := field_unique he (hform.field_eq_ok hf) he' hf'
    cases hlocal.symm.trans harray
  | again he' hf' _ _ _ hnil =>
    obtain rfl := field_unique he (hform.field_eq_ok hf) he' hf'
    cases hnil
    exact ⟨_, rfl, rfl, rfl⟩
  | first he' hf' _ _ _ _ _ hnil =>
    obtain rfl := field_unique he (hform.field_eq_ok hf) he' hf'
    cases hnil
    exact ⟨_, List.getLast?_concat, rfl, rfl⟩

/-! ## (4) Programs -/

/-- **Lowering an accumulation** is a session: its expression is lowered, and a register is added to its slot. -/
theorem session_of_lowerAccumulation (hform : form.Valid) {a : Accumulation α} (ha : a ∈ form.accumulations)
    (h : (lowerAccumulation form a).run s = .ok ((), t)) : ∃ log, LoweringSession form s log t := by
  obtain ⟨e, he, -⟩ := hform.sums a ha
  rw [lowerAccumulation, he] at h
  obtain ⟨registers, u, hlower, h⟩ := run_bind_eq_ok_iff.mp h
  obtain ⟨r, v, hregister, h⟩ := run_bind_eq_ok_iff.mp h
  obtain ⟨-, rfl⟩ := run_liftM_eq_ok_iff.mp hregister
  obtain ⟨log, hrun⟩ := exists_run_of_lower (runsOf_fieldRegisters form .kernel _) e s u registers hlower
  exact ⟨[] ++ log, .output (.lower (.refl s) (.inl ⟨a, ha, he⟩) (Expr.mem_nodes_self e) hrun) h⟩

/-- **The program of a form is made in one session.** -/
theorem session_of_lowerForm (hform : form.Valid) {p : Program α} (h : lowerForm form = .ok p) :
    ∃ log s, LoweringSession form (LoweringState.start form) log s ∧ s.builder.finish = p := by
  -- The loop over the accumulations keeps being in a session.
  have hloop : Achieves False (form.accumulations.forM (lowerAccumulation form)) (LoweringState.start form)
      fun _ t => ∃ log, LoweringSession form (LoweringState.start form) log t := by
    apply Achieves.forM_invariant ⟨[], .refl _⟩
    rintro a ha t ⟨log, hsession⟩
    refine ⟨False.elim, fun _ u hrun => ?_⟩
    obtain ⟨log', hmore⟩ := session_of_lowerAccumulation hform ha hrun
    exact ⟨log ++ log', hsession.trans hmore⟩
  -- The program is what the builder has collected in the end.
  obtain ⟨-, s, hs, rfl⟩ := programOf_eq_ok_iff.mp h
  obtain ⟨log, hsession⟩ := hloop.2 _ _ hs
  exact ⟨log, s, hsession, rfl⟩

namespace FormBuilder

/-- **Local fields are lowered once and shared.** Take the form that a builder returns after any calls, with
references that carry the numbers of components of their fields, as those do that carry the shapes that were
registered. Its program is made in one session, and whatever a session has done: no definition was lowered twice,
and every reference to a local field that was met, in an expression or inside another definition, has the
registers that were found when the definition of the field was lowered. The field keeps them, and all of them are
in the builder. Every part of an expression, that of an accumulation or of a local field, has exactly one run
next. The recursion between expressions and fields ends there with as many registers as the shape says, all in
the builder, and any bound on its depth above the number of fields gives just this run. If the part refers to a
local field, the run notes the field with these registers. -/
theorem Reachable.lowering_shares {b : FormBuilder α} (hb : b.Reachable) (h : b.finalize = .ok form)
    (hsizes : form.SizesMatch) :
    (∃ log s, LoweringSession form (LoweringState.start form) log s ∧ lowerForm form = .ok s.builder.finish) ∧
    ∀ log s, LoweringSession form (LoweringState.start form) log s →
      ((loweredLocals log).map Prod.fst).Nodup ∧
      (∀ r ∈ log, (r.id, r.registers) ∈ loweredLocals log ∧ (∀ k ∈ r.registers, k < s.builder.code.size) ∧
        ∃ f ∈ form.fields, f.isArray = false ∧ f.id = r.id ∧ form.Keeps f r.registers s) ∧
      ∀ e, form.Evaluates e → ∀ x ∈ e.nodes, ∃ log' registers t,
        LoweringRun form .kernel [x] s log' [registers] t ∧
        (∀ other all u, LoweringRun form .kernel [x] s other all u →
          other = log' ∧ all = [registers] ∧ u = t) ∧
        (∀ depth, form.fields.length < depth →
          (lower form .kernel (fieldRegisters form .kernel depth) x).run s = .ok (registers, t)) ∧
        registers.length = x.shape.size ∧ (∀ k ∈ registers, k < t.builder.code.size) ∧
        ∀ f ∈ form.fields, f.isArray = false → x.reference? = some f.name →
          ∃ r, log'.getLast? = some r ∧ r.id = f.id ∧ r.registers = registers := by
  have hform := hb.valid.form h
  have horders := boundsOrders_of_finalize h
  have hne : form.accumulations ≠ [] := by
    obtain ⟨hne, rfl⟩ := finalize_eq_ok h
    exact hne
  constructor
  · obtain ⟨p, hp⟩ := (lowerForm_reads hform horders).2 hne hsizes
    obtain ⟨log, s, hsession, rfl⟩ := session_of_lowerForm hform hp
    exact ⟨log, s, hsession, hp⟩
  intro log s hsession
  have hs : s.Settled form := hsizes.settled hform horders hsession (LoweringState.settled_start form)
  -- Nothing is kept at the start, so what is kept is what was lowered.
  have hkept : s.locals = (loweredLocals log).reverse := hsession.locals.trans (List.append_nil _)
  refine ⟨?once, fun r hr => ?shared, fun e he x hx => ?part⟩
  case once =>
    rw [← List.nodup_reverse, ← List.map_reverse, ← hkept]
    exact hs.nodup
  case shared =>
    obtain ⟨hmem, f, hf, hlocal, hid⟩ := hsession.reference r hr
    refine ⟨?_, hs.building.regular.registers _ hmem, f, hf, hlocal, hid, ?_⟩
    · rw [← List.mem_reverse, ← hkept]
      exact hmem
    · exact hsizes.keeps hform horders hs hf hlocal (hid ▸ hmem)
  case part =>
    obtain ⟨log', registers, t, hrun, hemitted, hlength, hdepth⟩ :=
      hsizes.exists_run hform horders he hx hs.building.regular
    refine ⟨log', registers, t, hrun, fun other all u hother => ?_, hdepth, hlength, hemitted.registers,
      fun f hf hlocal hreference => hrun.exists_reference hform hf hlocal hreference⟩
    obtain ⟨rfl, rfl, rfl⟩ := hrun.unique hother
    exact ⟨rfl, rfl, rfl⟩

/-- A form over the rational numbers with a local field whose definition refers to another one. The inner one is
met inside the definition of the outer one first, and then in an accumulation. -/
def nestedForm : Form ℚ where
  name := "nested"
  dim := 1
  arity := .linear
  components := 1
  symmetric := false
  fields := [⟨0, "w", .scalar, false, .perEntry (some (.deriv "v" [0]))⟩,
    ⟨1, "g", .scalar, false,
      .perEntry (some (.binary .mul (.field "w" .scalar false) (.field "w" .scalar false)))⟩]
  accumulations := [⟨0, some (.field "g" .scalar false)⟩,
    ⟨0, some (.binary .add (.field "w" .scalar false) (.field "g" .scalar false))⟩]
  requirements := {}

/-- A builder returns this form. -/
theorem finalize_nestedForm : ∃ b : FormBuilder ℚ, b.Reachable ∧ b.finalize = .ok nestedForm := by
  have hw : (Expr.field "w" .scalar false : Expr ℚ).Built :=
    .field (e := .field "w" .scalar false) (rfl : Expr.ofField "w" .scalar false = _)
  have hg : (Expr.field "g" .scalar false : Expr ℚ).Built :=
    .field (e := .field "g" .scalar false) (rfl : Expr.ofField "g" .scalar false = _)
  have hderiv : (Expr.deriv "v" [0] : Expr ℚ).Built := .deriv (rfl : Expr.ofDeriv "v" [0] = _)
  have hsquare : (Expr.binary .mul (.field "w" .scalar false) (.field "w" .scalar false) :
      Expr ℚ).Built := .arith hw hw (rfl : Operand.arith .mul _ _ = _)
  have hsum : (Expr.binary .add (.field "w" .scalar false) (.field "g" .scalar false) :
      Expr ℚ).Built := .arith hw hg (rfl : Operand.arith .add _ _ = _)
  have hmade : FormBuilder.make "nested" 1 .linear 1 false = .ok (_ : FormBuilder ℚ) := rfl
  have hlocals := (Reachable.make hmade).call (c := .defineLocal "w" (some (.deriv "v" [0])))
    (fun e he => Option.some.inj he ▸ hderiv) |>.call
    (c := .defineLocal "g" (some (.binary .mul (.field "w" .scalar false) (.field "w" .scalar false))))
    fun e he => Option.some.inj he ▸ hsquare
  have hsums := hlocals.call (c := .addToSlot 0 (some (.field "g" .scalar false)))
    (fun e he => Option.some.inj he ▸ hg) |>.call
    (c := .addToSlot 0 (some (.binary .add (.field "w" .scalar false) (.field "g" .scalar false))))
    fun e he => Option.some.inj he ▸ hsum
  exact ⟨_, hsums, rfl⟩

/-- **The first reference to the outer field** lowers both definitions, the inner one first, and both fields keep
their registers. -/
theorem lowering_shares_nestedForm :
    (∃ b : FormBuilder ℚ, b.Reachable ∧ b.finalize = .ok nestedForm) ∧ nestedForm.SizesMatch ∧
      ∃ log registers t,
        LoweringRun nestedForm .kernel [.field "g" .scalar false] (LoweringState.start nestedForm) log [registers] t ∧
        loweredLocals log = [(0, [0]), (1, [1])] ∧ registers = [1] ∧ ∀ r ∈ log, ∃ f ∈ nestedForm.fields,
          f.id = r.id ∧ nestedForm.Keeps f r.registers t := by
  obtain ⟨b, hb, hfinal⟩ := finalize_nestedForm
  have hsizes : nestedForm.SizesMatch := (Form.referencesMatch_of_all rfl rfl).sizesMatch
  have he : nestedForm.Evaluates (.field "g" .scalar false) := .inl ⟨_, List.mem_of_getElem? (i := 0) rfl, rfl⟩
  obtain ⟨-, hshares⟩ := hb.lowering_shares hfinal hsizes
  obtain ⟨-, -, hpart⟩ := hshares [] _ (.refl _)
  obtain ⟨log, registers, t, hrun, -, hdepth, -⟩ := hpart _ he _ (Expr.mem_nodes_self _)
  have hcomputed : ((lower nestedForm .kernel (fieldRegisters nestedForm .kernel 3)
      (.field "g" .scalar false)).run (LoweringState.start nestedForm)).map (fun result =>
        (result.1, result.2.locals)) = .ok ([1], [(1, [1]), (0, [0])]) := by decide +kernel
  rw [hdepth 3 (by decide)] at hcomputed
  obtain ⟨hregisters, hlocals⟩ := Prod.mk.inj (Except.ok.inj hcomputed)
  have hlowered : loweredLocals log = [(0, [0]), (1, [1])] := by
    have hkept := hrun.locals.symm.trans hlocals
    exact List.reverse_eq_iff.mp (List.append_nil _ ▸ hkept)
  obtain ⟨-, hkeeps, -⟩ := hshares _ t (.lower (.refl _) he (Expr.mem_nodes_self _) hrun)
  refine ⟨⟨b, hb, hfinal⟩, hsizes, log, registers, t, hrun, hlowered, hregisters, fun r hr => ?_⟩
  obtain ⟨-, -, f, hf, -, hid, hkept⟩ := hkeeps r hr
  exact ⟨f, hf, hid, hkept⟩

end FormBuilder

end Galerkin
