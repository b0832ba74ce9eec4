import Galerkin.Proofs.Form.Programs

/-! # Runs of a lowering

Lowering an expression and finding the registers of a field call each other: the recursion follows the names of
local fields out of an expression into their definitions. A run is a finite record of what this recursion does,
with no bound on how deep it goes, and it notes all references to local fields on the way. Whatever is lowered with
a bound has a run, and there is only one.

* **`KeepsLocals`** — steps that leave alone what is kept for local fields;
* **`combine`** — the registers of an operation from those of its operands;
* **`LoweringRun`** — the runs of the recursion, with the references to local fields that are met;
* **`LoweringRun.unique`** — there is at most one run;
* **`exists_run_of_lower`** — what is lowered has a run;
* **`LoweringRun.locals`**, **`LoweringRun.reference`** — what is kept after a run is what was lowered in it, and
  every reference has what is kept. -/

namespace Galerkin

variable {α β γ : Type}

/-! ## (1) Steps of a lowering -/

section Steps

variable {s t : LoweringState α}

/-- Two steps succeed when the first one does and the second one does after it. -/
theorem run_bind_eq_ok_iff {x : LoweringM α β} {f : β → LoweringM α γ} {c : γ} :
    (x >>= f).run s = .ok (c, t) ↔ ∃ b u, x.run s = .ok (b, u) ∧ (f b).run u = .ok (c, t) := by
  rw [StateT.run_bind, bind_eq_ok_iff, Prod.exists]

/-- A step that does not look at the state leaves it as it is. -/
theorem run_liftM_eq_ok_iff {e : Except Error β} {b : β} :
    (liftM e : LoweringM α β).run s = .ok (b, t) ↔ e = .ok b ∧ s = t := by
  constructor
  · intro h
    cases e with
    | error e => cases h
    | ok c =>
      obtain ⟨rfl, rfl⟩ := Prod.mk.inj (Except.ok.inj h)
      exact ⟨rfl, rfl⟩
  · rintro ⟨rfl, rfl⟩
    rfl

/-- A traversal of one element more. -/
theorem run_mapM_cons_eq_ok_iff {f : β → LoweringM α γ} {x : β} {xs : List β} {zs : List γ} :
    ((x :: xs).mapM f).run s = .ok (zs, t) ↔
      ∃ y u ys, (f x).run s = .ok (y, u) ∧ (xs.mapM f).run u = .ok (ys, t) ∧ zs = y :: ys := by
  rw [List.mapM_cons, run_bind_eq_ok_iff]
  constructor
  · rintro ⟨y, u, hy, h⟩
    obtain ⟨ys, v, hys, h⟩ := run_bind_eq_ok_iff.mp h
    obtain ⟨rfl, rfl⟩ := Prod.mk.inj (Except.ok.inj h)
    exact ⟨y, u, ys, hy, hys, rfl⟩
  · rintro ⟨y, u, ys, hy, hys, rfl⟩
    exact ⟨y, u, hy, run_bind_eq_ok_iff.mpr ⟨ys, t, hys, rfl⟩⟩

/-- A traversal of one element. -/
theorem run_mapM_singleton {f : β → LoweringM α γ} {x : β} {y : γ} (hx : (f x).run s = .ok (y, t)) :
    ([x].mapM f).run s = .ok ([y], t) :=
  run_mapM_cons_eq_ok_iff.mpr ⟨y, t, [], hx, rfl, rfl⟩

/-- A traversal of two elements. -/
theorem run_mapM_pair {f : β → LoweringM α γ} {x x' : β} {y y' : γ} {u : LoweringState α}
    (hx : (f x).run s = .ok (y, t)) (hx' : (f x').run t = .ok (y', u)) :
    ([x, x'].mapM f).run s = .ok ([y, y'], u) :=
  run_mapM_cons_eq_ok_iff.mpr ⟨y, t, [y'], hx, run_mapM_singleton hx', rfl⟩

/-- **A traversal whose results are looked up one by one** is a traversal, and then the results are looked up. -/
theorem run_mapM_lift {δ : Type} {f : β → LoweringM α γ} {g : γ → Except Error δ} {xs : List β}
    {zs : List δ} (h : (xs.mapM fun x => do liftM (g (← f x))).run s = .ok (zs, t)) :
    ∃ ys, (xs.mapM f).run s = .ok (ys, t) ∧
      ∀ u : LoweringState α, (ys.mapM fun y => (liftM (g y) : LoweringM α δ)).run u = .ok (zs, u) := by
  induction xs generalizing s zs with
  | nil =>
    obtain ⟨rfl, rfl⟩ := Prod.mk.inj (Except.ok.inj h)
    exact ⟨[], rfl, fun _ => rfl⟩
  | cons x xs ih =>
    obtain ⟨z, u, rest, hx, hxs, rfl⟩ := run_mapM_cons_eq_ok_iff.mp h
    obtain ⟨y, v, hy, hz⟩ := run_bind_eq_ok_iff.mp hx
    obtain ⟨hlook, rfl⟩ := run_liftM_eq_ok_iff.mp hz
    obtain ⟨ys, hys, hrest⟩ := ih hxs
    refine ⟨y :: ys, run_mapM_cons_eq_ok_iff.mpr ⟨y, v, ys, hy, hys, rfl⟩, fun w => ?_⟩
    exact run_mapM_cons_eq_ok_iff.mpr ⟨z, w, rest, run_liftM_eq_ok_iff.mpr ⟨hlook, rfl⟩, hrest w, rfl⟩

end Steps

/-- **A step that leaves alone what is kept for local fields.** -/
def KeepsLocals (x : LoweringM α β) : Prop := ∀ s, Achieves False x s fun _ t => t.locals = s.locals

namespace KeepsLocals

/-- What stays twice stays. -/
theorem trans {a b c : LoweringState α} (hab : b.locals = a.locals) (hbc : c.locals = b.locals) :
    c.locals = a.locals := hbc.trans hab

/-- A result alone changes nothing. -/
theorem pure (b : β) : KeepsLocals (α := α) (pure b) := fun _ => .pure rfl

/-- A step that does not look at the state leaves it as it is. -/
theorem lift (e : Except Error β) : KeepsLocals (α := α) (liftM e) := fun _ => .lift False.elim fun _ _ => rfl

/-- A failure changes nothing. -/
theorem throw (e : Error) : KeepsLocals (α := α) (β := β) (throw e) := fun _ => .throw id

/-- One step after the other. -/
theorem bind {x : LoweringM α β} {f : β → LoweringM α γ} (hx : KeepsLocals x) (hf : ∀ b, KeepsLocals (f b)) :
    KeepsLocals (x >>= f) :=
  fun s => (hx s).bind fun b t ht => (hf b t).mono id fun _ _ h => h.trans ht

/-- A step of the builder. -/
theorem emit (step : ProgramBuilder α → Except Error (Nat × ProgramBuilder α)) : KeepsLocals (tryEmit step) := by
  intro s
  unfold tryEmit
  refine Achieves.get.bind ?_
  rintro _ _ ⟨rfl, rfl⟩
  refine (Achieves.lift (P := fun _ t => s = t) False.elim fun _ _ => rfl).bind ?_
  rintro ⟨register, b⟩ _ rfl
  refine Achieves.set.bind ?_
  rintro _ _ rfl
  exact .pure rfl

/-- A step of the builder that cannot fail. -/
theorem emitWith (step : ProgramBuilder α → Nat × ProgramBuilder α) : KeepsLocals (emitWith step) :=
  emit fun b => .ok (step b)

/-- A traversal. -/
theorem mapM {f : β → LoweringM α γ} (hf : ∀ x, KeepsLocals (f x)) (xs : List β) : KeepsLocals (xs.mapM f) := by
  intro s
  -- States that keep the same for local fields stand for ones that only grow.
  refine (Achieves.mapM (I := fun _ => True) (L := fun a b => b.locals = a.locals) (R := fun _ _ _ => True)
    (fun _ => rfl) trans (fun _ _ _ _ => trivial) trivial (o := s) rfl ?_).mono id ?_
  · exact fun x _ t _ _ => (hf x t).mono id fun _ _ h => ⟨trivial, h, trivial⟩
  · exact fun _ _ h => h.2.1

/-- A loop. -/
theorem foldlM {f : γ → β → LoweringM α γ} (hf : ∀ c x, KeepsLocals (f c x)) (xs : List β) :
    ∀ c, KeepsLocals (xs.foldlM f c) := by
  intro c s
  refine (Achieves.foldlM (I := fun _ => True) (L := fun a b => b.locals = a.locals) (C := fun _ _ _ => True)
    trans trivial (o := s) (l := []) rfl trivial ?_).mono id ?_
  · exact fun _ x d t _ _ _ => (hf d x t).mono And.left fun _ _ h => ⟨trivial, h, trivial⟩
  · exact fun _ _ h => h.2.1

end KeepsLocals

/-! ## (2) Operations -/

/-- The name that a reference to a field refers to; an operation is no reference. -/
def Expr.reference? : Expr α → Option String
  | .field name _ _ => some name
  | _ => none

variable [Scalar α] [DecidableEq α] {form : Form α} {target : LoweringTarget}

/-- **The registers of an operation** from those of its operands. -/
def combine (form : Form α) (target : LoweringTarget) : Expr α → List (List Nat) → LoweringM α (List Nat)
  | .const value, _ => do return [← emitWith fun b => b.constant ⟨value, false⟩]
  | .binary op _ _, [xs, ys] => xs.zipIdx.mapM fun (x, k) => do emitArith op x (← registerAt ys k)
  | .index _ position, [xs] => do return [← registerAt xs position]
  | .entry matrix row col, [xs] => do return [← registerAt xs (row * matrix.shape.cols + col)]
  | .slice _ positions, [xs] => positions.mapM fun k => registerAt xs k
  | .matmul matrix _, [xs, ys] => (List.range matrix.shape.rows).mapM fun r => lowerRow xs ys matrix.shape.cols r
  | .deriv basis orders, _ => do return [← lowerDeriv form target basis orders]
  | .compose _ _, xss => xss.mapM fun xs => registerAt xs 0
  | _, _ => throw (.tape .missingRegister)

/-- A term of a product only adds instructions. -/
theorem lowerTerm_keepsLocals (matrix vector : List Nat) (cols r c : Nat) :
    KeepsLocals (α := α) (lowerTerm matrix vector cols r c) :=
  .bind (.lift _) fun _ => .bind (.lift _) fun _ => .emit _

/-- **An operation only adds instructions.** -/
theorem combine_keepsLocals (form : Form α) (target : LoweringTarget) (e : Expr α) (registers : List (List Nat)) :
    KeepsLocals (combine form target e registers) := by
  unfold combine
  split
  · exact .bind (.emitWith _) fun _ => .pure _
  · exact .mapM (fun _ => .bind (.lift _) fun _ => .emit _) _
  · exact .bind (.lift _) fun _ => .pure _
  · exact .bind (.lift _) fun _ => .pure _
  · exact .mapM (fun _ => .lift _) _
  · refine .mapM (fun r => ?_) _
    exact .bind (lowerTerm_keepsLocals _ _ _ _ _) fun _ =>
      .foldlM (fun _ _ => .bind (lowerTerm_keepsLocals _ _ _ _ _) fun _ => .emit _) _ _
  · refine .bind ?_ fun _ => .pure _
    exact .bind (.lift _) fun _ => .bind (.lift _) fun _ => .emitWith _
  · exact .mapM (fun _ => .lift _) _
  · exact .throw _

/-- **An operation is lowered** by lowering its operands, one after the other, and then combining them. -/
theorem lower_operation {fields : FieldLookup α} {e : Expr α} (he : e.reference? = none) {s t : LoweringState α}
    {registers : List Nat} (h : (lower form target fields e).run s = .ok (registers, t)) :
    ∃ operands u, (e.operands.mapM (lower form target fields)).run s = .ok (operands, u) ∧
      (combine form target e operands).run u = .ok (registers, t) := by
  cases e with
  | field name shape symmetric => cases he
  | const value =>
    rw [lower] at h
    exact ⟨[], s, rfl, h⟩
  | deriv basis orders =>
    rw [lower] at h
    exact ⟨[], s, rfl, h⟩
  | binary op lhs rhs =>
    rw [lower] at h
    obtain ⟨xs, u, hxs, h⟩ := run_bind_eq_ok_iff.mp h
    obtain ⟨ys, v, hys, h⟩ := run_bind_eq_ok_iff.mp h
    exact ⟨[xs, ys], v, run_mapM_pair hxs hys, h⟩
  | matmul matrix vector =>
    rw [lower] at h
    obtain ⟨xs, u, hxs, h⟩ := run_bind_eq_ok_iff.mp h
    obtain ⟨ys, v, hys, h⟩ := run_bind_eq_ok_iff.mp h
    exact ⟨[xs, ys], v, run_mapM_pair hxs hys, h⟩
  | index vector position =>
    rw [lower] at h
    obtain ⟨xs, u, hxs, h⟩ := run_bind_eq_ok_iff.mp h
    exact ⟨[xs], u, run_mapM_singleton hxs, h⟩
  | entry matrix row col =>
    rw [lower] at h
    obtain ⟨xs, u, hxs, h⟩ := run_bind_eq_ok_iff.mp h
    exact ⟨[xs], u, run_mapM_singleton hxs, h⟩
  | slice vector positions =>
    rw [lower] at h
    obtain ⟨xs, u, hxs, h⟩ := run_bind_eq_ok_iff.mp h
    exact ⟨[xs], u, run_mapM_singleton hxs, h⟩
  | compose shape components =>
    -- The first register of a component is looked up as soon as it is lowered, which adds no instruction.
    rw [lower, lowerFirsts_eq_mapM] at h
    obtain ⟨operands, hoperands, hfirsts⟩ := run_mapM_lift h
    exact ⟨operands, t, hoperands, hfirsts t⟩

/-! ## (3) Runs -/

/-- **A reference to a local field that is met in a lowering:** the number of the field, the registers that the
reference has, and whether the definition of the field was lowered for it. -/
structure LocalReference where
  id : Nat
  registers : List Nat
  isFirst : Bool

/-- **The local fields whose definitions were lowered,** with the registers that were found. -/
def loweredLocals (log : List LocalReference) : List (Nat × List Nat) :=
  (log.filter (·.isFirst)).map fun r => (r.id, r.registers)

/-- What is lowered in two parts of a log. -/
theorem loweredLocals_append (log log' : List LocalReference) :
    loweredLocals (log ++ log') = loweredLocals log ++ loweredLocals log' := by
  rw [loweredLocals, List.filter_append, List.map_append]
  rfl

/-- A reference that a definition was lowered for comes before others. -/
theorem loweredLocals_first (id : Nat) (registers : List Nat) (log : List LocalReference) :
    loweredLocals (⟨id, registers, true⟩ :: log) = (id, registers) :: loweredLocals log := rfl

/-- What was lowered is in the log. -/
theorem mem_loweredLocals {id : Nat} {registers : List Nat} {log : List LocalReference} :
    (id, registers) ∈ loweredLocals log ↔ ⟨id, registers, true⟩ ∈ log := by
  simp only [loweredLocals, List.mem_map, List.mem_filter, Prod.mk.injEq]
  constructor
  · rintro ⟨⟨_, _, _⟩, ⟨hr, rfl⟩, rfl, rfl⟩
    exact hr
  · exact fun hr => ⟨_, ⟨hr, rfl⟩, rfl, rfl⟩

/-- **A run that lowers some expressions,** one after the other. It starts and ends in a state, has the registers
of every expression, and notes every reference to a local field that is met, at any depth, as soon as its
registers are found. -/
inductive LoweringRun (form : Form α) (target : LoweringTarget) : List (Expr α) → LoweringState α →
    (log : List LocalReference) → (registers : List (List Nat)) → LoweringState α → Prop
  /-- Nothing is left. -/
  | nil (s : LoweringState α) : LoweringRun form target [] s [] [] s
  /-- The operands of an operation, and then the operation. -/
  | operation {e : Expr α} {es : List (Expr α)} {s t u v : LoweringState α} {log log' : List LocalReference}
      {registers : List Nat} {operands rest : List (List Nat)} (he : e.reference? = none)
      (hoperands : LoweringRun form target e.operands s log operands t)
      (hresult : (combine form target e operands).run t = .ok (registers, u))
      (hrest : LoweringRun form target es u log' rest v) :
      LoweringRun form target (e :: es) s (log ++ log') (registers :: rest) v
  /-- An array field, whose components are loaded. -/
  | array {e : Expr α} {es : List (Expr α)} {s t u : LoweringState α} {log : List LocalReference}
      {registers : List Nat} {rest : List (List Nat)} {name : String} {f : FieldVariable α}
      (he : e.reference? = some name) (hf : form.field name = .ok f) (harray : f.isArray = true)
      (hloads : (f.shape.positions.mapM fun (i, j) =>
        (tryEmit fun b => b.loadField f.id (f.backingIndex i j) : LoweringM α Nat)).run s = .ok (registers, t))
      (hrest : LoweringRun form target es t log rest u) :
      LoweringRun form target (e :: es) s log (registers :: rest) u
  /-- A local field whose registers are kept. -/
  | again {e : Expr α} {es : List (Expr α)} {s t : LoweringState α} {log : List LocalReference}
      {registers : List Nat} {rest : List (List Nat)} {name : String} {f : FieldVariable α} {id : Nat}
      (he : e.reference? = some name) (hf : form.field name = .ok f) (hlocal : f.isArray = false)
      (htarget : target = .kernel) (hkept : s.locals.find? (·.1 == f.id) = some (id, registers))
      (hrest : LoweringRun form target es s log rest t) :
      LoweringRun form target (e :: es) s (⟨f.id, registers, false⟩ :: log) (registers :: rest) t
  /-- A local field that is met for the first time: its definition is lowered, and its registers are kept. -/
  | first {e x : Expr α} {es : List (Expr α)} {s t u : LoweringState α} {log log' : List LocalReference}
      {registers : List Nat} {rest : List (List Nat)} {name : String} {f : FieldVariable α}
      (he : e.reference? = some name) (hf : form.field name = .ok f) (hlocal : f.isArray = false)
      (htarget : target = .kernel) (hnew : s.locals.find? (·.1 == f.id) = none)
      (hx : f.definition.expression = some x)
      (hdefinition : LoweringRun form target [x] s log [registers] t)
      (hrest : LoweringRun form target es { t with locals := (f.id, registers) :: t.locals } log' rest u) :
      LoweringRun form target (e :: es) s (log ++ ⟨f.id, registers, true⟩ :: log') (registers :: rest) u

variable {e : Expr α} {es : List (Expr α)} {s t u : LoweringState α} {log log' : List LocalReference}
  {registers : List Nat} {all : List (List Nat)}

/-- A run of one expression and a run of others. -/
theorem LoweringRun.cons (h : LoweringRun form target [e] s log [registers] t)
    (hrest : LoweringRun form target es t log' all u) :
    LoweringRun form target (e :: es) s (log ++ log') (registers :: all) u := by
  cases h with
  | operation he hoperands hresult hnil =>
    cases hnil
    rw [List.append_nil]
    exact .operation he hoperands hresult hrest
  | array he hf harray hloads hnil =>
    cases hnil
    exact .array he hf harray hloads hrest
  | again he hf hlocal htarget hkept hnil =>
    cases hnil
    exact .again he hf hlocal htarget hkept hrest
  | first he hf hlocal htarget hnew hx hdefinition hnil =>
    cases hnil
    rw [List.append_assoc, List.singleton_append]
    exact .first he hf hlocal htarget hnew hx hdefinition hrest

omit [Scalar α] [DecidableEq α] in
/-- A reference refers to one field. -/
theorem field_unique {name name' : String} {f g : FieldVariable α} (he : e.reference? = some name)
    (hf : form.field name = .ok f) (he' : e.reference? = some name') (hg : form.field name' = .ok g) : f = g := by
  obtain rfl := Option.some.inj (he.symm.trans he')
  exact Except.ok.inj (hf.symm.trans hg)

/-- **There is at most one run:** the references it meets, the registers it has and the state it ends in are
determined by the expressions and the state it starts in. -/
theorem LoweringRun.unique (h : LoweringRun form target es s log all t) {all' : List (List Nat)}
    (h' : LoweringRun form target es s log' all' u) : log = log' ∧ all = all' ∧ t = u := by
  -- What the expression refers to, the kind of the field and what is kept for it tell the steps apart; in the
  -- cases that are left the parts of the two runs agree by induction.
  induction h generalizing log' all' u with
  | nil s =>
    cases h'
    exact ⟨rfl, rfl, rfl⟩
  | operation he _ hresult _ ih ihrest =>
    cases h' with
    | operation _ hoperands' hresult' hrest' =>
      obtain ⟨rfl, rfl, rfl⟩ := ih hoperands'
      obtain ⟨rfl, rfl⟩ := Prod.mk.inj (Except.ok.inj (hresult.symm.trans hresult'))
      obtain ⟨rfl, rfl, rfl⟩ := ihrest hrest'
      exact ⟨rfl, rfl, rfl⟩
    | array he' => cases he.symm.trans he'
    | again he' => cases he.symm.trans he'
    | first he' => cases he.symm.trans he'
  | array he hf harray hloads _ ihrest =>
    cases h' with
    | operation he' => cases he.symm.trans he'
    | array he' hf' _ hloads' hrest' =>
      obtain rfl := field_unique he hf he' hf'
      obtain ⟨rfl, rfl⟩ := Prod.mk.inj (Except.ok.inj (hloads.symm.trans hloads'))
      obtain ⟨rfl, rfl, rfl⟩ := ihrest hrest'
      exact ⟨rfl, rfl, rfl⟩
    | again he' hf' hlocal' =>
      obtain rfl := field_unique he hf he' hf'
      cases harray.symm.trans hlocal'
    | first he' hf' hlocal' =>
      obtain rfl := field_unique he hf he' hf'
      cases harray.symm.trans hlocal'
  | again he hf hlocal _ hkept _ ihrest =>
    cases h' with
    | operation he' => cases he.symm.trans he'
    | array he' hf' harray' =>
      obtain rfl := field_unique he hf he' hf'
      cases hlocal.symm.trans harray'
    | again he' hf' _ _ hkept' hrest' =>
      obtain rfl := field_unique he hf he' hf'
      obtain ⟨-, rfl⟩ := Prod.mk.inj (Option.some.inj (hkept.symm.trans hkept'))
      obtain ⟨rfl, rfl, rfl⟩ := ihrest hrest'
      exact ⟨rfl, rfl, rfl⟩
    | first he' hf' _ _ hnew' =>
      obtain rfl := field_unique he hf he' hf'
      cases hkept.symm.trans hnew'
  | first he hf hlocal _ hnew hx _ _ ih ihrest =>
    cases h' with
    | operation he' => cases he.symm.trans he'
    | array he' hf' harray' =>
      obtain rfl := field_unique he hf he' hf'
      cases hlocal.symm.trans harray'
    | again he' hf' _ _ hkept' =>
      obtain rfl := field_unique he hf he' hf'
      cases hnew.symm.trans hkept'
    | first he' hf' _ _ _ hx' hdefinition' hrest' =>
      obtain rfl := field_unique he hf he' hf'
      obtain rfl := Option.some.inj (hx.symm.trans hx')
      obtain ⟨rfl, hregisters, rfl⟩ := ih hdefinition'
      obtain ⟨rfl, -⟩ := List.cons.inj hregisters
      obtain ⟨rfl, rfl, rfl⟩ := ihrest hrest'
      exact ⟨rfl, rfl, rfl⟩

/-! ## (4) What is lowered has a run -/

/-- **A lookup whose results have runs.** -/
def RunsOf (form : Form α) (target : LoweringTarget) (fields : FieldLookup α) : Prop :=
  ∀ (e : Expr α) (name : String), e.reference? = some name → ∀ (s t : LoweringState α) (registers : List Nat),
    (fields name).run s = .ok (registers, t) → ∃ log, LoweringRun form target [e] s log [registers] t

/-- A traversal of expressions whose steps have runs has a run. -/
theorem exists_run_of_mapM {f : Expr α → LoweringM α (List Nat)}
    (hf : ∀ e ∈ es, ∀ (s t : LoweringState α) (registers : List Nat), (f e).run s = .ok (registers, t) →
      ∃ log, LoweringRun form target [e] s log [registers] t)
    (h : (es.mapM f).run s = .ok (all, t)) : ∃ log, LoweringRun form target es s log all t := by
  induction es generalizing s all with
  | nil =>
    obtain ⟨rfl, rfl⟩ := Prod.mk.inj (Except.ok.inj h)
    exact ⟨[], .nil s⟩
  | cons e es ih =>
    obtain ⟨registers, u, rest, he, hes, rfl⟩ := run_mapM_cons_eq_ok_iff.mp h
    obtain ⟨log, hrun⟩ := hf e (List.mem_cons_self ..) s u registers he
    obtain ⟨log', hrest⟩ := ih (fun x hx => hf x (List.mem_cons_of_mem _ hx)) hes
    exact ⟨log ++ log', hrun.cons hrest⟩

/-- **An expression that is lowered has a run,** if the fields it refers to have. -/
theorem exists_run_of_lower {fields : FieldLookup α} (hfields : RunsOf form target fields) (e : Expr α) :
    ∀ (s t : LoweringState α) (registers : List Nat), (lower form target fields e).run s = .ok (registers, t) →
      ∃ log, LoweringRun form target [e] s log [registers] t := by
  -- A definition is no operand of the reference to its field: there `hfields` is used.
  induction e using Expr.operand_induction with
  | step e ih =>
    intro s t registers h
    cases he : e.reference? with
    | none =>
      obtain ⟨operands, u, hoperands, hresult⟩ := lower_operation he h
      obtain ⟨log, hrun⟩ := exists_run_of_mapM ih hoperands
      exact ⟨log ++ [], .operation he hrun hresult (.nil t)⟩
    | some name =>
      cases e with
      | field name' shape symmetric =>
        obtain rfl := Option.some.inj he
        rw [lower] at h
        exact hfields _ _ he s t registers h
      | _ => cases he

/-- **The registers of a field have a run,** however long the chain of definitions may be that is looked at. -/
theorem runsOf_fieldRegisters (form : Form α) (target : LoweringTarget) (depth : Nat) :
    RunsOf form target (fieldRegisters form target depth) := by
  -- Without any depth left the lookup fails, so there is nothing to show.
  induction depth with
  | zero => exact fun _ _ _ _ _ _ h => nomatch h
  | succ depth ih =>
    intro e name he s t registers h
    rw [fieldRegisters] at h
    obtain ⟨f, _, hfound, h⟩ := run_bind_eq_ok_iff.mp h
    obtain ⟨hf, rfl⟩ := run_liftM_eq_ok_iff.mp hfound
    cases harray : f.isArray with
    | true =>
      rw [if_pos harray] at h
      exact ⟨[], .array he hf harray h (.nil t)⟩
    | false =>
      rw [if_neg (by rw [harray]; decide)] at h
      obtain ⟨_, _, hchecked, h⟩ := run_bind_eq_ok_iff.mp h
      obtain ⟨htarget, rfl⟩ := run_liftM_eq_ok_iff.mp hchecked
      have hkernel : target = .kernel := eq_of_beq (require_eq_ok_iff.mp htarget)
      obtain ⟨_, _, hstate, h⟩ := run_bind_eq_ok_iff.mp h
      obtain ⟨rfl, rfl⟩ := Prod.mk.inj (Except.ok.inj hstate)
      cases hkept : s.locals.find? (·.1 == f.id) with
      | some entry =>
        rw [hkept] at h
        obtain ⟨rfl, rfl⟩ := Prod.mk.inj (Except.ok.inj h)
        exact ⟨[_], .again he hf harray hkernel hkept (.nil s)⟩
      | none =>
        rw [hkept] at h
        obtain ⟨definition, u, hdefinition, h⟩ := run_bind_eq_ok_iff.mp h
        obtain ⟨_, v, hkeep, h⟩ := run_bind_eq_ok_iff.mp h
        obtain ⟨-, rfl⟩ := Prod.mk.inj (Except.ok.inj hkeep)
        obtain ⟨rfl, rfl⟩ := Prod.mk.inj (Except.ok.inj h)
        cases hx : f.definition.expression with
        | none =>
          rw [hx] at hdefinition
          cases hdefinition
        | some x =>
          rw [hx] at hdefinition
          obtain ⟨log, hrun⟩ := exists_run_of_lower ih x s u definition hdefinition
          exact ⟨log ++ [_], .first he hf harray hkernel hkept hx hrun (.nil _)⟩

/-! ## (5) What is kept -/

/-- **What is kept after a run** is what was kept before it and the fields whose definitions it lowered, the last
one first. -/
theorem LoweringRun.locals (h : LoweringRun form target es s log all t) :
    t.locals = (loweredLocals log).reverse ++ s.locals := by
  induction h with
  | nil s => rfl
  | operation _ _ hresult _ ih ihrest =>
    rw [ihrest, (combine_keepsLocals _ _ _ _ _).2 _ _ hresult, ih, loweredLocals_append, List.reverse_append,
      List.append_assoc]
  | array _ _ _ hloads _ ihrest =>
    rw [ihrest, (KeepsLocals.mapM (fun p : Nat × Nat => KeepsLocals.emit _) _ _).2 _ _ hloads]
  | again _ _ _ _ _ _ ihrest => exact ihrest
  | first _ _ _ _ _ _ _ _ ih ihrest =>
    rw [ihrest, ih, loweredLocals_append, loweredLocals_first, List.reverse_append, List.reverse_cons,
      List.append_assoc, List.append_assoc, List.singleton_append]

omit [Scalar α] [DecidableEq α] in
/-- A local field refers to fields before it. -/
theorem Form.Valid.refersBelow_local (hform : form.Valid) {f : FieldVariable α} (hf : f ∈ form.fields)
    (hlocal : f.isArray = false) {x : Expr α} (hx : f.definition.expression = some x) : form.RefersBelow f.id x := by
  obtain ⟨o, ho⟩ := FieldVariable.perEntry_of_not_isArray hlocal
  obtain ⟨y, rfl, -, -, hnodes⟩ := hform.locals f hf o ho
  rw [ho] at hx
  obtain rfl := Option.some.inj hx
  exact Form.refersBelow_of_resolves hnodes

omit [Scalar α] [DecidableEq α] in
/-- The field of a reference is below the bound of all references. -/
theorem Form.Valid.id_lt_of_reference (hform : form.Valid) {bound : Nat} (hbound : form.RefersBelow bound e)
    {name : String} {f : FieldVariable α} (he : e.reference? = some name) (hf : form.field name = .ok f) :
    f.id < bound := by
  obtain ⟨hmem, rfl⟩ := Form.field_eq_ok hf
  cases e with
  | field name shape symmetric =>
    obtain ⟨g, hg, hname, hlt⟩ := hbound _ _ _ (Expr.mem_nodes_self _)
    obtain rfl := Option.some.inj he
    obtain rfl := hform.eq_of_name hg hmem hname
    exact hlt
  | _ => cases he

omit [Scalar α] [DecidableEq α] in
/-- Operands refer to no more fields. -/
theorem Form.RefersBelow.operand {bound : Nat} (h : form.RefersBelow bound e) {x : Expr α} (hx : x ∈ e.operands) :
    form.RefersBelow bound x :=
  fun name shape symmetric hnode => h name shape symmetric (Expr.nodes_of_operand hx _ hnode)

/-- **A reference to a local field of the form** has the registers that are kept for the field after the run. -/
theorem LoweringRun.reference (h : LoweringRun form target es s log all t) :
    ∀ r ∈ log, (r.id, r.registers) ∈ t.locals ∧ ∃ f ∈ form.fields, f.isArray = false ∧ f.id = r.id := by
  -- By induction on the run: what is kept when a reference is noted is still kept after the rest.
  induction h with
  | nil s => exact fun _ h => nomatch h
  | operation _ _ hresult hrest ih ihrest =>
    intro r hr
    rcases List.mem_append.mp hr with hr | hr
    · obtain ⟨hkept, hfield⟩ := ih r hr
      refine ⟨?_, hfield⟩
      rw [hrest.locals, (combine_keepsLocals _ _ _ _ _).2 _ _ hresult]
      exact List.mem_append_right _ hkept
    · exact ihrest r hr
  | array _ _ _ _ _ ihrest => exact ihrest
  | again _ hf hlocal _ hkept hrest ihrest =>
    intro r hr
    rcases List.mem_cons.mp hr with rfl | hr
    · obtain ⟨hmem, hid⟩ := mem_of_find?_key hkept
      refine ⟨?_, _, (Form.field_eq_ok hf).1, hlocal, rfl⟩
      rw [hrest.locals]
      exact List.mem_append_right _ (hid ▸ hmem)
    · exact ihrest r hr
  | first _ hf hlocal _ _ _ _ hrest ih ihrest =>
    intro r hr
    rcases List.mem_append.mp hr with hr | hr
    · obtain ⟨hkept, hfield⟩ := ih r hr
      refine ⟨?_, hfield⟩
      rw [hrest.locals]
      exact List.mem_append_right _ (List.mem_cons_of_mem _ hkept)
    · rcases List.mem_cons.mp hr with rfl | hr
      · refine ⟨?_, _, (Form.field_eq_ok hf).1, hlocal, rfl⟩
        rw [hrest.locals]
        exact List.mem_append_right _ (List.mem_cons_self ..)
      · exact ihrest r hr

/-- **A run meets the fields referred to** and fields before them. -/
theorem LoweringRun.id_lt (hform : form.Valid) (h : LoweringRun form target es s log all t) :
    ∀ {bound : Nat}, (∀ e ∈ es, form.RefersBelow bound e) → ∀ r ∈ log, r.id < bound := by
  -- The bound becomes the number of the field where the run goes into a definition.
  induction h with
  | nil s => exact fun _ _ h => nomatch h
  | operation _ _ _ _ ih ihrest =>
    intro bound hbound r hr
    obtain ⟨he, hes⟩ := List.forall_mem_cons.mp hbound
    rcases List.mem_append.mp hr with hr | hr
    · exact ih (fun x hx => he.operand hx) r hr
    · exact ihrest hes r hr
  | array _ _ _ _ _ ihrest => exact fun hbound => ihrest (List.forall_mem_cons.mp hbound).2
  | again he hf _ _ _ _ ihrest =>
    intro bound hbound
    obtain ⟨hrefers, hes⟩ := List.forall_mem_cons.mp hbound
    exact List.forall_mem_cons.mpr ⟨hform.id_lt_of_reference hrefers he hf, ihrest hes⟩
  | first he hf hlocal _ _ hx _ _ ih ihrest =>
    intro bound hbound r hr
    obtain ⟨hrefers, hes⟩ := List.forall_mem_cons.mp hbound
    have hlt := hform.id_lt_of_reference hrefers he hf
    have hdefinition := hform.refersBelow_local (Form.field_eq_ok hf).1 hlocal hx
    rcases List.mem_append.mp hr with hr | hr
    · exact (ih (List.forall_mem_singleton.mpr hdefinition) r hr).trans hlt
    · rcases List.mem_cons.mp hr with rfl | hr
      · exact hlt
      · exact ihrest hes r hr

/-- **No field is kept twice.** A definition that is lowered refers to earlier fields only, so it is not lowered
again inside itself. -/
theorem LoweringRun.nodup (hform : form.Valid) (h : LoweringRun form target es s log all t)
    (hs : (s.locals.map Prod.fst).Nodup) : (t.locals.map Prod.fst).Nodup := by
  induction h with
  | nil s => exact hs
  | operation _ _ hresult _ ih ihrest =>
    refine ihrest ?_
    rw [(combine_keepsLocals _ _ _ _ _).2 _ _ hresult]
    exact ih hs
  | array _ _ _ hloads _ ihrest =>
    refine ihrest ?_
    rw [(KeepsLocals.mapM (fun p : Nat × Nat => KeepsLocals.emit _) _ _).2 _ _ hloads]
    exact hs
  | again _ _ _ _ _ _ ihrest => exact ihrest hs
  | first _ hf hlocal _ hnew hx hdefinition _ ih ihrest =>
    refine ihrest (List.nodup_cons.mpr ⟨fun hkept => ?_, ih hs⟩)
    have hrefers := hform.refersBelow_local (Form.field_eq_ok hf).1 hlocal hx
    rw [hdefinition.locals, List.mem_map] at hkept
    obtain ⟨⟨id, registers⟩, hentry, rfl⟩ := hkept
    rcases List.mem_append.mp hentry with hentry | hentry
    · -- It would be a field before itself.
      have hreference := mem_loweredLocals.mp (List.mem_reverse.mp hentry)
      exact absurd (hdefinition.id_lt hform (List.forall_mem_singleton.mpr hrefers) _ hreference) (Nat.lt_irrefl _)
    · -- It would have been found.
      exact List.find?_eq_none.mp hnew _ hentry (beq_self_eq_true _)

end Galerkin
