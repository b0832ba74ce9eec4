import Galerkin.Form.Builder
import Galerkin.Proofs.Expr.Construction
import Mathlib.Logic.Relation

/-! # What form builders accept

A call on a builder is a chain of small changes, also when it fails on its way. Each change is guarded
by the checks of the builder, so whatever the calls were, the fields and accumulations that are
registered have passed the checks of the moment when they came in.

* **`FormBuilder.Change`** — the changes, with everything that is checked before them;
* **`Makes`** — a step of a builder makes changes only, and its result has a property;
* **`BuilderCall`** — the calls, and `BuilderCall.makes`: each is a chain of changes. -/

namespace Galerkin

variable {α β γ : Type}

/-! ## (1) Changes -/

/-- Requirements that say what they have to: a physical gradient needs a parametric one, and that needs
first derivatives. -/
structure FormRequirements.Consistent (r : FormRequirements) : Prop where
  physical : r.physicalGradient = true → r.parametricGradient = true
  parametric : r.parametricGradient = true → 1 ≤ r.maxDeriv

/-- Requirements after a request for basis functions: nothing is said about the geometry. -/
structure FormRequirements.Notes (r r' : FormRequirements) : Prop where
  jacobian : r'.jacobian = r.jacobian
  weight : r'.weight = r.weight
  consistent : r.Consistent → r'.Consistent

namespace FormBuilder

/-- What is checked of a field before it is added. -/
structure AcceptsField (b : FormBuilder α) (f : FieldVariable α) : Prop where
  number : f.id = b.fields.length
  named : f.name ≠ ""
  not_trial : f.name ≠ BasisRole.trial.name
  not_test : f.name ≠ BasisRole.test.name
  fresh : b.find? f.name = none
  shape : f.shape.Declarable f.symmetric
  definition : b.checkDefinition f.name f.shape f.definition = .ok ()
  built : f.definition.expression.Built
  input : ∀ function, f.definition = .input function → f.shape.isScalar = true → f.shape.size = 1

/-- What is checked of an accumulation of `e` before it is added. -/
structure AcceptsSum (b : FormBuilder α) (slot : Int) (e : Expr α) : Prop where
  built : e.Built
  scalar : e.shape.isScalar = true
  slot_nonneg : 0 ≤ slot
  slot_lt : slot < b.outputSlots
  references : b.checkReferences false e = .ok ()

/-- **A change of a builder,** with what is checked before it is made. -/
inductive Change : FormBuilder α → FormBuilder α → Prop
  /-- A request for basis functions is noted. -/
  | note {b : FormBuilder α} {r : FormRequirements} (h : b.requirements.Notes r) :
      Change b { b with requirements := r }
  /-- A field is registered. -/
  | field {b : FormBuilder α} {f : FieldVariable α} (h : b.AcceptsField f) :
      Change b { b with
        fields := b.fields ++ [f], requirements := noteDefinition b.requirements f.definition }
  /-- An expression is added to a slot. -/
  | accumulation {b : FormBuilder α} {slot : Int} {e : Expr α} (h : b.AcceptsSum slot e) :
      Change b { b with accumulations := b.accumulations ++ [⟨slot, some e⟩] }

/-- Some changes, one after the other. -/
abbrev Changes : FormBuilder α → FormBuilder α → Prop := Relation.ReflTransGen Change

end FormBuilder

/-! ## (2) Steps that make changes -/

/-- The result of a step. -/
def Building.result (x : Building α β) (b : FormBuilder α) : Except Error β := (x.run.run b).1

/-- The builder after a step, whether or not it succeeds. -/
def Building.after (x : Building α β) (b : FormBuilder α) : FormBuilder α := (x.run.run b).2

/-- **What a step does from a builder:** it makes changes only, and a result it has satisfies `P` with
the builder after it. -/
def Makes (x : Building α β) (b : FormBuilder α) (P : β → FormBuilder α → Prop) : Prop :=
  b.Changes (Building.after x b) ∧
    ∀ r, Building.result x b = .ok r → P r (Building.after x b)

namespace Makes

variable {b : FormBuilder α} {P : β → FormBuilder α → Prop}

/-- A weaker property of the result. -/
theorem mono {P' : β → FormBuilder α → Prop} {x : Building α β} (h : Makes x b P')
    (hP : ∀ r b', P' r b' → P r b') : Makes x b P :=
  ⟨h.1, fun r hr => hP r _ (h.2 r hr)⟩

/-- A result alone changes nothing. -/
theorem pure {r : β} (h : P r b) : Makes (pure r : Building α β) b P :=
  ⟨.refl, fun _ hs => Except.ok.inj hs ▸ h⟩

/-- A step that does not look at the builder leaves it as it is. -/
theorem lift {e : Except Error β} (h : ∀ r, e = .ok r → P r b) :
    Makes (liftM e : Building α β) b P := ⟨.refl, h⟩

/-- A failure changes nothing. -/
theorem throw {e : Error} : Makes (throw e : Building α β) b P := ⟨.refl, fun _ h => nomatch h⟩

/-- **One step after the other;** the second one is not made if the first one fails. -/
theorem bind {Q : γ → FormBuilder α → Prop} {x : Building α γ} {f : γ → Building α β}
    (hx : Makes x b Q) (hf : ∀ r b', Q r b' → Makes (f r) b' P) : Makes (x >>= f) b P := by
  obtain ⟨hchanges, hQ⟩ := hx
  rcases hrun : x.run.run b with ⟨r, b'⟩
  have hafter : Building.after x b = b' := congrArg Prod.snd hrun
  have hresult : Building.result x b = r := congrArg Prod.fst hrun
  rw [hafter] at hchanges
  rw [hafter, hresult] at hQ
  cases r with
  | error e =>
    rw [Makes, Building.after, Building.result, InPlace.run_bind_error hrun]
    exact ⟨hchanges, fun _ h => nomatch h⟩
  | ok c =>
    obtain ⟨hrest, hP⟩ := hf c b' (hQ c rfl)
    rw [Makes, Building.after, Building.result, InPlace.run_bind_ok hrun]
    exact ⟨hchanges.trans hrest, hP⟩

/-- A step behind a check. -/
theorem require {condition : Bool} {cause : Error} {f : Unit → Building α β}
    (h : condition = true → Makes (f ()) b P) :
    Makes ((liftM (Galerkin.require condition cause) : Building α Unit) >>= f) b P := by
  refine bind (Q := fun _ b' => b' = b ∧ condition = true) (lift fun _ hr => ⟨rfl, ?_⟩) ?_
  · exact require_eq_ok_iff.mp hr
  · rintro _ _ ⟨rfl, hc⟩
    exact h hc

/-- The current builder. -/
theorem get {f : FormBuilder α → Building α β} (h : Makes (f b) b P) :
    Makes ((MonadState.get : Building α (FormBuilder α)) >>= f) b P := by
  refine bind (Q := fun r b' => r = b ∧ b' = b) ⟨.refl, ?_⟩ ?_
  · intro r hr
    exact ⟨(Except.ok.inj hr).symm, rfl⟩
  · rintro _ _ ⟨rfl, rfl⟩
    exact h

/-- One change. -/
theorem set {b' : FormBuilder α} (h : b.Change b') {P : PUnit → FormBuilder α → Prop}
    (hP : P ⟨⟩ b') : Makes (MonadStateOf.set b' : Building α PUnit) b P :=
  ⟨.single h, fun _ _ => hP⟩

/-- **A traversal** whose steps keep `I`, and whose results have a property. -/
theorem mapM {I : FormBuilder α → Prop} {R : β → Prop} {f : γ → Building α β} {xs : List γ}
    (hb : I b) (step : ∀ x ∈ xs, ∀ b', I b' → Makes (f x) b' fun r b'' => I b'' ∧ R r) :
    Makes (xs.mapM f) b fun rs b' => I b' ∧ ∀ r ∈ rs, R r := by
  induction xs generalizing b with
  | nil =>
    rw [List.mapM_nil]
    exact pure ⟨hb, by simp⟩
  | cons x xs ih =>
    rw [List.mapM_cons]
    refine (step x (List.mem_cons_self ..) b hb).bind ?_
    rintro r c ⟨hc, hr⟩
    refine (ih hc fun y hy => step y (List.mem_cons_of_mem _ hy)).bind ?_
    rintro rs d ⟨hd, hrs⟩
    exact pure ⟨hd, List.forall_mem_cons.mpr ⟨hr, hrs⟩⟩

/-- **A fold** whose steps have a property of their results from one that has it. -/
theorem foldlM {R : β → Prop} {f : β → γ → Building α β} {xs : List γ} {r : β} (hr : R r)
    (step : ∀ x ∈ xs, ∀ r b', R r → Makes (f r x) b' fun s _ => R s) :
    Makes (xs.foldlM f r) b fun s _ => R s := by
  induction xs generalizing r b with
  | nil => exact pure hr
  | cons x xs ih =>
    rw [List.foldlM_cons]
    refine (step x (List.mem_cons_self ..) r b hr).bind fun s c hs => ?_
    exact ih hs fun y hy => step y (List.mem_cons_of_mem _ hy)

/-- **A loop** whose steps make changes only. -/
theorem forM {f : γ → Building α PUnit} {xs : List γ}
    (step : ∀ x ∈ xs, ∀ b', Makes (f x) b' fun _ _ => True) : Makes (xs.forM f) b fun _ _ => True := by
  induction xs generalizing b with
  | nil => exact pure trivial
  | cons x xs ih =>
    refine (step x (List.mem_cons_self ..) b).bind fun _ _ _ => ?_
    exact ih fun y hy => step y (List.mem_cons_of_mem _ hy)

end Makes

/-! ## (3) Calls -/

namespace FormBuilder

variable {b : FormBuilder α}

/-- The expression that stands for a field is made by an operation. -/
theorem built_of_reference {f : FieldVariable α} {e : Expr α} (h : reference f = .ok e) : e.Built :=
  .field h

/-- **Registering a field** adds it if everything that is checked of it holds. -/
theorem register_makes {name : String} {shape : Shape} {symmetric : Bool}
    {definition : FieldDefinition α} (hshape : shape.Declarable symmetric)
    (hbuilt : definition.expression.Built)
    (hinput : ∀ function, definition = .input function → shape.isScalar = true → shape.size = 1) :
    Makes (register name shape symmetric definition) b fun e _ => e.Built := by
  unfold register
  refine .require fun hname => .require fun hreserved => .get ?_
  split
  · exact .require fun _ => .lift fun _ => built_of_reference
  · rename_i hfresh
    refine (Makes.lift (P := fun _ b' =>
      b' = b ∧ b.checkDefinition name shape definition = .ok ()) fun _ h => ⟨rfl, h⟩).bind ?_
    rintro _ _ ⟨rfl, hdefinition⟩
    rw [Bool.and_eq_true, bne_iff_ne, bne_iff_ne] at hreserved
    refine (Makes.set (P := fun _ _ => True) (.field ⟨rfl, ?_, hreserved.1, hreserved.2, hfresh,
      hshape, hdefinition, hbuilt, hinput⟩) trivial).bind fun _ _ _ => .lift fun _ => built_of_reference
    rintro rfl
    cases hname

/-- Registering a scalar adds it if it is accepted. -/
theorem registerScalar_makes {name : String} {definition : FieldDefinition α}
    (hbuilt : definition.expression.Built) :
    Makes (registerScalar name definition) b fun e _ => e.Built :=
  register_makes ⟨Nat.one_pos, Nat.one_pos, fun h => nomatch h⟩ hbuilt fun _ _ _ => Shape.size_scalar

/-- Registering a vector adds it if it is accepted. -/
theorem registerVector_makes {name : String} {size : Nat} {definition : FieldDefinition α}
    (hbuilt : definition.expression.Built) :
    Makes (registerVector name size definition) b fun e _ => e.Built := by
  unfold registerVector
  refine .require fun hsize => register_makes ⟨?_, Nat.one_pos, fun h => nomatch h⟩ hbuilt
    fun _ _ h => nomatch h
  exact of_decide_eq_true hsize

/-- Registering a matrix adds it if it is accepted. -/
theorem registerMatrix_makes {name : String} {rows cols : Nat} {symmetric : Bool}
    {definition : FieldDefinition α} (hbuilt : definition.expression.Built) :
    Makes (registerMatrix name rows cols symmetric definition) b fun e _ => e.Built := by
  unfold registerMatrix
  refine .require fun hpos => .require fun hsquare => register_makes ⟨?_, ?_, ?_⟩ hbuilt fun _ _ h => nomatch h
  · exact (of_decide_eq_true (Bool.and_eq_true .. ▸ hpos : _ ∧ _).1)
  · exact (of_decide_eq_true (Bool.and_eq_true .. ▸ hpos : _ ∧ _).2)
  · rintro rfl
    exact ⟨rfl, eq_of_beq hsquare⟩

/-- Registering a precomputed field adds it if it is accepted. -/
theorem precompute_makes {name : String} {definition : Operand α} {symmetric : Bool}
    (hbuilt : definition.Built) :
    Makes (precompute name definition symmetric) b fun e _ => e.Built := by
  unfold precompute
  refine (Makes.lift (P := fun _ _ => True) fun _ _ => trivial).bind fun e _ _ => ?_
  dsimp only
  split
  · exact registerMatrix_makes hbuilt
  · refine .require fun _ => ?_
    split
    · exact registerVector_makes hbuilt
    · exact registerScalar_makes hbuilt

/-- Defining a local field adds it if it is accepted. -/
theorem defineLocal_makes {name : String} {definition : Operand α} (hbuilt : definition.Built) :
    Makes (defineLocal name definition) b fun e _ => e.Built := by
  unfold defineLocal
  refine (Makes.lift (P := fun e _ => definition = some e) ?_).bind fun e _ he => ?_
  · intro e he
    cases definition with
    | none => cases he
    | some x => exact congrArg some (Except.ok.inj he)
  · exact register_makes (hbuilt e he).wellShaped.declarable hbuilt fun _ h => nomatch h

/-- A geometry field has no expression. -/
theorem builtin_built (which : BuiltinField) :
    (FieldDefinition.builtin which : FieldDefinition α).expression.Built := fun _ h => nomatch h

/-- Asking for the transposed inverse Jacobian registers it. -/
theorem inverseTransposed_makes :
    Makes (inverseTransposed : Building α (Expr α)) b fun e _ => e.Built := by
  unfold inverseTransposed
  exact .get (registerMatrix_makes (builtin_built _))

/-- A request for basis functions is a change. -/
theorem note_makes {change : FormRequirements → FormRequirements}
    (h : b.requirements.Notes (change b.requirements)) :
    Makes (note change) b fun _ b' => b'.requirements = change b.requirements :=
  ⟨.single (.note h), fun _ _ => rfl⟩

/-- Larger orders never lower the highest one. -/
theorem le_maxDeriv_note (r : FormRequirements) (orders : List Nat) :
    r.maxDeriv ≤ (r.note orders).maxDeriv := by
  unfold FormRequirements.note
  induction orders generalizing r with
  | nil => exact Nat.le_refl _
  | cons d orders ih => exact Nat.le_trans (Nat.le_max_left ..) (ih { r with maxDeriv := max r.maxDeriv d })

/-- Orders may always be noted. -/
theorem notes_note (r : FormRequirements) (orders : List Nat) : r.Notes (r.note orders) where
  jacobian := rfl
  weight := rfl
  consistent h := ⟨h.physical, fun hp => Nat.le_trans (h.parametric hp) (le_maxDeriv_note r orders)⟩

/-- Asking for a basis function is noted. -/
theorem basisValue_makes {basis : String} :
    Makes (basisValue basis : Building α (Expr α)) b fun e _ => e.Built := by
  unfold basisValue
  refine .get ((Makes.lift (P := fun _ b' => b' = b) fun _ _ => rfl).bind ?_)
  rintro _ _ rfl
  refine (note_makes ⟨rfl, rfl, fun h => ⟨h.physical, h.parametric⟩⟩).bind fun _ _ _ => .lift ?_
  exact fun _ => .deriv

/-- Asking for a partial derivative is noted. -/
theorem partialDeriv_makes {basis : String} {orders : List Int} :
    Makes (partialDeriv basis orders : Building α (Expr α)) b fun e _ => e.Built := by
  unfold partialDeriv
  refine .get ((Makes.lift (P := fun _ b' => b' = b) fun _ _ => rfl).bind ?_)
  rintro _ _ rfl
  refine .require fun _ => (note_makes (notes_note _ _)).bind fun _ _ _ => .lift ?_
  exact fun _ => .deriv

/-- The components of a gradient are noted one by one, and the gradient stays noted. -/
theorem gradientComponent_makes {basis : String} {dim : Nat} {extra : List Int} {axis : Int}
    (hb : b.requirements.parametricGradient = true) :
    Makes (gradientComponent basis dim extra axis : Building α (Operand α)) b fun o b' =>
      b'.requirements.parametricGradient = true ∧ o.Built := by
  unfold gradientComponent
  refine (Makes.lift (P := fun _ b' => b' = b) fun _ _ => rfl).bind ?_
  rintro unit _ rfl
  refine .require fun _ => ?_
  dsimp only
  refine (note_makes (notes_note _ _)).bind fun _ b' hb' => ?_
  refine (Makes.lift (P := fun e c => c = b' ∧ e.Built) fun e he => ⟨rfl, .deriv he⟩).bind ?_
  rintro e _ ⟨rfl, he⟩
  refine .pure ⟨by rw [hb']; exact hb, ?_⟩
  rintro _ ⟨⟩
  exact he

/-- Asking for a gradient is noted, first derivatives included. -/
theorem gradient_makes {basis : String} {axes extra : List Int} :
    Makes (gradient basis axes extra : Building α (Expr α)) b fun e b' =>
      b'.requirements.parametricGradient = true ∧ e.Built := by
  unfold gradient
  refine .get ((Makes.lift (P := fun _ b' => b' = b) fun _ _ => rfl).bind ?_)
  rintro _ _ rfl
  refine .require fun _ => ?_
  refine (note_makes ⟨rfl, rfl, fun h => ⟨fun _ => rfl, fun _ => Nat.le_max_right ..⟩⟩).bind ?_
  intro _ c hc
  refine (Makes.mapM (I := fun b' => b'.requirements.parametricGradient = true)
    (R := fun o : Operand α => o.Built) (by rw [hc]) fun _ _ _ => gradientComponent_makes).bind ?_
  rintro os d ⟨hd, hos⟩
  exact .lift fun e he => ⟨hd, .vector hos he⟩

/-- Asking for a physical gradient registers the geometry field and notes the gradient. -/
theorem physicalGradient_makes {basis : String} {extra : List Int} :
    Makes (physicalGradient basis extra : Building α (Expr α)) b fun e _ => e.Built := by
  unfold physicalGradient
  refine inverseTransposed_makes.bind fun jacobian b₁ hjacobian => ?_
  refine gradient_makes.bind ?_
  rintro g b₂ ⟨hparametric, hg⟩
  refine (note_makes ⟨rfl, rfl, fun h => ⟨fun _ => hparametric, h.parametric⟩⟩).bind fun _ _ _ => ?_
  exact .lift fun _ => .matmul hjacobian hg

/-- **Adding to a slot** adds what is accepted. -/
theorem addToSlot_makes {slot : Int} {expression : Operand α} (hbuilt : expression.Built) :
    Makes (addToSlot slot expression) b fun _ _ => True := by
  unfold addToSlot
  refine .get ?_
  cases expression with
  | none => exact .throw
  | some e =>
    dsimp only
    refine .require fun hscalar => ?_
    refine (Makes.lift (P := fun _ b' => b' = b ∧ 0 ≤ slot ∧ slot < b.outputSlots) ?_).bind ?_
    · exact fun _ h => ⟨rfl, checkIndex_eq_ok_iff.mp h⟩
    rintro _ c ⟨rfl, hnonneg, hlt⟩
    refine (Makes.lift (P := fun _ b' => b' = c ∧ c.checkReferences false e = .ok ()) ?_).bind ?_
    · exact fun _ h => ⟨rfl, h⟩
    rintro _ _ ⟨rfl, hrefs⟩
    exact .set (.accumulation ⟨hbuilt e rfl, hscalar, hnonneg, hlt, hrefs⟩) trivial

end FormBuilder

/-- **A call on a builder.** -/
inductive BuilderCall (α : Type) where
  | registerScalar (name : String) (definition : FieldDefinition α)
  | registerVector (name : String) (size : Nat) (definition : FieldDefinition α)
  | registerMatrix (name : String) (rows cols : Nat) (symmetric : Bool)
      (definition : FieldDefinition α)
  | precompute (name : String) (definition : Operand α) (symmetric : Bool)
  | inputFunction (name : String) (function : Option (InputFunction α))
  | defineLocal (name : String) (definition : Operand α)
  | quadratureWeight
  | inverseTransposed
  | basisValue (basis : String)
  | partialDeriv (basis : String) (orders : List Int)
  | gradient (basis : String) (axes extra : List Int)
  | physicalGradient (basis : String) (extra : List Int)
  | add (expression : Operand α)
  | addToSlot (slot : Int) (expression : Operand α)

namespace BuilderCall

/-- The expression that is handed to a call, if any. -/
def argument : BuilderCall α → Operand α
  | registerScalar _ definition => definition.expression
  | registerVector _ _ definition => definition.expression
  | registerMatrix _ _ _ _ definition => definition.expression
  | precompute _ definition _ => definition
  | defineLocal _ definition => definition
  | add expression => expression
  | addToSlot _ expression => expression
  | _ => none

/-- The expression a call hands out, if any. -/
def run : BuilderCall α → Building α (Operand α)
  | registerScalar name definition => some <$> FormBuilder.registerScalar name definition
  | registerVector name size definition => some <$> FormBuilder.registerVector name size definition
  | registerMatrix name rows cols symmetric definition =>
    some <$> FormBuilder.registerMatrix name rows cols symmetric definition
  | precompute name definition symmetric => some <$> FormBuilder.precompute name definition symmetric
  | inputFunction name function => some <$> FormBuilder.inputFunction name function
  | defineLocal name definition => some <$> FormBuilder.defineLocal name definition
  | quadratureWeight => some <$> FormBuilder.quadratureWeight
  | inverseTransposed => some <$> FormBuilder.inverseTransposed
  | basisValue basis => some <$> FormBuilder.basisValue basis
  | partialDeriv basis orders => some <$> FormBuilder.partialDeriv basis orders
  | gradient basis axes extra => some <$> FormBuilder.gradient basis axes extra
  | physicalGradient basis extra => some <$> FormBuilder.physicalGradient basis extra
  | add expression => do FormBuilder.add expression; pure none
  | addToSlot slot expression => do FormBuilder.addToSlot slot expression; pure none

/-- **Every call makes changes only,** and hands out expressions that operations make. -/
theorem makes {c : BuilderCall α} (h : c.argument.Built) (b : FormBuilder α) :
    Makes c.run b fun o _ => o.Built := by
  have hsome : ∀ {x : Building α (Expr α)}, Makes x b (fun e _ => e.Built) →
      Makes (some <$> x) b fun o _ => Operand.Built o := by
    intro x hx
    rw [map_eq_pure_bind]
    refine hx.bind fun e _ he => .pure ?_
    rintro _ ⟨⟩
    exact he
  have hnone : ∀ {x : Building α Unit}, Makes x b (fun _ _ => True) →
      Makes (do x; pure none) b fun o _ => Operand.Built (α := α) o :=
    fun hx => hx.bind fun _ _ _ => .pure fun _ h => nomatch h
  cases c with
  | registerScalar => exact hsome (FormBuilder.registerScalar_makes h)
  | registerVector => exact hsome (FormBuilder.registerVector_makes h)
  | registerMatrix => exact hsome (FormBuilder.registerMatrix_makes h)
  | precompute => exact hsome (FormBuilder.precompute_makes h)
  | inputFunction => exact hsome (FormBuilder.registerScalar_makes fun _ h => nomatch h)
  | defineLocal => exact hsome (FormBuilder.defineLocal_makes h)
  | quadratureWeight =>
    exact hsome (FormBuilder.registerScalar_makes (FormBuilder.builtin_built _))
  | inverseTransposed => exact hsome FormBuilder.inverseTransposed_makes
  | basisValue => exact hsome FormBuilder.basisValue_makes
  | partialDeriv => exact hsome FormBuilder.partialDeriv_makes
  | gradient => exact hsome (FormBuilder.gradient_makes.mono fun _ _ h => h.2)
  | physicalGradient => exact hsome FormBuilder.physicalGradient_makes
  | add => exact hnone (FormBuilder.addToSlot_makes h)
  | addToSlot => exact hnone (FormBuilder.addToSlot_makes h)

end BuilderCall

end Galerkin
