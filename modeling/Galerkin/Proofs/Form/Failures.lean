import Galerkin.Kernel.Compiled
import Galerkin.Proofs.Exact
import Galerkin.Proofs.Form.Coherence
import Galerkin.Proofs.Form.Runs

/-! # Calls that fail

A call that fails keeps the changes it made before. Most calls check everything first, so they leave no trace.
Three do not: a partial derivative notes its orders before it looks at their signs, a gradient is noted before
its components are looked at one by one, and a physical gradient registers the geometry field before anything
is said about the basis function.

* **`Ends`** — what holds after a step, whether or not it succeeds;
* **`FormBuilder.NotesGradient`**, **`BuilderCall.LeavesTrace`** — what a failed call leaves behind;
* **`FormBuilder.register_ends`**, **`FormBuilder.gradient_ends`**, **`FormBuilder.physicalGradient_ends`** — the
  ends of the calls;
* **`FormBuilder.Reachable.failed_calls`** — a failed call changes the builder exactly if it leaves a trace. -/

namespace Galerkin

variable {α β γ : Type}

/-! ## (1) Ends of a step -/

/-- **What holds after a step from a builder:** `P` of a result and the builder after it, and `Q` of the
builder after a failure. -/
def Ends (x : Building α β) (b : FormBuilder α) (P : β → FormBuilder α → Prop) (Q : FormBuilder α → Prop) :
    Prop :=
  (∀ r, Building.result x b = .ok r → P r (Building.after x b)) ∧
    ∀ e, Building.result x b = .error e → Q (Building.after x b)

namespace Ends

variable {b : FormBuilder α} {P : β → FormBuilder α → Prop} {Q : FormBuilder α → Prop}

/-- Weaker properties. -/
theorem mono {P' : β → FormBuilder α → Prop} {Q' : FormBuilder α → Prop} {x : Building α β}
    (h : Ends x b P' Q') (hP : ∀ r b', P' r b' → P r b') (hQ : ∀ b', Q' b' → Q b') : Ends x b P Q :=
  ⟨fun r hr => hP r _ (h.1 r hr), fun e he => hQ _ (h.2 e he)⟩

/-- A result alone changes nothing. -/
theorem pure {r : β} (h : P r b) : Ends (pure r : Building α β) b P Q :=
  ⟨fun _ hs => Except.ok.inj hs ▸ h, fun _ he => nomatch he⟩

/-- A step that does not look at the builder leaves it as it is. -/
theorem lift {x : Except Error β} (hP : ∀ r, x = .ok r → P r b) (hQ : ∀ e, x = .error e → Q b) :
    Ends (liftM x : Building α β) b P Q := ⟨hP, hQ⟩

/-- Such a step, if it succeeds. -/
theorem lift_ok {x : Except Error β} {r : β} (h : x = .ok r) (hP : P r b) :
    Ends (liftM x : Building α β) b P Q := by
  subst h
  exact ⟨fun _ hs => Except.ok.inj hs ▸ hP, fun _ he => nomatch he⟩

/-- A failure changes nothing. -/
theorem throw {e : Error} (hQ : Q b) : Ends (throw e : Building α β) b P Q :=
  ⟨fun _ hr => (nomatch hr), fun _ _ => hQ⟩

/-- **One step after the other;** after a failure of the first one nothing else happens. -/
theorem bind {R : γ → FormBuilder α → Prop} {x : Building α γ} {f : γ → Building α β} (hx : Ends x b R Q)
    (hf : ∀ r b', R r b' → Ends (f r) b' P Q) : Ends (x >>= f) b P Q := by
  obtain ⟨hR, hQ⟩ := hx
  rcases hrun : x.run.run b with ⟨r, b'⟩
  have hafter : Building.after x b = b' := congrArg Prod.snd hrun
  have hresult : Building.result x b = r := congrArg Prod.fst hrun
  rw [hafter, hresult] at hR hQ
  cases r with
  | error e =>
    rw [Ends, Building.after, Building.result, InPlace.run_bind_error hrun]
    refine ⟨fun r hr => ?_, fun _ _ => hQ e rfl⟩
    cases hr
  | ok c =>
    rw [Ends, Building.after, Building.result, InPlace.run_bind_ok hrun]
    exact hf c b' (hR c rfl)

/-- A step behind a check. -/
theorem require {condition : Bool} {cause : Error} {f : Unit → Building α β}
    (h : condition = true → Ends (f ()) b P Q) (hQ : ¬condition = true → Q b) :
    Ends ((liftM (Galerkin.require condition cause) : Building α Unit) >>= f) b P Q := by
  refine bind (R := fun _ b' => b' = b ∧ condition = true) (lift (fun _ hr => ⟨rfl, ?_⟩) fun e he => ?_) ?_
  · exact require_eq_ok_iff.mp hr
  · refine hQ fun hc => ?_
    rw [require_eq_ok_iff.mpr hc] at he
    cases he
  · rintro _ _ ⟨rfl, hc⟩
    exact h hc

/-- The current builder. -/
theorem get {f : FormBuilder α → Building α β} (h : Ends (f b) b P Q) :
    Ends ((MonadState.get : Building α (FormBuilder α)) >>= f) b P Q := by
  refine bind (R := fun r b' => r = b ∧ b' = b) ⟨?_, fun _ he => nomatch he⟩ ?_
  · intro r hr
    exact ⟨(Except.ok.inj hr).symm, rfl⟩
  · rintro _ _ ⟨rfl, rfl⟩
    exact h

/-- **A look-up of a basis function.** Where the function is missing, nothing has changed yet. -/
theorem checkBasis {basis : String} {f : FormBuilder α → Building α β}
    (h : b.checkBasis basis = .ok () → Ends (f b) b P Q) (hQ : b.checkBasis basis ≠ .ok () → Q b) :
    Ends ((MonadState.get : Building α (FormBuilder α)) >>= fun b' =>
      (liftM (b'.checkBasis basis) : Building α Unit) >>= fun _ => f b') b P Q := by
  refine get (bind (R := fun _ b' => b' = b ∧ b.checkBasis basis = .ok ())
    (lift (fun _ hok => ⟨rfl, hok⟩) fun e he => hQ fun hok => ?_) ?_)
  · rw [hok] at he
    cases he
  · rintro _ _ ⟨rfl, hbasis⟩
    exact h hbasis

/-- A new builder. -/
theorem set {b' : FormBuilder α} {P : PUnit → FormBuilder α → Prop} (h : P ⟨⟩ b') :
    Ends (MonadStateOf.set b' : Building α PUnit) b P Q := ⟨fun _ _ => h, fun _ he => nomatch he⟩

/-- A request is noted. -/
theorem note {change : FormRequirements → FormRequirements} {P : Unit → FormBuilder α → Prop}
    (h : P () { b with requirements := change b.requirements }) : Ends (FormBuilder.note change) b P Q :=
  ⟨fun _ _ => h, fun _ he => nomatch he⟩

/-- The result of a step is handed on. -/
theorem map {x : Building α γ} {f : γ → β} (h : Ends x b (fun r b' => P (f r) b') Q) :
    Ends (f <$> x) b P Q := by
  rw [map_eq_pure_bind]
  exact h.bind fun _ _ hr => pure hr

/-- **What a step does not change when it fails.** -/
theorem after_of_error {x : Building α β} (h : Ends x b P Q) {e : Error}
    (he : Building.result x b = .error e) : Q (Building.after x b) := h.2 e he

end Ends

/-! ## (2) Calls that check first -/

namespace FormBuilder

variable {b : FormBuilder α}

/-- **Registering a field** hands out its expression, and fails without a trace. A geometry field that passes
the checks is refused only if its name stands for something else. -/
theorem register_ends {name : String} {shape : Shape} {symmetric : Bool} {definition : FieldDefinition α}
    (hshape : shape.Declarable symmetric) :
    Ends (register name shape symmetric definition) b
      (fun e b' => e = .field name shape symmetric ∧
        match b.find? name with
        | some f => repeats f shape symmetric definition = true ∧ b' = b
        | none => b' = { b with
            fields := b.fields ++ [⟨b.fields.length, name, shape, symmetric, definition⟩]
            requirements := noteDefinition b.requirements definition })
      (fun b' => b' = b ∧ (AllowedName name → b.checkDefinition name shape definition = .ok () →
        ∃ f, b.find? name = some f ∧ ¬repeats f shape symmetric definition = true)) := by
  unfold register
  refine .require (fun hname => .require (fun _ => .get ?_) fun h => ?_) fun h => ?_
  · have hname : name ≠ "" := by
      rintro rfl
      cases hname
    cases hfound : b.find? name with
    | some f =>
      refine .require (fun hrepeats => ?_) fun h => ⟨rfl, fun _ _ => ⟨f, rfl, h⟩⟩
      -- A field that is asked for again has the name and the shape of the request.
      have hf : f.name = name := (mem_of_find?_key hfound).2
      have hsame : f.shape = shape ∧ f.symmetric = symmetric := by
        unfold repeats at hrepeats
        split at hrepeats
        · split at hrepeats
          · rw [Bool.and_eq_true, Bool.and_eq_true, beq_iff_eq, beq_iff_eq, beq_iff_eq] at hrepeats
            exact ⟨hrepeats.1.2, hrepeats.2⟩
          · cases hrepeats
        · cases hrepeats
      refine .lift_ok (r := .field name shape symmetric) ?_ ⟨rfl, hrepeats, rfl⟩
      rw [reference, hf, hsame.1, hsame.2]
      exact Expr.ofField_ok hname hshape
    | none =>
      refine Ends.bind (R := fun _ b' => b' = b) (.lift (fun _ _ => rfl) fun e he => ⟨rfl, ?_⟩) ?_
      · intro _ hok
        rw [hok] at he
        cases he
      · rintro _ c rfl
        refine Ends.bind (R := fun _ b' => b' = { c with
            fields := c.fields ++ [⟨c.fields.length, name, shape, symmetric, definition⟩]
            requirements := noteDefinition c.requirements definition }) (.set rfl) ?_
        rintro _ _ rfl
        exact .lift_ok (Expr.ofField_ok hname hshape) ⟨rfl, rfl⟩
  · refine ⟨rfl, fun hallowed => absurd ?_ h⟩
    rw [Bool.and_eq_true, bne_iff_ne, bne_iff_ne]
    exact hallowed.2
  · refine ⟨rfl, fun hallowed => absurd ?_ h⟩
    simpa using hallowed.1

/-- A call that registers a field fails without a trace. -/
theorem register_keeps {name : String} {shape : Shape} {symmetric : Bool} {definition : FieldDefinition α}
    (hshape : shape.Declarable symmetric) :
    Ends (register name shape symmetric definition) b (fun _ _ => True) (· = b) :=
  (register_ends hshape).mono (fun _ _ _ => trivial) fun _ h => h.1

/-- Registering a scalar does. -/
theorem registerScalar_keeps {name : String} {definition : FieldDefinition α} :
    Ends (registerScalar name definition) b (fun _ _ => True) (· = b) := register_keeps declarable_scalar

/-- Registering a vector does. -/
theorem registerVector_keeps {name : String} {size : Nat} {definition : FieldDefinition α} :
    Ends (registerVector name size definition) b (fun _ _ => True) (· = b) :=
  .require (fun hsize => register_keeps (declarable_vector (of_decide_eq_true hsize))) fun _ => rfl

/-- Registering a matrix does. -/
theorem registerMatrix_keeps {name : String} {rows cols : Nat} {symmetric : Bool}
    {definition : FieldDefinition α} :
    Ends (registerMatrix name rows cols symmetric definition) b (fun _ _ => True) (· = b) := by
  refine .require (fun hpos => .require (fun hsquare => ?_) fun _ => rfl) fun _ => rfl
  rw [Bool.and_eq_true, decide_eq_true_iff, decide_eq_true_iff] at hpos
  refine register_keeps ⟨hpos.1, hpos.2, ?_⟩
  rintro rfl
  exact ⟨rfl, eq_of_beq hsquare⟩

/-- Registering a precomputed field does. -/
theorem precompute_keeps {name : String} {definition : Operand α} {symmetric : Bool} :
    Ends (precompute name definition symmetric) b (fun _ _ => True) (· = b) := by
  refine Ends.bind (R := fun _ b' => b' = b) (.lift (fun _ _ => rfl) fun _ _ => rfl) ?_
  rintro e c rfl
  dsimp only
  split
  · exact registerMatrix_keeps
  · refine .require (fun _ => ?_) fun _ => rfl
    split
    · exact registerVector_keeps
    · exact registerScalar_keeps

/-- Defining a local field does. -/
theorem defineLocal_keeps {name : String} {definition : Operand α} (hbuilt : definition.Built) :
    Ends (defineLocal name definition) b (fun _ _ => True) (· = b) := by
  refine Ends.bind (R := fun e b' => b' = b ∧ definition = some e) (.lift ?_ fun _ _ => rfl) ?_
  · intro e he
    cases definition with
    | none => cases he
    | some x => exact ⟨rfl, congrArg some (Except.ok.inj he)⟩
  · rintro e c ⟨rfl, he⟩
    exact register_keeps (hbuilt e he).wellShaped.declarable

/-- **Adding to a slot** checks everything first. -/
theorem addToSlot_keeps {slot : Int} {expression : Operand α} :
    Ends (addToSlot slot expression) b (fun _ _ => True) (· = b) := by
  refine .get ?_
  cases expression with
  | none => exact .throw rfl
  | some e =>
    refine .require (fun _ => ?_) fun _ => rfl
    refine Ends.bind (R := fun _ b' => b' = b) (.lift (fun _ _ => rfl) fun _ _ => rfl) ?_
    rintro _ c rfl
    refine Ends.bind (R := fun _ b' => b' = c) (.lift (fun _ _ => rfl) fun _ _ => rfl) ?_
    rintro _ _ rfl
    exact .set trivial

/-- **Asking for a basis function** notes it last: what is asked for then cannot fail. -/
theorem basisValue_keeps {basis : String} (hdim : 1 ≤ b.dim) :
    Ends (basisValue basis) b (fun _ _ => True) (· = b) := by
  refine .checkBasis (fun hbasis => ?_) fun _ => rfl
  refine Ends.bind (R := fun _ _ => True) (.note trivial) fun _ d _ => ?_
  have horders : List.replicate b.dim (0 : Int) = (List.replicate b.dim 0).map Int.ofNat := by
    rw [List.map_replicate]
    rfl
  rw [horders]
  refine .lift_ok (Expr.ofDeriv_ok (ne_empty_of_checkBasis hbasis) ?_) trivial
  rw [Ne, List.replicate_eq_nil_iff]
  exact Nat.ne_of_gt hdim

/-! ## (3) Calls that note before they check -/

/-- The requirements after some orders are noted are the former ones if none of them is higher. -/
theorem note_eq_self_iff {r : FormRequirements} {orders : List Nat} :
    r.note orders = r ↔ ∀ d ∈ orders, d ≤ r.maxDeriv := by
  constructor
  · intro h d hd
    have hle : d ≤ (r.note orders).maxDeriv := le_foldl_of_mem Nat.le_max_left (Nat.le_max_right · d) hd _
    rwa [h] at hle
  · intro h
    have hmax : orders.foldl max r.maxDeriv = r.maxDeriv := by
      induction orders with
      | nil => rfl
      | cons d orders ih =>
        obtain ⟨hd, h⟩ := List.forall_mem_cons.mp h
        rw [List.foldl_cons, Nat.max_eq_left hd, ih h]
    rw [FormRequirements.note, hmax]

/-- Orders that are noted one after the other. -/
theorem note_append (r : FormRequirements) (xs ys : List Nat) : r.note (xs ++ ys) = (r.note xs).note ys := by
  rw [FormRequirements.note, List.foldl_append]
  rfl

/-- The builder after a partial derivative that fails. -/
def partialDerivRest (b : FormBuilder α) (basis : String) (orders : List Int) : FormBuilder α :=
  if b.checkBasis basis = .ok () ∧ orders.length = b.dim then
    { b with requirements := b.requirements.note (orders.map Int.toNat) }
  else b

/-- **A partial derivative** is noted before the signs of its orders are looked at. -/
theorem partialDeriv_ends {basis : String} {orders : List Int} :
    Ends (partialDeriv basis orders) b (fun _ _ => True) (· = b.partialDerivRest basis orders) := by
  unfold partialDerivRest
  refine .checkBasis (fun hbasis => .require (fun hlength => ?_) fun h => ?_) fun h => ?_
  · rw [if_pos ⟨hbasis, eq_of_beq hlength⟩]
    refine Ends.bind (R := fun _ b' => b' =
      { b with requirements := b.requirements.note (orders.map Int.toNat) }) (.note rfl) ?_
    rintro _ _ rfl
    exact .lift (fun _ _ => trivial) fun _ _ => rfl
  · rw [if_neg fun hboth => h (beq_iff_eq.mpr hboth.2)]
  · rw [if_neg fun hboth => h hboth.1]

/-- The axes of a gradient: those asked for, or all if none is. -/
def gradientAxes (dim : Nat) (axes : List Int) : List Int :=
  if axes.isEmpty then (List.range dim).map Int.ofNat else axes

/-- Whether a number stands for an axis. A negative one counts from the end. -/
def hasAxis (dim : Nat) (axis : Int) : Bool := decide (-(dim : Int) ≤ axis) && decide (axis < dim)

/-- One along an axis, and zero along the others. -/
def unitOrders (dim : Nat) (axis : Int) : List Nat :=
  (List.range dim).map fun (k : Nat) => if (k : Int) = (if axis < 0 then axis + dim else axis) then 1 else 0

/-- The orders of a component of a gradient: one along its axis, and the additional ones. -/
def componentOrders (dim : Nat) (extra : List Int) (axis : Int) : List Nat :=
  if extra.isEmpty then unitOrders dim axis
  else List.zipWith (fun (n : Nat) (d : Int) => n + d.toNat) (unitOrders dim axis) extra

/-- **The axes that a gradient notes** before it fails: those before the first number that stands for none, and
none at all if an additional order is negative. -/
def notedAxes (dim : Nat) (extra axes : List Int) : List Int :=
  if extra.all fun d => decide (0 ≤ d) then axes.takeWhile (hasAxis dim) else []

/-- The orders of their components. -/
def notedOrders (dim : Nat) (extra axes : List Int) : List Nat :=
  (notedAxes dim extra axes).flatMap (componentOrders dim extra)

/-- The requirements after a gradient is noted as such. -/
def noteGradient (r : FormRequirements) : FormRequirements :=
  { r with parametricGradient := true, maxDeriv := max r.maxDeriv 1 }

/-- The builder after a gradient that fails. -/
def gradientRest (b : FormBuilder α) (basis : String) (axes extra : List Int) : FormBuilder α :=
  if b.checkBasis basis = .ok () ∧ (extra.isEmpty || extra.length == b.dim) = true then
    let orders := notedOrders b.dim extra (gradientAxes b.dim axes)
    { b with requirements := (noteGradient b.requirements).note orders }
  else b

section Gradients

variable {basis : String} {dim : Nat} {extra axes : List Int} {axis : Int}

/-- A component has an order for each axis. -/
theorem componentOrders_ne_nil (hdim : 1 ≤ dim) (hextra : (extra.isEmpty || extra.length == dim) = true) :
    componentOrders dim extra axis ≠ [] := by
  have hlength : (unitOrders dim axis).length = dim := by
    rw [unitOrders, List.length_map, List.length_range]
  rw [← List.length_pos_iff, componentOrders]
  cases hempty : extra.isEmpty with
  | true =>
    rw [if_pos rfl, hlength]
    exact hdim
  | false =>
    rw [hempty, Bool.false_or, beq_iff_eq] at hextra
    rw [if_neg Bool.false_ne_true, List.length_zipWith, hlength, hextra, Nat.min_self]
    exact hdim

/-- **The orders along an axis,** if the number stands for one. -/
theorem unitOrder_eq_ok_iff {orders : List Nat} :
    unitOrder dim axis = .ok orders ↔ hasAxis dim axis = true ∧ unitOrders dim axis = orders := by
  have hrange : (decide (0 ≤ if axis < 0 then axis + (dim : Int) else axis) &&
      decide ((if axis < 0 then axis + (dim : Int) else axis) < dim)) = true ↔ hasAxis dim axis = true := by
    rw [hasAxis, Bool.and_eq_true, Bool.and_eq_true]
    simp only [decide_eq_true_iff]
    split <;> omega
  rw [unitOrder, require_bind_eq_ok_iff, hrange]
  exact and_congr_right fun _ => ⟨Except.ok.inj, congrArg Except.ok⟩

/-- **A component of a gradient** is noted once its axis and the additional orders are found to be right, and
then it cannot fail any more. -/
theorem gradientComponent_ends (hbasis : basis ≠ "") (hdim : 1 ≤ dim)
    (hextra : (extra.isEmpty || extra.length == dim) = true) :
    Ends (gradientComponent basis dim extra axis) b
      (fun o b' => hasAxis dim axis = true ∧ (extra.all fun d => decide (0 ≤ d)) = true ∧
        (∃ e : Expr α, o = some e ∧ e.shape.isScalar = true) ∧
        b' = { b with requirements := b.requirements.note (componentOrders dim extra axis) })
      (fun b' => b' = b ∧ (hasAxis dim axis = true → ¬(extra.all fun d => decide (0 ≤ d)) = true)) := by
  unfold gradientComponent
  refine Ends.bind (R := fun unit b' => b' = b ∧ hasAxis dim axis = true ∧ unitOrders dim axis = unit)
    (.lift (fun unit h => ⟨rfl, unitOrder_eq_ok_iff.mp h⟩) fun e he => ⟨rfl, fun haxis => ?_⟩) ?_
  · rw [unitOrder_eq_ok_iff.mpr ⟨haxis, rfl⟩] at he
    cases he
  · rintro _ c ⟨rfl, haxis, rfl⟩
    refine .require (fun hnonneg => ?_) fun h => ⟨rfl, fun _ => h⟩
    refine Ends.bind (R := fun _ b' => b' =
      { c with requirements := c.requirements.note (componentOrders dim extra axis) }) (.note rfl) ?_
    rintro _ d rfl
    refine Ends.bind (R := fun e b' => e.shape.isScalar = true ∧ b' =
      { c with requirements := c.requirements.note (componentOrders dim extra axis) })
        (.lift_ok (Expr.ofDeriv_ok hbasis (componentOrders_ne_nil hdim hextra)) ⟨rfl, rfl⟩) ?_
    rintro e _ ⟨he, rfl⟩
    exact .pure ⟨haxis, hnonneg, ⟨e, rfl, he⟩, rfl⟩

/-- **The components of a gradient** are noted one by one up to the first that fails. -/
theorem components_ends (hbasis : basis ≠ "") (hdim : 1 ≤ dim)
    (hextra : (extra.isEmpty || extra.length == dim) = true) :
    Ends (axes.mapM (gradientComponent basis dim extra)) b
      (fun os _ => ∃ es : List (Expr α), os = es.map some ∧ es.length = axes.length ∧
        ∀ e ∈ es, e.shape.isScalar = true)
      (fun b' => b' = { b with requirements := b.requirements.note (notedOrders dim extra axes) }) := by
  induction axes generalizing b with
  | nil =>
    rw [List.mapM_nil]
    exact .pure ⟨[], rfl, rfl, fun _ he => nomatch he⟩
  | cons axis axes ih =>
    rw [List.mapM_cons]
    refine Ends.bind ((gradientComponent_ends hbasis hdim hextra).mono (fun _ _ h => h) ?_) ?_
    · -- Nothing is noted of the first component that fails.
      rintro b' ⟨rfl, hreason⟩
      have hnone : notedOrders dim extra (axis :: axes) = [] := by
        unfold notedOrders notedAxes
        split
        · rw [List.takeWhile_cons_of_neg fun haxis => hreason haxis ‹_›, List.flatMap_nil]
        · rfl
      rw [hnone]
      rfl
    · rintro o b' ⟨haxis, hnonneg, ⟨e, rfl, he⟩, rfl⟩
      have hnoted : notedOrders dim extra (axis :: axes) =
          componentOrders dim extra axis ++ notedOrders dim extra axes := by
        rw [notedOrders, notedOrders, notedAxes, notedAxes, if_pos hnonneg, if_pos hnonneg,
          List.takeWhile_cons_of_pos haxis, List.flatMap_cons]
      refine Ends.bind (ih.mono (fun _ _ h => h) ?_) ?_
      · rintro b' rfl
        rw [hnoted, note_append]
      · rintro _ _ ⟨es, rfl, hlength, hes⟩
        exact .pure ⟨e :: es, rfl, congrArg (· + 1) hlength, List.forall_mem_cons.mpr ⟨he, hes⟩⟩

/-- **A gradient** is noted as such before its components are. -/
theorem gradient_ends (hdim : 1 ≤ b.dim) :
    Ends (gradient basis axes extra) b (fun e _ => e.shape = .vector (gradientAxes b.dim axes).length)
      (· = b.gradientRest basis axes extra) := by
  unfold gradientRest
  refine .checkBasis (fun hbasis => .require (fun hextra => ?_) fun h => ?_) fun h => ?_
  · have hchecks : b.checkBasis basis = .ok () ∧ (extra.isEmpty || extra.length == b.dim) = true :=
      ⟨hbasis, hextra⟩
    rw [if_pos hchecks]
    refine Ends.bind (R := fun _ b' => b' = { b with requirements := noteGradient b.requirements })
      (.note rfl) ?_
    rintro _ d rfl
    refine Ends.bind (components_ends (ne_empty_of_checkBasis hbasis) hdim hextra) ?_
    rintro _ _ ⟨es, rfl, hlength, hes⟩
    have hne : es ≠ [] := by
      rw [← List.length_pos_iff, hlength]
      change 0 < (gradientAxes b.dim axes).length
      unfold gradientAxes
      split
      · rw [List.length_map, List.length_range]
        exact hdim
      · exact List.length_pos_iff.mpr fun hnil => absurd (List.isEmpty_iff.mpr hnil) ‹_›
    exact .lift_ok (Expr.ofVector_ok hne hes) (congrArg Shape.vector hlength)
  · rw [if_neg fun hboth => h hboth.2]
  · rw [if_neg fun hboth => h hboth.1]

end Gradients

/-- The builder after the transposed inverse Jacobian is registered. -/
def withJacobian (b : FormBuilder α) : FormBuilder α :=
  { b with
    fields := b.fields ++ [jacobianVariable b.fields.length b.dim]
    requirements := noteDefinition b.requirements (.builtin .inverseTransposed : FieldDefinition α) }

/-- Whether a field is the transposed inverse Jacobian, so that it can be asked for again. -/
def IsJacobian (b : FormBuilder α) (f : FieldVariable α) : Prop :=
  repeats f (.matrix b.dim b.dim) false (.builtin .inverseTransposed) = true

instance (b : FormBuilder α) (f : FieldVariable α) : Decidable (b.IsJacobian f) :=
  inferInstanceAs (Decidable (_ = true))

/-- **Asking for the transposed inverse Jacobian** fails if its name stands for something else. -/
theorem inverseTransposed_ends (hdim : 1 ≤ b.dim) :
    Ends inverseTransposed b
      (fun e b' => e.shape = .matrix b.dim b.dim ∧
        match b.find? "JacInvT" with
        | some f => b.IsJacobian f ∧ b' = b
        | none => b' = b.withJacobian)
      (fun b' => b' = b ∧ ∃ f, b.find? "JacInvT" = some f ∧ ¬b.IsJacobian f) := by
  refine .get (.require (fun _ => .require (fun _ => ?_) fun h => absurd ?_ h) fun h => absurd ?_ h)
  · refine (register_ends (declarable_matrix hdim false)).mono ?_ ?_
    · rintro e b' ⟨rfl, hb'⟩
      exact ⟨rfl, hb'⟩
    · rintro b' ⟨rfl, hreason⟩
      exact ⟨rfl, hreason (by decide) rfl⟩
  · rw [beq_self_eq_true, Bool.or_true]
  · rw [decide_eq_true hdim]
    rfl

/-- The builder after a physical gradient that fails. -/
def physicalGradientRest (b : FormBuilder α) (basis : String) (extra : List Int) : FormBuilder α :=
  match b.find? "JacInvT" with
  | some f => if b.IsJacobian f then b.gradientRest basis [] extra else b
  | none => b.withJacobian.gradientRest basis [] extra

/-- **A physical gradient** registers the geometry field first, and then it fails as a gradient does. -/
theorem physicalGradient_ends {basis : String} {extra : List Int} (hdim : 1 ≤ b.dim) :
    Ends (physicalGradient basis extra) b (fun _ _ => True) (· = b.physicalGradientRest basis extra) := by
  -- The product of the Jacobian and the gradient fits.
  have hrest : ∀ (jacobian : Expr α) (c : FormBuilder α), 1 ≤ c.dim →
      jacobian.shape = .matrix c.dim c.dim →
      Ends (do
        let g ← gradient basis [] extra
        note fun r => { r with physicalGradient := true }
        Operand.matmul (some jacobian) (some g) : Building α (Expr α)) c (fun _ _ => True)
          (· = c.gradientRest basis [] extra) := by
    intro jacobian c hc hjacobian
    refine Ends.bind (gradient_ends hc) fun g _ hg => Ends.bind (R := fun _ _ => True) (.note trivial) ?_
    intro _ d _
    refine .lift_ok (Operand.matmul_ok ?_ ?_ ?_) trivial
    · rw [hjacobian]
      rfl
    · rw [hg]
      rfl
    · rw [hjacobian, hg]
      change c.dim = (gradientAxes c.dim []).length
      rw [gradientAxes, if_pos List.isEmpty_nil, List.length_map, List.length_range]
  refine Ends.bind ((inverseTransposed_ends hdim).mono (fun _ _ h => h) ?_) fun jacobian c hc => ?_
  · rintro b' ⟨rfl, f, hfound, hother⟩
    simp only [physicalGradientRest, hfound, if_neg hother]
  · obtain ⟨hjacobian, hc⟩ := hc
    unfold physicalGradientRest
    split at hc
    · obtain ⟨hsame, rfl⟩ := hc
      simp only [if_pos hsame]
      exact hrest jacobian c hdim hjacobian
    · subst hc
      exact hrest jacobian b.withJacobian hdim hjacobian

/-! ## (4) Traces -/

/-- **Whether a gradient that fails has noted something new:** that gradients are needed, or an order of one of
its components. -/
def NotesGradient (b : FormBuilder α) (basis : String) (axes extra : List Int) : Prop :=
  b.checkBasis basis = .ok () ∧ (extra.isEmpty || extra.length == b.dim) = true ∧
    (b.requirements.parametricGradient = false ∨
      ∃ axis ∈ notedAxes b.dim extra (gradientAxes b.dim axes),
        ∃ d ∈ componentOrders b.dim extra axis, b.requirements.maxDeriv < d)

/-- Builders that differ in requirements only. -/
theorem withRequirements_eq_iff {r : FormRequirements} :
    ({ b with requirements := r } : FormBuilder α) = b ↔ r = b.requirements := by
  constructor
  · exact fun h => congrArg FormBuilder.requirements h
  · rintro rfl
    rfl

/-- **A partial derivative that fails changes the builder exactly if it has noted a higher order.** -/
theorem partialDerivRest_eq_iff {basis : String} {orders : List Int} :
    b.partialDerivRest basis orders = b ↔ ¬(b.checkBasis basis = .ok () ∧ orders.length = b.dim ∧
      ∃ d ∈ orders, (b.requirements.maxDeriv : Int) < d) := by
  unfold partialDerivRest
  by_cases hchecks : b.checkBasis basis = .ok () ∧ orders.length = b.dim
  · rw [if_pos hchecks, withRequirements_eq_iff, note_eq_self_iff]
    simp only [hchecks.1, hchecks.2, true_and, List.forall_mem_map, not_exists, not_and, not_lt,
      Int.toNat_le]
  · rw [if_neg hchecks]
    exact iff_of_true rfl fun h => hchecks ⟨h.1, h.2.1⟩

/-- It changes requirements only. -/
theorem partialDerivRest_spec (b : FormBuilder α) (basis : String) (orders : List Int) :
    (b.partialDerivRest basis orders).accumulations = b.accumulations ∧
      (b.partialDerivRest basis orders).fields = b.fields := by
  unfold partialDerivRest
  split <;> exact ⟨rfl, rfl⟩

/-- A gradient that fails changes requirements only. -/
theorem gradientRest_spec (b : FormBuilder α) (basis : String) (axes extra : List Int) :
    (b.gradientRest basis axes extra).accumulations = b.accumulations ∧
      (b.gradientRest basis axes extra).fields = b.fields := by
  unfold gradientRest
  split <;> exact ⟨rfl, rfl⟩

/-- **A gradient that fails changes the builder exactly if it has noted something new.** -/
theorem gradientRest_eq_iff (hb : b.requirements.Consistent) {basis : String} {axes extra : List Int} :
    b.gradientRest basis axes extra = b ↔ ¬b.NotesGradient basis axes extra := by
  unfold gradientRest NotesGradient
  by_cases hchecks : b.checkBasis basis = .ok () ∧ (extra.isEmpty || extra.length == b.dim) = true
  · rw [if_pos hchecks, withRequirements_eq_iff]
    simp only [hchecks.1, hchecks.2, true_and]
    cases hparametric : b.requirements.parametricGradient with
    | false =>
      simp only [true_or, not_true, iff_false]
      intro h
      have hnoted : b.requirements.parametricGradient = true := congrArg (·.parametricGradient) h.symm
      rw [hparametric] at hnoted
      cases hnoted
    | true =>
      -- First derivatives are noted along with gradients.
      have hsame : noteGradient b.requirements = b.requirements := by
        rw [noteGradient, Nat.max_eq_left (hb.parametric hparametric), ← hparametric]
      rw [hsame, note_eq_self_iff, notedOrders]
      simp only [List.mem_flatMap, Bool.true_eq_false, false_or, forall_exists_index, and_imp, not_exists,
        not_and, not_lt]
      exact ⟨fun h axis haxis d hd => h d axis haxis hd, fun h d axis haxis hd => h axis haxis d hd⟩
  · rw [if_neg hchecks]
    exact iff_of_true rfl fun h => hchecks ⟨h.1, h.2.1⟩

end FormBuilder

namespace BuilderCall

/-- The builder after a call that fails. -/
def rest (b : FormBuilder α) : BuilderCall α → FormBuilder α
  | partialDeriv basis orders => b.partialDerivRest basis orders
  | gradient basis axes extra => b.gradientRest basis axes extra
  | physicalGradient basis extra => b.physicalGradientRest basis extra
  | _ => b

/-- **Whether a call that fails leaves a trace:** a partial derivative with an order that is higher than those
noted before, a gradient that has noted something new, or a physical gradient that has registered the
geometry field or, if that was there, noted something new. -/
def LeavesTrace (b : FormBuilder α) : BuilderCall α → Prop
  | partialDeriv basis orders => b.checkBasis basis = .ok () ∧ orders.length = b.dim ∧
      ∃ d ∈ orders, (b.requirements.maxDeriv : Int) < d
  | gradient basis axes extra => b.NotesGradient basis axes extra
  | physicalGradient basis extra =>
    match b.find? "JacInvT" with
    | some f => b.IsJacobian f ∧ b.NotesGradient basis [] extra
    | none => True
  | _ => False

/-- **What a failed call leaves behind.** -/
theorem ends {c : BuilderCall α} (hc : c.argument.Built) {b : FormBuilder α} (hdim : 1 ≤ b.dim) :
    Ends c.run b (fun _ _ => True) (· = c.rest b) := by
  have hnone : ∀ {x : Building α Unit}, Ends x b (fun _ _ => True) (· = b) →
      Ends (do x; pure none : Building α (Operand α)) b (fun _ _ => True) (· = b) :=
    fun hx => hx.bind fun _ _ _ => .pure trivial
  cases c with
  | registerScalar => exact .map FormBuilder.registerScalar_keeps
  | registerVector => exact .map FormBuilder.registerVector_keeps
  | registerMatrix => exact .map FormBuilder.registerMatrix_keeps
  | precompute => exact .map FormBuilder.precompute_keeps
  | inputFunction => exact .map FormBuilder.registerScalar_keeps
  | defineLocal => exact .map (FormBuilder.defineLocal_keeps hc)
  | quadratureWeight => exact .map FormBuilder.registerScalar_keeps
  | inverseTransposed =>
    exact .map ((FormBuilder.inverseTransposed_ends hdim).mono (fun _ _ _ => trivial) fun _ h => h.1)
  | basisValue => exact .map (FormBuilder.basisValue_keeps hdim)
  | partialDeriv => exact .map FormBuilder.partialDeriv_ends
  | gradient => exact .map ((FormBuilder.gradient_ends hdim).mono (fun _ _ _ => trivial) fun _ h => h)
  | physicalGradient => exact .map (FormBuilder.physicalGradient_ends hdim)
  | add => exact hnone FormBuilder.addToSlot_keeps
  | addToSlot => exact hnone FormBuilder.addToSlot_keeps

/-- **A failed call changes the builder exactly if it leaves a trace.** -/
theorem rest_eq_iff {b : FormBuilder α} (hb : b.requirements.Consistent) (c : BuilderCall α) :
    c.rest b = b ↔ ¬c.LeavesTrace b := by
  cases c with
  | partialDeriv basis orders => exact FormBuilder.partialDerivRest_eq_iff
  | gradient basis axes extra => exact FormBuilder.gradientRest_eq_iff hb
  | physicalGradient basis extra =>
    simp only [rest, LeavesTrace, FormBuilder.physicalGradientRest]
    cases b.find? "JacInvT" with
    | some f =>
      by_cases hsame : b.IsJacobian f
      · simp only [hsame, if_true, true_and]
        exact FormBuilder.gradientRest_eq_iff hb
      · simp only [hsame, if_false, false_and, not_false_iff]
    | none =>
      -- There is a field more.
      refine iff_of_false (fun h => ?_) fun h => h trivial
      have hfields := congrArg (fun b' : FormBuilder α => b'.fields.length) h
      simp only [FormBuilder.gradientRest_spec, FormBuilder.withJacobian, List.length_append] at hfields
      exact absurd hfields (Nat.succ_ne_self _)
  | _ => exact iff_of_true rfl fun h => h

end BuilderCall

namespace FormBuilder

/-! ## (5) The theorem -/

/-- Builders that calls have made have a dimension. -/
theorem Reachable.dim_pos {b : FormBuilder α} (hb : b.Reachable) : 1 ≤ b.dim := by
  have hchanges : ∀ {b b' : FormBuilder α}, b.Changes b' → b'.dim = b.dim := by
    intro b b' h
    induction h with
    | refl => rfl
    | tail _ hchange ih => cases hchange <;> exact ih
  induction hb with
  | make h =>
    obtain ⟨hdim, h⟩ := require_bind_eq_ok_iff.mp h
    obtain ⟨-, h⟩ := require_bind_eq_ok_iff.mp h
    obtain rfl := Except.ok.inj h
    have hdim := of_decide_eq_true hdim
    change 1 ≤ Int.toNat _
    omega
  | @call b _ c h ih =>
    rw [hchanges (c.makes h b).1]
    exact ih

/-- The builder after some calls, some of which may fail. -/
def afterCalls (b : FormBuilder α) (calls : List (BuilderCall α)) : FormBuilder α :=
  calls.foldl (fun b c => Building.after c.run b) b

/-- The calls of a run that succeed. -/
def succeeding (b : FormBuilder α) : List (BuilderCall α) → List (BuilderCall α)
  | [] => []
  | c :: calls =>
    match Building.result c.run b with
    | .ok _ => c :: (Building.after c.run b).succeeding calls
    | .error _ => (Building.after c.run b).succeeding calls

/-- **A run without traces:** no call that fails leaves one. -/
def TraceFree (b : FormBuilder α) : List (BuilderCall α) → Prop
  | [] => True
  | c :: calls => (∀ e, Building.result c.run b = .error e → ¬c.LeavesTrace b) ∧
      (Building.after c.run b).TraceFree calls

/-- **What a failed call does to a builder.** -/
theorem Reachable.failed_call {b : FormBuilder α} (hb : b.Reachable) {c : BuilderCall α}
    (hc : c.argument.Built) {e : Error} (hfail : Building.result c.run b = .error e) :
    Building.after c.run b = c.rest b ∧ (Building.after c.run b = b ↔ ¬c.LeavesTrace b) := by
  have hrest : Building.after c.run b = c.rest b := (BuilderCall.ends hc hb.dim_pos).after_of_error hfail
  rw [hrest]
  exact ⟨rfl, c.rest_eq_iff hb.valid.consistent⟩

/-- **A run without traces** leaves the builder as if only the calls that succeed had been made. -/
theorem Reachable.afterCalls_eq {b : FormBuilder α} (hb : b.Reachable) {calls : List (BuilderCall α)}
    (hcalls : ∀ c ∈ calls, c.argument.Built) (hfree : b.TraceFree calls) :
    b.afterCalls calls = b.afterCalls (b.succeeding calls) := by
  induction calls generalizing b with
  | nil => rfl
  | cons c calls ih =>
    obtain ⟨hc, hcalls⟩ := List.forall_mem_cons.mp hcalls
    obtain ⟨htrace, hfree⟩ := hfree
    have hstep := ih (hb.call hc) hcalls hfree
    unfold succeeding
    split
    · exact hstep
    · rename_i e hfail
      have hsame := (hb.failed_call hc hfail).2.mpr (htrace e hfail)
      rw [hsame] at hstep ⊢
      rw [← hstep, afterCalls, List.foldl_cons, hsame, ← afterCalls]

/-- A call that fails adds no accumulation, and no field but the geometry field of a physical gradient. -/
theorem rest_spec (b : FormBuilder α) (c : BuilderCall α) :
    (c.rest b).accumulations = b.accumulations ∧ ((c.rest b).fields = b.fields ∨
      ∃ basis extra, c = .physicalGradient basis extra ∧ b.find? "JacInvT" = none ∧
        (c.rest b).fields = b.fields ++ [jacobianVariable b.fields.length b.dim]) := by
  cases c with
  | partialDeriv basis orders => exact (b.partialDerivRest_spec basis orders).imp_right .inl
  | gradient basis axes extra => exact (b.gradientRest_spec basis axes extra).imp_right .inl
  | physicalGradient basis extra =>
    simp only [BuilderCall.rest, physicalGradientRest]
    cases hfound : b.find? "JacInvT" with
    | some f =>
      by_cases hsame : b.IsJacobian f
      · simp only [hsame, if_true]
        exact (b.gradientRest_spec basis [] extra).imp_right .inl
      · simp only [hsame, if_false, true_or, and_self]
    | none =>
      obtain ⟨hsums, hfields⟩ := b.withJacobian.gradientRest_spec basis [] extra
      exact ⟨hsums, .inr ⟨basis, extra, rfl, rfl, hfields⟩⟩
  | _ => exact ⟨rfl, .inl rfl⟩

/-- **Failed calls leave a trace in three cases only.** Take a builder after any sequence of calls, and a call
that fails. Then the builder is as before exactly if the call leaves no trace, which a partial derivative, a
gradient and a physical gradient can do. It never has an accumulation more, and a field more only if a
physical gradient has registered the geometry field. A run whose failed calls leave no trace ends as if they
had not been made. -/
theorem Reachable.failed_calls {b : FormBuilder α} (hb : b.Reachable) :
    (∀ c : BuilderCall α, c.argument.Built → ∀ e, Building.result c.run b = .error e →
      Building.after c.run b = c.rest b ∧ (Building.after c.run b = b ↔ ¬c.LeavesTrace b) ∧
      (Building.after c.run b).accumulations = b.accumulations ∧
      ((Building.after c.run b).fields = b.fields ∨
        ∃ basis extra, c = .physicalGradient basis extra ∧ b.find? "JacInvT" = none ∧
          (Building.after c.run b).fields = b.fields ++ [jacobianVariable b.fields.length b.dim])) ∧
    ∀ calls : List (BuilderCall α), (∀ c ∈ calls, c.argument.Built) → b.TraceFree calls →
      b.afterCalls calls = b.afterCalls (b.succeeding calls) := by
  refine ⟨fun c hc e hfail => ?_, fun calls => hb.afterCalls_eq⟩
  obtain ⟨hrest, hiff⟩ := hb.failed_call hc hfail
  obtain ⟨hsums, hfields⟩ := rest_spec b c
  rw [← hrest] at hsums hfields
  exact ⟨hrest, hiff, hsums, hfields⟩

/-- A builder of a form that adds up a test function. -/
def valueBuilder : FormBuilder ℚ :=
  Building.after (BuilderCall.addToSlot 0 (some (.deriv "v" [0, 0]))).run
    { name := "value", dim := 2, arity := .bilinear, components := 1, symmetric := false }

/-- **A derivative that is refused makes its form useless:** the orders five and minus one are refused, but the
five stays noted, and no kernel goes that far. -/
theorem refused_derivative_stays :
    (valueBuilder.finalize >>= CompiledKernel.emit 2).isOk = true ∧
      Building.result (BuilderCall.partialDeriv "v" [5, -1]).run valueBuilder =
        .error (.expr .negativeOrder) ∧
      (Building.after (BuilderCall.partialDeriv "v" [5, -1]).run valueBuilder).finalize >>=
        CompiledKernel.emit 2 = .error (.kernel (.derivativeOrder "value" 5 4)) :=
  ⟨by decide +kernel, rfl, rfl⟩

/-- The same derivative of an unknown function leaves no trace, and neither does a run with it. -/
theorem failed_calls_valueBuilder :
    Building.after (BuilderCall.partialDeriv "v" [5, -1]).run valueBuilder ≠ valueBuilder ∧
      Building.after (BuilderCall.partialDeriv "w" [5, -1]).run valueBuilder = valueBuilder ∧
      valueBuilder.afterCalls [.partialDeriv "w" [5, -1], .basisValue "v"] =
        valueBuilder.afterCalls [.basisValue "v"] := by
  have hderiv : (Expr.deriv "v" [0, 0] : Expr ℚ).Built := .deriv (rfl : Expr.ofDeriv "v" [0, 0] = _)
  have hb : valueBuilder.Reachable := .call (c := .addToSlot 0 (some _))
    (.make (rfl : FormBuilder.make "value" 2 .bilinear 1 false = _))
    fun e he => Option.some.inj he ▸ hderiv
  obtain ⟨hcall, hrun⟩ := hb.failed_calls
  have hnone : ∀ basis orders, (BuilderCall.partialDeriv (α := ℚ) basis orders).argument.Built :=
    fun _ _ _ h => nomatch h
  refine ⟨fun h => ?_, ?_, ?_⟩
  · exact (hcall _ (hnone "v" [5, -1]) _ rfl).2.1.mp h ⟨rfl, rfl, 5, by decide, by decide⟩
  · refine (hcall _ (hnone "w" [5, -1]) _ rfl).2.1.mpr ?_
    rintro ⟨h, -⟩
    cases h
  · refine hrun _ ?_ ⟨fun e _ => ?_, fun e h => ?_, trivial⟩
    · rw [List.forall_mem_cons, List.forall_mem_singleton]
      exact ⟨hnone _ _, fun _ h => nomatch h⟩
    · rintro ⟨h, -⟩
      cases h
    · cases h

end FormBuilder

end Galerkin
