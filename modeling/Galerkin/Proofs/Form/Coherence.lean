import Galerkin.Proofs.Form.Validity
import Mathlib.Algebra.Order.Field.Rat

/-! # Coherent forms

Lowering and the preparation of kernel data rely on facts about a form that they do not check again:
how its fields are numbered and named, what their definitions refer to, how long the tuples of derivative
orders are, which requirements go with which fields. These facts hold of a builder after any calls, also
after calls that failed on their way, and they pass to the form that the builder returns, whose highest
derivative order is then large enough for all expressions that are evaluated with basis functions.

* **`Form.Coherent`** — the facts, in terms of the form alone;
* **`Expr.order_le_maxOrder`**, **`FormBuilder.scanned_iff`** — the scan for the highest order meets every
  derivative;
* **`FormBuilder.Valid.coherent_draftWith`** — what the checks of a builder amount to;
* **`FormBuilder.Reachable.coherent`** — builders are coherent after all calls, and so are their forms. -/

namespace Galerkin

variable {α : Type}

/-! ## (1) Running maxima -/

section Folds

variable {β : Type} {f : Nat → β → Nat}

/-- A fold that never lowers its value does not end below its start. -/
theorem le_foldl_start (hf : ∀ m x, m ≤ f m x) (xs : List β) (m : Nat) : m ≤ xs.foldl f m := by
  induction xs generalizing m with
  | nil => exact Nat.le_refl m
  | cons x xs ih => exact Nat.le_trans (hf m x) (ih (f m x))

/-- **A fold that never lowers its value keeps what an element contributes.** -/
theorem le_foldl_of_mem (hf : ∀ m x, m ≤ f m x) {x : β} {d : Nat} (hx : ∀ m, d ≤ f m x)
    {xs : List β} (h : x ∈ xs) (m : Nat) : d ≤ xs.foldl f m := by
  induction xs generalizing m with
  | nil => cases h
  | cons y ys ih =>
    rw [List.foldl_cons]
    rcases List.mem_cons.mp h with rfl | h
    · exact Nat.le_trans (hx m) (le_foldl_start hf ys _)
    · exact ih h _

end Folds

namespace Expr

/-- The largest order of a node, at least `highest`. -/
def nodeOrder (highest : Nat) : Expr α → Nat
  | deriv _ orders => orders.foldl max highest
  | _ => highest

/-- The highest order in an expression is the largest of its nodes. -/
theorem maxOrder_eq_foldl (start : Nat) (e : Expr α) : e.maxOrder start = e.nodes.foldl nodeOrder start := by
  rw [maxOrder]
  apply List.foldl_ext
  intro highest node _
  cases node <;> rfl

/-- A node never lowers the highest order. -/
theorem le_nodeOrder (highest : Nat) (node : Expr α) : highest ≤ node.nodeOrder highest := by
  cases node with
  | deriv basis orders => exact le_foldl_start Nat.le_max_left orders highest
  | _ => exact Nat.le_refl highest

/-- An expression never lowers the highest order. -/
theorem le_maxOrder (start : Nat) (e : Expr α) : start ≤ e.maxOrder start := by
  rw [maxOrder_eq_foldl]
  exact le_foldl_start le_nodeOrder e.nodes start

/-- **Every order that occurs in an expression is at most the highest one.** -/
theorem order_le_maxOrder {e : Expr α} {basis : String} {orders : List Nat}
    (h : .deriv basis orders ∈ e.nodes) {d : Nat} (hd : d ∈ orders) (start : Nat) :
    d ≤ e.maxOrder start := by
  rw [maxOrder_eq_foldl]
  refine le_foldl_of_mem le_nodeOrder (fun m => ?_) h start
  show d ≤ orders.foldl max m
  exact le_foldl_of_mem Nat.le_max_left (fun m => Nat.le_max_right m d) hd m

end Expr

/-! ## (2) Coherent forms -/

/-- A shape that is declared symmetric is that of a square matrix. -/
theorem Shape.Declarable.eq_matrix {s : Shape} {symmetric : Bool} (h : s.Declarable symmetric)
    (hs : symmetric = true) : ∃ n, 0 < n ∧ s = .matrix n n := by
  obtain ⟨hmatrix, hsquare⟩ := h.square hs
  obtain ⟨rank, rows, cols⟩ := s
  have hrank : rank = 2 := eq_of_beq hmatrix
  have hcols : rows = cols := hsquare
  subst hrank hcols
  exact ⟨rows, h.rows_pos, rfl⟩

namespace Form

/-- **The expressions that are evaluated with basis functions:** those that are accumulated, and the
definitions of local fields. -/
def Evaluates (form : Form α) (e : Expr α) : Prop :=
  (∃ a ∈ form.accumulations, a.expression = some e) ∨
    ∃ f ∈ form.fields, f.definition = .perEntry (some e)

/-- The fields an expression refers to are registered with numbers below `bound`. -/
def RefersBelow (form : Form α) (bound : Nat) (e : Expr α) : Prop :=
  ∀ name shape symmetric, .field name shape symmetric ∈ e.nodes →
    ∃ f ∈ form.fields, f.name = name ∧ f.id < bound

/-- **What lowering and preparation rely on.** -/
structure Coherent (form : Form α) : Prop where
  /-- The `k`-th field has number `k`. -/
  numbers : ∀ (k : Nat) (f : FieldVariable α), form.fields[k]? = some f → f.id = k
  /-- Names are pairwise distinct. -/
  nodup : (form.fields.map (·.name)).Nodup
  /-- Names are not empty, and not those of basis functions. -/
  named : ∀ f ∈ form.fields, f.name ≠ "" ∧ f.name ≠ "u" ∧ f.name ≠ "v"
  /-- A precomputed field has a definition of its shape, which refers to earlier array fields and to no
  basis function. -/
  precomputed : ∀ f ∈ form.fields, ∀ o, f.definition = .precomputed o → ∃ e, o = some e ∧
    e.shape = f.shape ∧ (∀ basis orders, .deriv basis orders ∉ e.nodes) ∧
    ∀ name shape symmetric, .field name shape symmetric ∈ e.nodes →
      ∃ g ∈ form.fields, g.name = name ∧ g.id < f.id ∧ g.isArray = true
  /-- A local field has a definition of its shape, which refers to earlier fields. -/
  locals : ∀ f ∈ form.fields, ∀ o, f.definition = .perEntry o → ∃ e, o = some e ∧
    e.shape = f.shape ∧ form.RefersBelow f.id e
  /-- Derivatives have one order for each axis, and are those of the test function, or in a bilinear form
  of the trial function. -/
  derivs : ∀ e, form.Evaluates e → ∀ basis orders, .deriv basis orders ∈ e.nodes →
    orders.length = form.dim ∧ (basis = "v" ∨ basis = "u" ∧ form.arity = .bilinear)
  /-- Symmetric fields are square matrices. -/
  symmetric : ∀ f ∈ form.fields, f.symmetric = true → ∃ n, 0 < n ∧ f.shape = .matrix n n
  /-- A scalar over registered fields is added to a slot of the form. -/
  sums : ∀ a ∈ form.accumulations, ∃ e, a.expression = some e ∧ e.shape.isScalar = true ∧
    0 ≤ a.slot ∧ a.slot < form.outputSlots ∧ form.RefersBelow form.fields.length e
  /-- The Jacobian is required exactly for geometry fields. -/
  jacobian : form.requirements.jacobian = true ↔
    ∃ f ∈ form.fields, ∃ which, f.definition = .builtin which
  /-- The weight is required exactly where it is a field. -/
  weight : form.requirements.weight = true ↔ ∃ f ∈ form.fields, f.definition = .builtin .weight
  /-- A physical gradient needs a parametric one. -/
  physical : form.requirements.physicalGradient = true → form.requirements.parametricGradient = true
  /-- A parametric gradient needs first derivatives. -/
  parametric : form.requirements.parametricGradient = true → 1 ≤ form.requirements.maxDeriv

/-- **The highest derivative order is large enough** for every order on every axis. -/
def BoundsOrders (form : Form α) : Prop :=
  ∀ e, form.Evaluates e → ∀ basis orders, .deriv basis orders ∈ e.nodes →
    ∀ d ∈ orders, d ≤ form.requirements.maxDeriv

/-- Expressions that resolve below a bound refer to fields below it. -/
theorem refersBelow_of_resolves {form : Form α} {bound : Nat} {arraysOnly : Bool} {e : Expr α}
    (h : ∀ node ∈ e.nodes, form.Resolves bound arraysOnly node) : form.RefersBelow bound e := by
  intro name shape symmetric hnode
  obtain ⟨f, hf, hname, hlt, -⟩ := h _ hnode
  exact ⟨f, hf, hname, hlt⟩

end Form

/-! ## (3) Builders -/

namespace FormBuilder

/-- **The form as registered so far,** with the derivative orders that were asked for. -/
def draft (b : FormBuilder α) : Form α where
  name := b.name
  dim := b.dim
  arity := b.arity
  components := b.components
  symmetric := b.symmetric
  fields := b.fields
  accumulations := b.accumulations
  requirements := b.requirements

/-- The form as registered so far, for a highest derivative order. -/
def draftWith (b : FormBuilder α) (order : Nat) : Form α :=
  { b.draft with requirements := { b.requirements with maxDeriv := order } }

/-- The highest derivative order of the form of a builder. -/
def finalOrder (b : FormBuilder α) : Nat := b.scanned.foldl highestOrder b.requirements.maxDeriv

/-- **A builder returns its draft,** with the highest order of all requests and expressions. -/
theorem eq_draftWith {b : FormBuilder α} {form : Form α} (h : b.finalize = .ok form) :
    form = b.draftWith b.finalOrder := (finalize_eq_ok h).2

/-- An operand never lowers the highest order. -/
theorem le_highestOrder (start : Nat) (o : Operand α) : start ≤ highestOrder start o := by
  cases o with
  | none => exact Nat.le_refl start
  | some e => exact e.le_maxOrder start

/-- **The scan meets every expression that is evaluated with basis functions.** -/
theorem mem_scanned {b : FormBuilder α} {order : Nat} {e : Expr α}
    (h : (b.draftWith order).Evaluates e) : some e ∈ b.scanned := by
  rw [scanned, List.mem_append]
  rcases h with ⟨a, ha, he⟩ | ⟨f, hf, hdef⟩
  · left
    exact List.mem_map.mpr ⟨a, ha, he⟩
  · right
    apply List.mem_filterMap.mpr
    exact ⟨f, hf, by rw [hdef]⟩

/-- **The highest order of the form bounds every order that occurs.** -/
theorem boundsOrders (b : FormBuilder α) : (b.draftWith b.finalOrder).BoundsOrders := by
  intro e he basis orders hnode d hd
  show d ≤ b.scanned.foldl highestOrder b.requirements.maxDeriv
  apply le_foldl_of_mem le_highestOrder _ (mem_scanned he)
  exact fun m => Expr.order_le_maxOrder hnode hd m

/-- The highest order of a form that is returned does. -/
theorem boundsOrders_of_finalize {b : FormBuilder α} {form : Form α} (h : b.finalize = .ok form) :
    form.BoundsOrders := by
  obtain rfl := eq_draftWith h
  exact b.boundsOrders

/-- What an accumulated expression refers to. -/
theorem AcceptsSum.resolves {b : FormBuilder α} (hb : b.Valid) {slot : Int} {e : Expr α}
    (h : b.AcceptsSum slot e) (order : Nat) :
    ∀ node ∈ e.nodes, (b.draftWith order).Resolves b.fields.length false node := by
  have hfields : (b.before b.fields.length).fields = b.fields ++ [] := by
    rw [before, List.take_length, List.append_nil]
  have hrefs : (b.before b.fields.length).checkReferences false e = .ok () := by
    refine checkReferences_append ?_ ?_ ?_ hfields h.references <;> rfl
  exact resolves_of_checkReferences hb rfl rfl rfl hrefs

/-- **What the checks of a builder amount to,** whatever highest order is noted in the end. -/
theorem Valid.coherent_draftWith {b : FormBuilder α} (hb : b.Valid) {order : Nat}
    (horder : b.requirements.maxDeriv ≤ order) : (b.draftWith order).Coherent := by
  -- The definitions of local and of precomputed fields, with what they refer to.
  have hlocal : ∀ f ∈ b.fields, ∀ o, f.definition = .perEntry o → ∃ e, o = some e ∧ e.Built ∧
      e.shape = f.shape ∧ ∀ node ∈ e.nodes, (b.draftWith order).Resolves f.id false node := by
    intro f hf o ho
    refine hb.expression rfl rfl rfl hf (by rw [ho]; rfl) fun c hc => ?_
    rwa [ho] at hc
  have hprecomputed : ∀ f ∈ b.fields, ∀ o, f.definition = .precomputed o → ∃ e, o = some e ∧ e.Built ∧
      e.shape = f.shape ∧ ∀ node ∈ e.nodes, (b.draftWith order).Resolves f.id true node := by
    intro f hf o ho
    refine hb.expression rfl rfl rfl hf (by rw [ho]; rfl) fun c hc => ?_
    rwa [ho] at hc
  refine ⟨fun _ _ => hb.numbers, hb.nodup, fun f hf => ?named, fun f hf o ho => ?precomputed,
    fun f hf o ho => ?locals, fun e he basis orders hnode => ?derivs, fun f hf hs => ?symmetric,
    fun a ha => ?sums, hb.jacobian, hb.weight, hb.consistent.physical,
    fun hp => Nat.le_trans (hb.consistent.parametric hp) horder⟩
  case named =>
    obtain ⟨hne, htrial, htest⟩ := hb.named f hf
    exact ⟨hne, htrial, htest⟩
  case precomputed =>
    obtain ⟨e, he, -, hshape, hnodes⟩ := hprecomputed f hf o ho
    refine ⟨e, he, hshape, fun basis orders hnode => ?_, fun name shape symmetric hnode => ?_⟩
    · cases (hnodes _ hnode).1
    · obtain ⟨g, hg, hname, hlt, harray⟩ := hnodes _ hnode
      exact ⟨g, hg, hname, hlt, harray rfl⟩
  case locals =>
    obtain ⟨e, he, -, hshape, hnodes⟩ := hlocal f hf o ho
    exact ⟨e, he, hshape, Form.refersBelow_of_resolves hnodes⟩
  case derivs =>
    rcases he with ⟨a, ha, he⟩ | ⟨f, hf, hdef⟩
    · obtain ⟨x, hx, hsum⟩ := hb.sums a ha
      obtain rfl := Option.some.inj (hx.symm.trans he)
      exact (hsum.resolves hb order _ hnode).2
    · obtain ⟨x, hx, -, -, hnodes⟩ := hlocal f hf _ hdef
      obtain rfl := Option.some.inj hx
      exact (hnodes _ hnode).2
  case symmetric => exact (hb.shapes f hf).eq_matrix hs
  case sums =>
    obtain ⟨e, he, hsum⟩ := hb.sums a ha
    exact ⟨e, he, hsum.scalar, hsum.slot_nonneg, hsum.slot_lt,
      Form.refersBelow_of_resolves (hsum.resolves hb order)⟩

/-- **Builders are coherent after all calls.** Take a builder after any sequence of calls, some of which
may have failed on their way. What it has registered is a coherent form; if it returns a form, that is what
it has registered, coherent as well, and the highest derivative order of the form bounds every order that
occurs in an accumulation or in the definition of a local field. -/
theorem Reachable.coherent {b : FormBuilder α} (hb : b.Reachable) :
    b.draft.Coherent ∧ ∀ form, b.finalize = .ok form →
      form = { b.draft with requirements := form.requirements } ∧ form.Coherent ∧ form.BoundsOrders := by
  have hvalid := hb.valid
  refine ⟨hvalid.coherent_draftWith (Nat.le_refl _), fun form h => ?_⟩
  obtain rfl := eq_draftWith h
  have horder : b.requirements.maxDeriv ≤ b.finalOrder := le_foldl_start le_highestOrder _ _
  exact ⟨rfl, hvalid.coherent_draftWith horder, b.boundsOrders⟩

/-- A builder that was asked for a gradient of an unknown function, which fails after the geometry field is
registered, and then for a sum with a derivative that was asked for nowhere else. -/
def interrupted : FormBuilder ℚ :=
  Building.after (BuilderCall.addToSlot 0 (some (.deriv "v" [0, 2]))).run
    (Building.after (BuilderCall.physicalGradient "w" []).run
      { name := "interrupted", dim := 2, arity := .bilinear, components := 1, symmetric := false })

/-- The field that the failed call left behind is registered and required, and the order that is noted
nowhere is found when the form is finished. -/
theorem coherent_interrupted :
    interrupted.Reachable ∧ interrupted.fields.map (·.name) = ["JacInvT"] ∧
      interrupted.requirements.jacobian = true ∧ interrupted.requirements.maxDeriv = 0 ∧
      interrupted.draft.Coherent ∧ ∃ form, interrupted.finalize = .ok form ∧
        form.requirements.maxDeriv = 2 ∧ form.Coherent ∧ form.BoundsOrders := by
  have hderiv : (Expr.deriv "v" [0, 2] : Expr ℚ).Built := .deriv (rfl : Expr.ofDeriv "v" [0, 2] = _)
  have hb : interrupted.Reachable := by
    refine .call (c := .addToSlot 0 (some _)) (.call (c := .physicalGradient "w" [])
      (.make (rfl : FormBuilder.make "interrupted" 2 .bilinear 1 false = _)) ?_) ?_
    · exact fun _ h => nomatch h
    · exact fun e he => Option.some.inj he ▸ hderiv
  obtain ⟨hdraft, hforms⟩ := hb.coherent
  have hfinal : interrupted.finalize = .ok (interrupted.draftWith 2) := rfl
  obtain ⟨-, hform, horders⟩ := hforms _ hfinal
  exact ⟨hb, rfl, rfl, rfl, hdraft, _, hfinal, rfl, hform, horders⟩

end FormBuilder

end Galerkin
