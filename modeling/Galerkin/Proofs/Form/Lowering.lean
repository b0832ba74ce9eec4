import Galerkin.Form.Lowering
import Galerkin.Proofs.Form.Meaning
import Galerkin.Proofs.Tape.Finishing

/-! # Lowered forms compute their meaning

Each step of a lowering lets the builder grow and returns registers that hold values. So an expression
is lowered to registers that hold the values of the expression, the registers that are kept for local
fields hold the values of the fields, and the program of a form adds to each slot what the form
accumulates there.

One lemma for each step says both what its registers hold and when it cannot fail.

* **`LoweringState.Sound`** — the builder is well formed, and kept registers hold the values of fields;
* **`lower_achieves`**, **`fieldRegisters_achieves`** — the registers of expressions and of fields;
* **`lowerForm_eq_ok`** — what a program that is returned adds to the slots;
* **`lowerForm_isOk`** — when there is a program. -/

namespace Galerkin

variable {α : Type}

section Lists

variable {β γ : Type}

/-- Related lists, position by position. -/
theorem forall₂_iff_getElem? {R : β → γ → Prop} {xs : List β} {ys : List γ} :
    List.Forall₂ R xs ys ↔ xs.length = ys.length ∧
      ∀ (k : Nat) x y, xs[k]? = some x → ys[k]? = some y → R x y := by
  rw [List.forall₂_iff_get]
  refine and_congr_right fun hlen => ⟨fun h k x y hx hy => ?_, fun h k hx hy => ?_⟩
  · obtain ⟨hkx, rfl⟩ := List.getElem?_eq_some_iff.mp hx
    obtain ⟨hky, rfl⟩ := List.getElem?_eq_some_iff.mp hy
    exact h k hkx hky
  · exact h k _ _ (List.getElem?_eq_getElem hx) (List.getElem?_eq_getElem hy)

/-- Componentwise values, by the position of the components. -/
theorem zipWith_eq_map_zipIdx (op : α → α → α) {registers : List β} {xs ys : List α}
    (hxs : registers.length = xs.length) (hys : ∀ x ∈ registers.zipIdx, x.2 < ys.length) (d : α) :
    List.zipWith op xs ys = registers.zipIdx.map fun x => op (xs.getD x.2 d) (ys.getD x.2 d) := by
  have hlen : xs.length ≤ ys.length := by
    rcases Nat.eq_zero_or_pos xs.length with h | h
    · omega
    · have hlast : xs.length - 1 < registers.length := by omega
      have hmem : (registers[xs.length - 1], xs.length - 1) ∈ registers.zipIdx := by
        rw [List.mk_mem_zipIdx_iff_getElem?]
        exact List.getElem?_eq_getElem hlast
      have := hys _ hmem
      omega
  refine List.ext_getElem (by simp [hxs]; omega) fun k h₁ h₂ => ?_
  rw [List.length_zipWith] at h₁
  have hkx : k < xs.length := by omega
  have hky : k < ys.length := by omega
  simp [hkx, hky]

end Lists

/-! ## (1) Steps that keep a lowering sound -/

/-- The builder of a lowering has grown. -/
def LoweringState.Grows (s s' : LoweringState α) : Prop := s.builder.Extends s'.builder

/-- A builder grows step by step. -/
theorem LoweringState.Grows.trans {s t u : LoweringState α} (hst : s.Grows t) (htu : t.Grows u) :
    s.Grows u := ProgramBuilder.Extends.trans hst htu

/-- A builder that stays as it is. -/
theorem LoweringState.Grows.refl (s : LoweringState α) : s.Grows s := ProgramBuilder.Extends.refl _

/-- The role of a basis function is that of its name. -/
theorem basisRole_eq_ok {form : Form α} {basis : String} {role : BasisRole}
    (h : basisRole form basis = .ok role) :
    role = if basis = BasisRole.trial.name then .trial else .test := by
  unfold basisRole at h
  split at h
  · obtain ⟨-, h⟩ := require_bind_eq_ok_iff.mp h
    rw [if_pos ‹_›]
    exact (Except.ok.inj h).symm
  · rw [if_neg ‹_›]
    split at h
    · exact (Except.ok.inj h).symm
    · cases h

variable [Scalar α]

/-- **A sound lowering:** the builder is well formed, and the registers that are kept for a local field
hold the values of the field. -/
structure LoweringState.Sound (s : LoweringState α) (form : Form α) (point : PointData α) : Prop where
  wellFormed : s.builder.WellFormed
  locals : ∀ entry ∈ s.locals, ∀ f ∈ form.fields, f.id = entry.1 →
    List.Forall₂ (s.builder.Holds point) entry.2 (form.fieldValues point f.name)

/-- The lowering stays sound, the builder grows, and the registers hold `xs`. -/
structure Lowered (form : Form α) (point : PointData α) (s : LoweringState α) (xs : List α)
    (registers : List Nat) (s' : LoweringState α) : Prop where
  sound : s'.Sound form point
  grows : s.Grows s'
  holds : List.Forall₂ (s'.builder.Holds point) registers xs

/-- The same for one register. -/
structure LoweredOne (form : Form α) (point : PointData α) (s : LoweringState α) (x : α)
    (register : Nat) (s' : LoweringState α) : Prop where
  sound : s'.Sound form point
  grows : s.Grows s'
  holds : s'.builder.Holds point register x

variable {form : Form α} {point : PointData α} {s s' : LoweringState α} {sure : Prop}

/-- Registers keep their values while a builder grows. -/
theorem holds_extend {b b' : ProgramBuilder α} (hb : b.WellFormed) (hb' : b'.WellFormed)
    (h : b.Extends b') {registers : List Nat} {xs : List α}
    (hx : List.Forall₂ (b.Holds point) registers xs) :
    List.Forall₂ (b'.Holds point) registers xs := hx.imp fun _ _ h' => h'.extend hb hb' h

/-- Component `k` of the registers holds component `k` of the values. -/
theorem holds_getElem? {b : ProgramBuilder α} {registers : List Nat} {xs : List α}
    (hx : List.Forall₂ (b.Holds point) registers xs) {k r : Nat} (hr : registers[k]? = some r) :
    b.Holds point r (xs.getD k Scalar.zero) := by
  obtain ⟨hlen, hget⟩ := forall₂_iff_getElem?.mp hx
  have hk : k < xs.length := hlen ▸ (List.getElem?_eq_some_iff.mp hr).1
  rw [List.getD_eq_getElem?_getD, List.getElem?_eq_getElem hk, Option.getD_some]
  exact hget k r _ hr (List.getElem?_eq_getElem hk)

/-- A lowering stays sound when its builder grows. -/
theorem LoweringState.Sound.grow (hs : s.Sound form point) {b : ProgramBuilder α}
    (hb : b.WellFormed) (h : s.builder.Extends b) : ({ s with builder := b } : LoweringState α).Sound
      form point :=
  ⟨hb, fun entry he f hf hid => holds_extend hs.wellFormed hb h (hs.locals entry he f hf hid)⟩

/-- One register as a list of registers. -/
theorem LoweredOne.singleton {x : α} {r : Nat} (h : LoweredOne form point s x r s') :
    Lowered form point s [x] [r] s' := ⟨h.sound, h.grows, .cons h.holds .nil⟩

/-- A register that exists already. -/
theorem registerAt_achieves {registers : List Nat} {xs : List α}
    (hx : List.Forall₂ (s.builder.Holds point) registers xs) {k : Nat} (hk : sure → k < xs.length) :
    Achieves sure (liftM (registerAt registers k) : LoweringM α Nat) s fun r s' =>
      s' = s ∧ k < xs.length ∧ s.builder.Holds point r (xs.getD k Scalar.zero) := by
  have hlen := hx.length_eq
  refine .lift (fun h => ?_) fun r hr => ?_
  · have hlt : k < registers.length := hlen ▸ hk h
    exact ⟨registers[k], by rw [registerAt, List.getElem?_eq_getElem hlt]⟩
  · unfold registerAt at hr
    split at hr
    · rename_i hget
      rw [← Except.ok.inj hr]
      exact ⟨rfl, hlen ▸ (List.getElem?_eq_some_iff.mp hget).1, holds_getElem? hx hget⟩
    · cases hr

omit [Scalar α] in
/-- A step of the builder that succeeds leaves its builder. -/
theorem tryEmit_of_ok {f : ProgramBuilder α → Except Error (Nat × ProgramBuilder α)}
    {r : Nat × ProgramBuilder α} (hr : f s.builder = .ok r) :
    Achieves sure (tryEmit f) s fun register s' => register = r.1 ∧ s' = { s with builder := r.2 } := by
  have hrun : (tryEmit f).run s = .ok (r.1, { s with builder := r.2 }) := by
    simp only [tryEmit, StateT.run_bind, StateT.run_get, pure_bind, hr]
    rfl
  refine ⟨fun _ => ⟨_, hrun⟩, fun r' s' hr' => ?_⟩
  rw [hrun] at hr'
  exact ⟨(Prod.mk.inj (Except.ok.inj hr')).1.symm, (Prod.mk.inj (Except.ok.inj hr')).2.symm⟩

/-- A step of the builder that adds a register. -/
theorem tryEmit_achieves (hs : s.Sound form point)
    {f : ProgramBuilder α → Except Error (Nat × ProgramBuilder α)} {x : α}
    (h : ∃ r, f s.builder = .ok r ∧ s.builder.Adds point r x) :
    Achieves sure (tryEmit f) s (LoweredOne form point s x) := by
  obtain ⟨r, hr, hadds⟩ := h
  refine (tryEmit_of_ok hr).mono id ?_
  rintro _ _ ⟨rfl, rfl⟩
  exact ⟨hs.grow hadds.wellFormed hadds.extends_, hadds.extends_, hadds.holds⟩

/-- A step of the builder that cannot fail. -/
theorem emitWith_achieves (hs : s.Sound form point)
    {f : ProgramBuilder α → Nat × ProgramBuilder α} {x : α}
    (h : s.builder.Adds point (f s.builder) x) :
    Achieves sure (emitWith f) s (LoweredOne form point s x) :=
  tryEmit_achieves hs (f := fun b => .ok (f b)) ⟨_, rfl, h⟩

/-- **A traversal that adds one register for each element.** Whatever a step shows about its element
besides, `P`, is shown about all of them. -/
theorem mapM_achieves {γ : Type} {f : γ → LoweringM α Nat} {xs : List γ} {g : γ → α}
    {P : γ → Prop} (hs : s.Sound form point)
    (step : ∀ x ∈ xs, ∀ t, t.Sound form point → s.Grows t →
      Achieves sure (f x) t fun r t' => P x ∧ LoweredOne form point t (g x) r t') :
    Achieves sure (xs.mapM f) s fun registers s' =>
      (∀ x ∈ xs, P x) ∧ Lowered form point s (xs.map g) registers s' := by
  refine (Achieves.mapM (I := fun u => u.Sound form point) (L := LoweringState.Grows)
    (R := fun x r u => P x ∧ u.builder.Holds point r (g x)) LoweringState.Grows.refl
    LoweringState.Grows.trans ?_ hs (LoweringState.Grows.refl s) fun x hx t ht hst =>
      (step x hx t ht hst).mono id fun r t' h => ⟨h.2.sound, h.2.grows, h.1, h.2.holds⟩).mono
    id fun registers s' h => ?_
  · rintro x r a b ha hb hab ⟨hx, hr⟩
    exact ⟨hx, hr.extend ha.wellFormed hb.wellFormed hab⟩
  · obtain ⟨hs', hgrows, hall⟩ := h
    refine ⟨?_, hs', hgrows, ?_⟩
    · intro x hx
      obtain ⟨i, hi, rfl⟩ := List.getElem_of_mem hx
      exact (hall.get hi (hall.length_eq ▸ hi)).1
    · rw [List.forall₂_map_right_iff]
      exact (hall.imp fun _ _ h => h.2).flip

/-! ## (2) Expressions -/

/-- **When an expression is sure to be lowered:** its shapes fit, the fields that occur in it are found
and have the shapes they are referred to with, and derivatives are those of basis functions of the
form. -/
structure Lowerable (form : Form α) (target : LoweringTarget) (point : PointData α)
    (known : String → Prop) (e : Expr α) : Prop where
  wellShaped : e.WellShaped
  fields : ∀ name shape symmetric, .field name shape symmetric ∈ e.nodes →
    known name ∧ (form.fieldValues point name).length = shape.size
  derivs : ∀ basis orders, .deriv basis orders ∈ e.nodes →
    target = .kernel ∧ ∃ role, basisRole form basis = .ok role

variable {target : LoweringTarget} {known : String → Prop}

/-- A subexpression is lowered with the expression. -/
theorem Lowerable.of_subset {e x : Expr α} (h : Lowerable form target point known e)
    (hx : x.WellShaped) (hsub : ∀ node ∈ x.nodes, node ∈ e.nodes) :
    Lowerable form target point known x :=
  ⟨hx, fun n s y hn => h.fields n s y (hsub _ hn), fun b o hn => h.derivs b o (hsub _ hn)⟩

/-- An expression that is sure to be lowered has as many values as its shape says. -/
theorem Lowerable.length_valuesOf {e : Expr α} (h : Lowerable form target point known e) :
    (form.valuesOf point e).length = e.shape.size :=
  Expr.length_values h.wellShaped fun n s y hn => (h.fields n s y hn).2

/-- The operands of an operation, which have one shape. -/
theorem Lowerable.binary {op : ArithOp} {lhs rhs : Expr α}
    (h : Lowerable form target point known (.binary op lhs rhs)) :
    Lowerable form target point known lhs ∧ Lowerable form target point known rhs ∧
      lhs.shape = rhs.shape := by
  have hw := h.wellShaped
  rw [Expr.WellShaped] at hw
  exact ⟨h.of_subset hw.1 fun node hn => by simp [Expr.nodes, hn],
    h.of_subset hw.2.1 fun node hn => by simp [Expr.nodes, hn], hw.2.2⟩

/-- The vector a component is taken of. -/
theorem Lowerable.index {vector : Expr α} {k : Nat}
    (h : Lowerable form target point known (.index vector k)) :
    Lowerable form target point known vector ∧ k < vector.shape.rows := by
  have hw := h.wellShaped
  rw [Expr.WellShaped] at hw
  exact ⟨h.of_subset hw.1 fun node hn => by simp [Expr.nodes, hn], hw.2.2⟩

/-- The matrix an entry is taken of. -/
theorem Lowerable.entry {matrix : Expr α} {i j : Nat}
    (h : Lowerable form target point known (.entry matrix i j)) :
    Lowerable form target point known matrix ∧ i < matrix.shape.rows ∧ j < matrix.shape.cols := by
  have hw := h.wellShaped
  rw [Expr.WellShaped] at hw
  exact ⟨h.of_subset hw.1 fun node hn => by simp [Expr.nodes, hn], hw.2.2⟩

/-- The vector some components are taken of. -/
theorem Lowerable.slice {vector : Expr α} {ks : List Nat}
    (h : Lowerable form target point known (.slice vector ks)) :
    Lowerable form target point known vector ∧ ∀ k ∈ ks, k < vector.shape.rows := by
  have hw := h.wellShaped
  rw [Expr.WellShaped] at hw
  exact ⟨h.of_subset hw.1 fun node hn => by simp [Expr.nodes, hn], hw.2.2.2⟩

/-- The factors of a product, whose extents fit. -/
theorem Lowerable.matmul {matrix vector : Expr α}
    (h : Lowerable form target point known (.matmul matrix vector)) :
    Lowerable form target point known matrix ∧ Lowerable form target point known vector ∧
      matrix.shape.cols = vector.shape.rows := by
  have hw := h.wellShaped
  rw [Expr.WellShaped] at hw
  exact ⟨h.of_subset hw.1 fun node hn => by simp [Expr.nodes, hn],
    h.of_subset hw.2.1 fun node hn => by simp [Expr.nodes, hn], hw.2.2.2.2⟩

/-- The components of a vector or matrix. -/
theorem Lowerable.compose {shape : Shape} {components : List (Expr α)}
    (h : Lowerable form target point known (.compose shape components)) :
    ∀ e ∈ components, Lowerable form target point known e := by
  intro e he
  have hw := h.wellShaped
  rw [Expr.WellShaped, Expr.allScalars_iff] at hw
  refine h.of_subset (hw.1 e he).1 fun node hn => ?_
  rw [Expr.nodes, Expr.nodesOfAll_eq_flatMap]
  exact List.mem_cons_of_mem _ (List.mem_flatMap_of_mem he hn)

variable [DecidableEq α] [CommutativeScalar α]

/-- An operation on registers that hold values. -/
theorem emitArith_achieves (hs : s.Sound form point) (op : ArithOp) {lhs rhs : Nat} {x y : α}
    (hx : s.builder.Holds point lhs x) (hy : s.builder.Holds point rhs y) :
    Achieves sure (emitArith op lhs rhs) s (LoweredOne form point s (op.apply x y)) :=
  tryEmit_achieves hs (ProgramBuilder.arith_spec hs.wellFormed op hx hy)

section Rows

variable {matrix vector : List Nat} {ms vs : List α}

/-- A term of a product holds the product of its factors. -/
theorem lowerTerm_achieves (hs : s.Sound form point)
    (hm : List.Forall₂ (s.builder.Holds point) matrix ms)
    (hv : List.Forall₂ (s.builder.Holds point) vector vs) {cols r c : Nat}
    (hsure : sure → r * cols + c < ms.length ∧ c < vs.length) :
    Achieves sure (lowerTerm matrix vector cols r c) s
      (LoweredOne form point s (Expr.termValue ms vs cols r c)) := by
  unfold lowerTerm
  refine (registerAt_achieves hm fun h => (hsure h).1).bind ?_
  rintro a _ ⟨rfl, -, ha⟩
  refine (registerAt_achieves hv fun h => (hsure h).2).bind ?_
  rintro b _ ⟨rfl, -, hb⟩
  exact emitArith_achieves hs .mul ha hb

/-- **A row of a product** holds the sum of its terms from left to right. -/
theorem lowerRow_achieves (hs : s.Sound form point)
    (hm : List.Forall₂ (s.builder.Holds point) matrix ms)
    (hv : List.Forall₂ (s.builder.Holds point) vector vs) {cols r : Nat}
    (hsure : sure → 0 < cols ∧ ∀ c < cols, r * cols + c < ms.length ∧ c < vs.length) :
    Achieves sure (lowerRow matrix vector cols r) s
      (LoweredOne form point s (Expr.rowValue ms vs cols r)) := by
  unfold lowerRow
  refine (lowerTerm_achieves hs hm hv fun h => (hsure h).2 0 (hsure h).1).bind ?_
  rintro first t ⟨ht, hst, hfirst⟩
  -- The register that is carried along holds the sum of the terms so far.
  refine (Achieves.foldlM (I := fun u => u.Sound form point) (L := LoweringState.Grows)
    (C := fun cs sum u => u.builder.Holds point sum (cs.foldl
      (fun sum c => sum + Expr.termValue ms vs cols r c) (Expr.termValue ms vs cols r 0)))
    (l := []) (o := s) LoweringState.Grows.trans ht hst hfirst ?_).mono id fun sum u h => ?_
  rotate_left
  · exact ⟨h.1, h.2.1, h.2.2⟩
  intro cs c sum u hu hsu hsum
  have hextend : ∀ {registers : List Nat} {xs : List α},
      List.Forall₂ (s.builder.Holds point) registers xs →
        List.Forall₂ (u.builder.Holds point) registers xs :=
    holds_extend hs.wellFormed hu.wellFormed hsu
  refine (lowerTerm_achieves hu (hextend hm) (hextend hv) fun h => ?_).bind ?_
  · have hc := List.mem_range'_1.mp h.2
    exact (hsure h.1).2 c (by omega)
  rintro term w ⟨hw, huw, hterm⟩
  refine (emitArith_achieves hw .add (hsum.extend hu.wellFormed hw.wellFormed huw) hterm).mono
    id fun r' w' h => ⟨h.sound, huw.trans h.grows, ?_⟩
  rw [List.foldl_append]
  exact h.holds

end Rows

omit [CommutativeScalar α] in
/-- The first registers of some expressions, one expression after the other. -/
theorem lowerFirsts_eq_mapM (fields : FieldLookup α) (es : List (Expr α)) :
    lowerFirsts form target fields es = es.mapM (fun e => do
      let registers ← lower form target fields e
      liftM (registerAt registers 0)) := by
  induction es with
  | nil => rw [lowerFirsts, List.mapM_nil]
  | cons e es ih => simp only [lowerFirsts, List.mapM_cons, bind_assoc, ih]

/-- The register of a derivative holds its value. -/
theorem lowerDeriv_achieves (hs : s.Sound form point) {basis : String} {orders : List Nat}
    (hsure : sure → target = .kernel ∧ ∃ role, basisRole form basis = .ok role) :
    Achieves sure (lowerDeriv form target basis orders) s
      (LoweredOne form point s (point.deriv basis orders)) := by
  unfold lowerDeriv
  refine (Achieves.lift (P := fun _ t => s = t) (fun h => ⟨(), ?_⟩) fun _ _ => rfl).bind ?_
  · exact require_eq_ok_iff.mpr (beq_iff_eq.mpr (hsure h).1)
  rintro _ _ rfl
  refine (Achieves.lift (P := fun role t => s = t ∧ role = if basis = BasisRole.trial.name then
    .trial else .test) (fun h => (hsure h).2) fun _ h => ⟨rfl, basisRole_eq_ok h⟩).bind ?_
  rintro role _ ⟨rfl, rfl⟩
  exact emitWith_achieves hs (ProgramBuilder.loadBasis_spec hs.wellFormed point _)

/-- **Componentwise operations** hold the results on the components of their operands. -/
theorem lowerBinary_achieves (hs : s.Sound form point) (op : ArithOp) {xs ys : List Nat}
    {vs ws : List α} (hxs : List.Forall₂ (s.builder.Holds point) xs vs)
    (hys : List.Forall₂ (s.builder.Holds point) ys ws) (hsure : sure → vs.length = ws.length) :
    Achieves sure (xs.zipIdx.mapM fun (x, k) => do
      emitArith op x (← (liftM (registerAt ys k) : LoweringM α Nat))) s
      (Lowered form point s (List.zipWith op.apply vs ws)) := by
  refine (mapM_achieves (P := fun x => x.2 < ws.length)
    (g := fun x => op.apply (vs.getD x.2 Scalar.zero) (ws.getD x.2 Scalar.zero)) hs ?_).mono id ?_
  · rintro ⟨x, k⟩ hx t ht hst
    rw [List.mk_mem_zipIdx_iff_getElem?] at hx
    have hxst := holds_extend hs.wellFormed ht.wellFormed hst hxs
    have hyst := holds_extend hs.wellFormed ht.wellFormed hst hys
    refine (registerAt_achieves hyst fun h => ?_).bind ?_
    · rw [← hsure h, ← hxs.length_eq]
      exact (List.getElem?_eq_some_iff.mp hx).1
    rintro y _ ⟨rfl, hk, hy⟩
    exact (emitArith_achieves ht op (holds_getElem? hxst hx) hy).mono id fun _ _ h => ⟨hk, h⟩
  · rintro rs t ⟨hall, hrs⟩
    rw [zipWith_eq_map_zipIdx op.apply hxs.length_eq hall Scalar.zero]
    exact hrs

/-- **The registers of an expression hold its values** if those of the fields do. -/
theorem lower_achieves {fields : FieldLookup α}
    (hfields : ∀ name t, t.Sound form point → Achieves (known name) (fields name) t
      (Lowered form point t (form.fieldValues point name)))
    (e : Expr α) : ∀ s, s.Sound form point →
      Achieves (Lowerable form target point known e) (lower form target fields e) s
        (Lowered form point s (form.valuesOf point e)) := by
  induction e using Expr.structural_induction with
  | const c =>
    intro s hs
    simp only [lower, Form.valuesOf, Expr.values]
    exact (emitWith_achieves hs (ProgramBuilder.constant_spec hs.wellFormed point ⟨c, false⟩)).bind
      fun r t h => .pure h.singleton
  | field name shape symmetric =>
    intro s hs
    simp only [lower, Form.valuesOf, Expr.values]
    exact (hfields name s hs).mono (fun h => (h.fields name shape symmetric (by simp [Expr.nodes])).1)
      fun _ _ h => h
  | binary op lhs rhs hl hr =>
    intro s hs
    simp only [lower, Form.valuesOf, Expr.values]
    refine ((hl s hs).mono (fun h => h.binary.1) fun _ _ h => h).bind fun xs t hxs => ?_
    refine ((hr t hxs.sound).mono (fun h => h.binary.2.1) fun _ _ h => h).bind fun ys u hys => ?_
    have hxs' := holds_extend hxs.sound.wellFormed hys.sound.wellFormed hys.grows hxs.holds
    refine (lowerBinary_achieves hys.sound op hxs' hys.holds fun h => ?_).mono id fun rs v hrs =>
      ⟨hrs.sound, (hxs.grows.trans hys.grows).trans hrs.grows, hrs.holds⟩
    rw [h.binary.1.length_valuesOf, h.binary.2.1.length_valuesOf, h.binary.2.2]
  | index vector k hv =>
    intro s hs
    simp only [lower, Form.valuesOf, Expr.values]
    refine ((hv s hs).mono (fun h => h.index.1) fun _ _ h => h).bind fun xs t hxs => ?_
    refine (registerAt_achieves hxs.holds fun h => ?_).bind ?_
    · rw [h.index.1.length_valuesOf]
      exact h.index.1.wellShaped.lt_size h.index.2
    rintro r _ ⟨rfl, -, hr⟩
    exact .pure ⟨hxs.sound, hxs.grows, .cons hr .nil⟩
  | entry matrix i j hm =>
    intro s hs
    simp only [lower, Form.valuesOf, Expr.values]
    refine ((hm s hs).mono (fun h => h.entry.1) fun _ _ h => h).bind fun xs t hxs => ?_
    refine (registerAt_achieves hxs.holds fun h => ?_).bind ?_
    · rw [h.entry.1.length_valuesOf]
      exact Shape.entry_lt_size h.entry.2.1 h.entry.2.2
    rintro r _ ⟨rfl, -, hr⟩
    exact .pure ⟨hxs.sound, hxs.grows, .cons hr .nil⟩
  | slice vector ks hv =>
    intro s hs
    simp only [lower, Form.valuesOf, Expr.values]
    refine ((hv s hs).mono (fun h => h.slice.1) fun _ _ h => h).bind fun xs t hxs => ?_
    refine (mapM_achieves (P := fun _ => True)
      (g := fun k => (form.valuesOf point vector).getD k Scalar.zero) hxs.sound ?_).mono id
      fun rs u h => ⟨h.2.sound, hxs.grows.trans h.2.grows, h.2.holds⟩
    intro k hk u hu htu
    refine (registerAt_achieves (holds_extend hxs.sound.wellFormed hu.wellFormed htu hxs.holds)
      fun h => ?_).mono id ?_
    · rw [h.slice.1.length_valuesOf]
      exact h.slice.1.wellShaped.lt_size (h.slice.2 k hk)
    · rintro r _ ⟨rfl, -, hr⟩
      exact ⟨trivial, hu, LoweringState.Grows.refl _, hr⟩
  | matmul matrix vector hm hv =>
    intro s hs
    simp only [lower, Form.valuesOf, Expr.values]
    refine ((hm s hs).mono (fun h => h.matmul.1) fun _ _ h => h).bind fun xs t hxs => ?_
    refine ((hv t hxs.sound).mono (fun h => h.matmul.2.1) fun _ _ h => h).bind fun ys u hys => ?_
    have hxs' := holds_extend hxs.sound.wellFormed hys.sound.wellFormed hys.grows hxs.holds
    refine (mapM_achieves (P := fun _ => True) (g := fun r => Expr.rowValue
      (form.valuesOf point matrix) (form.valuesOf point vector) matrix.shape.cols r)
      hys.sound ?_).mono id fun rs v h =>
        ⟨h.2.sound, (hxs.grows.trans hys.grows).trans h.2.grows, h.2.holds⟩
    intro r hr v hv huv
    refine (lowerRow_achieves hv (holds_extend hys.sound.wellFormed hv.wellFormed huv hxs')
      (holds_extend hys.sound.wellFormed hv.wellFormed huv hys.holds) fun h => ?_).mono id
      fun _ _ h => ⟨trivial, h⟩
    refine ⟨h.matmul.1.wellShaped.shape_pos.2, fun c hc => ?_⟩
    rw [h.matmul.1.length_valuesOf, h.matmul.2.1.length_valuesOf]
    refine ⟨Shape.entry_lt_size (List.mem_range.mp hr) hc, ?_⟩
    exact h.matmul.2.1.wellShaped.lt_size (h.matmul.2.2 ▸ hc)
  | deriv basis orders =>
    intro s hs
    simp only [lower, Form.valuesOf, Expr.values]
    exact (lowerDeriv_achieves hs fun h => h.derivs basis orders (by simp [Expr.nodes])).bind
      fun r t h => .pure h.singleton
  | compose shape components hc =>
    intro s hs
    simp only [lower, Form.valuesOf, Expr.values, lowerFirsts_eq_mapM, Expr.firstValues_eq_map]
    refine (mapM_achieves (P := fun _ => True)
      (g := fun e => (form.valuesOf point e).getD 0 Scalar.zero) hs ?_).mono id fun _ _ h => h.2
    intro e he t ht hst
    refine ((hc e he t ht).mono (fun h => h.compose e he) fun _ _ h => h).bind fun xs u hxs => ?_
    refine (registerAt_achieves hxs.holds fun h => ?_).mono id ?_
    · rw [(h.compose e he).length_valuesOf]
      exact (h.compose e he).wellShaped.size_pos
    · rintro r _ ⟨rfl, -, hr⟩
      exact ⟨trivial, hxs.sound, hxs.grows, hr⟩

end Galerkin
