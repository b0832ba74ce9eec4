import Galerkin.Proofs.Form.Correctness
import Galerkin.Proofs.Index.Linear
import Galerkin.Proofs.Tape.Reading
import Mathlib.Tactic.Ring

/-! # What lowered forms read

Whatever the values are, each step of a lowering lets the builder grow, returns registers of it, and puts
nothing into the program that the form does not refer to. An expression whose references carry the sizes
of the fields becomes as many registers as its shape says, and then no step can fail.

* **`FieldVariable.backingIndex_lt`** — every entry of a field is kept at one of its components;
* **`Form.SizesMatchIn`**, **`Form.Sizes`** — references that carry the sizes of their fields;
* **`LoweringState.Regular`** — what every step of a lowering keeps;
* **`lower_regular`**, **`fieldRegisters_regular`** — the registers of expressions and of fields. -/

namespace Galerkin

variable {α : Type}

/-! ## (1) Stored components -/

/-- The positions of a shape. -/
theorem Shape.mem_positions {s : Shape} {i j : Nat} :
    (i, j) ∈ s.positions ↔ i < s.rows ∧ j < s.cols := by
  simp [positions]

/-- Positions are listed row by row. -/
theorem Shape.getElem?_positions {s : Shape} {i j : Nat} (hi : i < s.rows) (hj : j < s.cols) :
    s.positions[i * s.cols + j]? = some (i, j) := by
  have hlt : i * s.cols + j < s.rows * s.cols := Shape.entry_lt_size hi hj
  rw [positions, flatMap_range_map s.rows s.cols Prod.mk, List.getElem?_map, List.getElem?_range hlt,
    Option.map_some, mul_add_div_of_lt hj, Nat.mul_add_mod_of_lt hj]

/-- **An entry of a symmetric matrix is kept inside the packed triangle.** -/
theorem symmetricIndex_lt {i j n : Nat} (hi : i < n) (hj : j < n) :
    symmetricIndex i j n < n * (n + 1) / 2 := by
  have hrow : min i j ≤ max i j := min_le_max
  have hcol : max i j < n := max_lt hi hj
  unfold symmetricIndex
  simp only
  generalize min i j = r at hrow ⊢
  generalize max i j = c at hrow hcol ⊢
  obtain ⟨d, rfl⟩ := Nat.exists_eq_add_of_le hrow
  obtain ⟨m, rfl⟩ := Nat.exists_eq_add_of_lt hcol
  -- Both halves are halves of products of neighbouring numbers.
  obtain ⟨t, ht⟩ := Nat.even_mul_pred_self r
  obtain ⟨u, hu⟩ := Nat.even_mul_succ_self (r + d + m + 1)
  have hpred : r * (r - 1) + r = r * r := by
    cases r with
    | zero => rfl
    | succ r => rw [Nat.add_sub_cancel]; ring
  have hexpand : (r + d + m + 1) * (r + d + m + 1 + 1) =
      r * r + 2 * (r * (d + m)) + (d + m) * (d + m) + 3 * r + 3 * (d + m) + 2 := by ring
  have hfirst : r * (r + d + m + 1) = r * r + r * (d + m) + r := by ring
  omega

namespace FieldVariable

/-- A field of a declarable shape has a component. -/
theorem storageSize_pos {f : FieldVariable α} (hf : f.shape.Declarable f.symmetric) :
    0 < f.storageSize := by
  unfold storageSize
  split
  · rw [symmetricStorageSize_natCast]
    have hrows := hf.rows_pos
    have : 2 ≤ f.shape.rows * (f.shape.rows + 1) := Nat.mul_le_mul hrows (Nat.succ_le_succ hrows)
    omega
  · exact hf.size_pos

/-- **Every entry of a field is kept at one of its components.** -/
theorem backingIndex_lt {f : FieldVariable α} (hf : f.shape.Declarable f.symmetric) {i j : Nat}
    (hi : i < f.shape.rows) (hj : j < f.shape.cols) : f.backingIndex i j < f.storageSize := by
  unfold backingIndex storageSize
  cases hs : f.symmetric with
  | true =>
    rw [if_pos rfl, if_pos rfl, symmetricStorageSize_natCast]
    exact symmetricIndex_lt hi ((hf.square hs).2 ▸ hj)
  | false =>
    rw [if_neg (by decide), if_neg (by decide)]
    exact Shape.entry_lt_size hi hj

end FieldVariable

/-! ## (2) References -/

namespace Form

/-- **References in an expression carry the sizes of their fields.** -/
def SizesMatchIn (form : Form α) (e : Expr α) : Prop :=
  ∀ name shape symmetric, .field name shape symmetric ∈ e.nodes →
    ∀ f ∈ form.fields, f.name = name → shape.size = f.shape.size

/-- The definitions of the local fields with numbers below `bound` refer to fields by their sizes. -/
def LocalsSized (form : Form α) (bound : Nat) : Prop :=
  ∀ f ∈ form.fields, f.id < bound → ∀ e, f.definition = .perEntry (some e) → form.SizesMatchIn e

/-- Fewer fields are sized if more are. -/
theorem LocalsSized.mono {form : Form α} {m n : Nat} (h : form.LocalsSized n) (hmn : m ≤ n) :
    form.LocalsSized m := fun f hf hlt => h f hf (Nat.lt_of_lt_of_le hlt hmn)

/-- **Where an expression has as many registers as its shape says:** it is well shaped, and the fields it
refers to have the sizes it refers to them with, and registers in that number. -/
structure Sizes (form : Form α) (e : Expr α) : Prop where
  wellShaped : e.WellShaped
  fields : ∀ name shape symmetric, .field name shape symmetric ∈ e.nodes →
    ∀ f ∈ form.fields, f.name = name → form.LocalsSized (f.id + 1) ∧ shape.size = f.shape.size

/-- So have the operands of an operation. -/
theorem Sizes.operand {form : Form α} {e x : Expr α} (h : form.Sizes e) (hx : x ∈ e.operands) :
    form.Sizes x :=
  ⟨h.wellShaped.operand hx, fun n s y hn => h.fields n s y (Expr.nodes_of_operand hx _ hn)⟩

end Form

/-- Whether a lowering for this purpose can look at array fields only. -/
def LoweringTarget.arraysOnly : LoweringTarget → Bool
  | kernel => false
  | grid => true

/-- **What may be lowered:** references resolve below `bound`, and derivatives are given loads. -/
structure Form.Admits (form : Form α) (target : LoweringTarget) (bound : Nat)
    (load : BasisLoad → Prop) (e : Expr α) : Prop where
  resolves : ∀ node ∈ e.nodes, form.Resolves bound target.arraysOnly node
  loads : ∀ basis orders, .deriv basis orders ∈ e.nodes → ∀ role, basisRole form basis = .ok role →
    load ⟨role, orders.map Int.ofNat⟩

/-- So may the nodes of an expression. -/
theorem Form.Admits.of_mem_nodes {form : Form α} {target : LoweringTarget} {bound : Nat}
    {load : BasisLoad → Prop} {e x : Expr α} (h : form.Admits target bound load e)
    (hx : x ∈ e.nodes) : form.Admits target bound load x where
  resolves node hnode := h.resolves node ((Expr.nodes_subset hx).1 node hnode)
  loads basis orders hnode := h.loads basis orders ((Expr.nodes_subset hx).1 _ hnode)

/-- So may the operands of an operation. -/
theorem Form.Admits.operand {form : Form α} {target : LoweringTarget} {bound : Nat}
    {load : BasisLoad → Prop} {e x : Expr α} (h : form.Admits target bound load e)
    (hx : x ∈ e.operands) : form.Admits target bound load x :=
  h.of_mem_nodes (Expr.nodes_of_operand hx x (Expr.mem_nodes_self x))

/-! ## (3) Regular lowerings -/

/-- **A regular lowering:** the program reads registers after they are written and only what is given, and
the registers that are kept for a local field are registers of the builder, in the number of its
components. -/
structure LoweringState.Regular (s : LoweringState α) (form : Form α) (load : BasisLoad → Prop)
    (component : Nat → Nat → Prop) : Prop where
  readsOnly : s.builder.draft.ReadsOnly load component
  registers : ∀ entry ∈ s.locals, ∀ r ∈ entry.2, r < s.builder.code.size
  lengths : ∀ entry ∈ s.locals, ∀ f ∈ form.fields, f.id = entry.1 → form.LocalsSized (f.id + 1) →
    entry.2.length = f.shape.size

/-- The lowering stays regular, the builder grows, and the registers are registers of it. -/
structure Emitted (form : Form α) (load : BasisLoad → Prop) (component : Nat → Nat → Prop)
    (s : LoweringState α) (registers : List Nat) (s' : LoweringState α) : Prop where
  regular : s'.Regular form load component
  grows : s.Grows s'
  registers : ∀ r ∈ registers, r < s'.builder.code.size

/-- The same for one register. -/
structure EmittedOne (form : Form α) (load : BasisLoad → Prop) (component : Nat → Nat → Prop)
    (s : LoweringState α) (register : Nat) (s' : LoweringState α) : Prop where
  regular : s'.Regular form load component
  grows : s.Grows s'
  register : register < s'.builder.code.size

variable {form : Form α} {load : BasisLoad → Prop} {component : Nat → Nat → Prop}
  {s s' : LoweringState α} {sure : Prop}

/-- Registers stay registers while a builder grows. -/
theorem lt_of_grows (h : s.Grows s') {registers : List Nat}
    (hr : ∀ r ∈ registers, r < s.builder.code.size) : ∀ r ∈ registers, r < s'.builder.code.size :=
  fun r hmem => Nat.lt_of_lt_of_le (hr r hmem) h.size_le

/-- A lowering starts without instructions. -/
theorem regular_start (form : Form α) (slots : Nat) (load : BasisLoad → Prop)
    (component : Nat → Nat → Prop) :
    ({ builder := { slots } } : LoweringState α).Regular form load component :=
  ⟨ProgramBuilder.readsOnly_empty slots load component, fun _ h => (nomatch h), fun _ h => nomatch h⟩

/-- A lowering stays regular while its builder grows. -/
theorem LoweringState.Regular.grow (hs : s.Regular form load component) {b : ProgramBuilder α}
    (hb : b.draft.ReadsOnly load component) (h : s.builder.Extends b) :
    ({ s with builder := b } : LoweringState α).Regular form load component where
  readsOnly := hb
  registers entry he r hr := Nat.lt_of_lt_of_le (hs.registers entry he r hr) h.size_le
  lengths := hs.lengths

/-- One register as a list of registers. -/
theorem EmittedOne.singleton {r : Nat} (h : EmittedOne form load component s r s') :
    Emitted form load component s [r] s' :=
  ⟨h.regular, h.grows, List.forall_mem_singleton.mpr h.register⟩

/-- A register that exists already. -/
theorem registerAt_regular {registers : List Nat} (hr : ∀ r ∈ registers, r < s.builder.code.size)
    {k : Nat} (hk : sure → k < registers.length) :
    Achieves sure (liftM (registerAt registers k) : LoweringM α Nat) s fun r s' =>
      s' = s ∧ r < s.builder.code.size := by
  refine .lift (fun h => ?_) fun r hget => ?_
  · exact ⟨registers.get ⟨k, hk h⟩, by rw [registerAt, List.getElem?_eq_getElem (hk h)]; rfl⟩
  · unfold registerAt at hget
    split at hget
    · rename_i hmem
      rw [← Except.ok.inj hget]
      exact ⟨rfl, hr _ (List.mem_of_getElem? hmem)⟩
    · cases hget

/-- A step of the builder that adds a register. -/
theorem tryEmit_regular (hs : s.Regular form load component)
    {f : ProgramBuilder α → Except Error (Nat × ProgramBuilder α)}
    (h : ∃ r, f s.builder = .ok r ∧ s.builder.Emits load component r) :
    Achieves sure (tryEmit f) s (EmittedOne form load component s) := by
  obtain ⟨r, hr, hemits⟩ := h
  refine (tryEmit_of_ok hr).mono id ?_
  rintro _ _ ⟨rfl, rfl⟩
  exact ⟨hs.grow hemits.readsOnly hemits.extends_, hemits.extends_, hemits.register⟩

/-- A step of the builder that cannot fail. -/
theorem emitWith_regular (hs : s.Regular form load component)
    {f : ProgramBuilder α → Nat × ProgramBuilder α}
    (h : s.builder.Emits load component (f s.builder)) :
    Achieves sure (emitWith f) s (EmittedOne form load component s) :=
  tryEmit_regular hs (f := fun b => .ok (f b)) ⟨_, rfl, h⟩

/-- **A traversal that adds one register for each element.** -/
theorem mapM_regular {γ : Type} {f : γ → LoweringM α Nat} {xs : List γ}
    (hs : s.Regular form load component)
    (step : ∀ x ∈ xs, ∀ t, t.Regular form load component → s.Grows t →
      Achieves sure (f x) t (EmittedOne form load component t)) :
    Achieves sure (xs.mapM f) s fun registers s' =>
      Emitted form load component s registers s' ∧ registers.length = xs.length := by
  refine (Achieves.mapM (I := fun u => u.Regular form load component) (L := LoweringState.Grows)
    (R := fun _ r u => r < u.builder.code.size) LoweringState.Grows.refl LoweringState.Grows.trans
    ?_ hs (LoweringState.Grows.refl s) fun x hx t ht hst =>
      (step x hx t ht hst).mono id fun r t' h => ⟨h.regular, h.grows, h.register⟩).mono
    id fun registers s' h => ?_
  · exact fun _ _ hab hr => Nat.lt_of_lt_of_le hr hab.size_le
  · obtain ⟨hs', hgrows, hall⟩ := h
    refine ⟨⟨hs', hgrows, fun r hr => ?_⟩, hall.length_eq.symm⟩
    obtain ⟨k, hk, rfl⟩ := List.getElem_of_mem hr
    exact hall.get (hall.length_eq ▸ hk) hk

variable [Scalar α] [DecidableEq α]

/-- An operation on registers of the builder. -/
theorem emitArith_regular (hs : s.Regular form load component) (op : ArithOp) {lhs rhs : Nat}
    (hl : lhs < s.builder.code.size) (hr : rhs < s.builder.code.size) :
    Achieves sure (emitArith op lhs rhs) s (EmittedOne form load component s) :=
  tryEmit_regular hs (ProgramBuilder.arith_emits hs.readsOnly op hl hr)

/-! ## (4) Expressions -/

section Rows

variable {matrix vector : List Nat}

/-- A term of a product. -/
theorem lowerTerm_regular (hs : s.Regular form load component)
    (hm : ∀ r ∈ matrix, r < s.builder.code.size) (hv : ∀ r ∈ vector, r < s.builder.code.size)
    {cols r c : Nat} (hsure : sure → r * cols + c < matrix.length ∧ c < vector.length) :
    Achieves sure (lowerTerm matrix vector cols r c) s (EmittedOne form load component s) := by
  unfold lowerTerm
  refine (registerAt_regular hm fun h => (hsure h).1).bind ?_
  rintro a _ ⟨rfl, ha⟩
  refine (registerAt_regular hv fun h => (hsure h).2).bind ?_
  rintro b _ ⟨rfl, hb⟩
  exact emitArith_regular hs .mul ha hb

/-- **A row of a product.** -/
theorem lowerRow_regular (hs : s.Regular form load component)
    (hm : ∀ r ∈ matrix, r < s.builder.code.size) (hv : ∀ r ∈ vector, r < s.builder.code.size)
    {cols r : Nat} (hsure : sure → 0 < cols ∧ ∀ c < cols, r * cols + c < matrix.length ∧
      c < vector.length) :
    Achieves sure (lowerRow matrix vector cols r) s (EmittedOne form load component s) := by
  unfold lowerRow
  refine (lowerTerm_regular hs hm hv fun h => (hsure h).2 0 (hsure h).1).bind ?_
  rintro first t ht
  -- The sum that is carried along is a register.
  refine (Achieves.foldlM (I := fun u => u.Regular form load component) (L := LoweringState.Grows)
    (C := fun _ sum u => sum < u.builder.code.size) (l := []) (o := s) LoweringState.Grows.trans
    ht.regular ht.grows ht.register ?_).mono id fun sum u h => ⟨h.1, h.2.1, h.2.2⟩
  intro cs c sum u hu hsu hsum
  refine (lowerTerm_regular hu (lt_of_grows hsu hm) (lt_of_grows hsu hv) fun h => ?_).bind ?_
  · have hc := List.mem_range'_1.mp h.2
    exact (hsure h.1).2 c (by omega)
  rintro term w hw
  refine (emitArith_regular hw.regular .add (Nat.lt_of_lt_of_le hsum hw.grows.size_le)
    hw.register).mono id fun r' w' h => ⟨h.regular, hw.grows.trans h.grows, h.register⟩

end Rows

variable {target : LoweringTarget} {bound : Nat}

omit [Scalar α] in
/-- A derivative that may be lowered. -/
theorem lowerDeriv_regular (hs : s.Regular form load component) {basis : String} {orders : List Nat}
    (h : form.Admits target bound load (.deriv basis orders)) :
    Achieves sure (lowerDeriv form target basis orders) s (EmittedOne form load component s) := by
  obtain ⟨harrays, -, hbasis⟩ := h.resolves _ (Expr.mem_nodes_self _)
  have htarget : target = .kernel := by
    cases target with
    | kernel => rfl
    | grid => cases harrays
  have hrole : ∃ role, basisRole form basis = .ok role := by
    rcases hbasis with rfl | ⟨rfl, harity⟩
    · exact ⟨.test, rfl⟩
    · refine ⟨.trial, ?_⟩
      rw [basisRole, harity]
      rfl
  unfold lowerDeriv
  refine (Achieves.lift (P := fun _ t => s = t) (fun _ => ⟨(), ?_⟩) fun _ _ => rfl).bind ?_
  · exact require_eq_ok_iff.mpr (beq_iff_eq.mpr htarget)
  rintro _ _ rfl
  refine (Achieves.lift (P := fun role t => s = t ∧ basisRole form basis = .ok role)
    (fun _ => hrole) fun _ h => ⟨rfl, h⟩).bind ?_
  rintro role _ ⟨rfl, hr⟩
  exact emitWith_regular hs (ProgramBuilder.loadBasis_emits hs.readsOnly
    (h.loads basis orders (Expr.mem_nodes_self _) role hr))

/-- **The registers of an expression.** The lowering stays regular; if references carry the sizes of their
fields, it cannot fail, and there are as many registers as the shape says. -/
theorem lower_regular {fields : FieldLookup α} (bound : Nat)
    (hfields : ∀ f ∈ form.fields, f.id < bound → (target.arraysOnly = true → f.isArray = true) →
      ∀ t, t.Regular form load component → Achieves (form.LocalsSized (f.id + 1)) (fields f.name) t
        fun registers t' => Emitted form load component t registers t' ∧
          (form.LocalsSized (f.id + 1) → registers.length = f.shape.size))
    (e : Expr α) : form.Admits target bound load e → ∀ s, s.Regular form load component →
      Achieves (form.Sizes e) (lower form target fields e) s fun registers s' =>
        Emitted form load component s registers s' ∧
          (form.Sizes e → registers.length = e.shape.size) := by
  induction e using Expr.operand_induction with
  | step e ih =>
  intro hadmits s hs
  -- Operands are lowered as the expression is, and are sized if it is.
  have hoperand : ∀ x ∈ e.operands, ∀ t, t.Regular form load component →
      Achieves (form.Sizes e) (lower form target fields x) t fun registers t' =>
        Emitted form load component t registers t' ∧
          (form.Sizes e → registers.length = x.shape.size) := fun x hx t ht =>
    (ih x hx (hadmits.operand hx) t ht).mono (fun h => h.operand hx)
      fun _ _ h => ⟨h.1, fun hsizes => h.2 (hsizes.operand hx)⟩
  have hshaped : form.Sizes e → e.WellShaped := fun h => h.wellShaped
  cases e with
  | const c =>
    simp only [lower]
    refine (emitWith_regular hs (ProgramBuilder.constant_emits hs.readsOnly ⟨c, false⟩)).bind
      fun r t h => .pure ⟨h.singleton, fun _ => rfl⟩
  | field name shape symmetric =>
    simp only [lower]
    obtain ⟨f, hf, rfl, hlt, harray⟩ := hadmits.resolves _ (Expr.mem_nodes_self _)
    have hsize : form.Sizes (.field f.name shape symmetric) →
        form.LocalsSized (f.id + 1) ∧ shape.size = f.shape.size :=
      fun h => h.fields f.name shape symmetric (Expr.mem_nodes_self _) f hf rfl
    refine (hfields f hf hlt harray s hs).mono (fun h => (hsize h).1) fun registers t h => ?_
    exact ⟨h.1, fun hsizes => (h.2 (hsize hsizes).1).trans (hsize hsizes).2.symm⟩
  | binary op lhs rhs =>
    simp only [lower, Expr.shape]
    rw [Expr.WellShaped] at hshaped
    refine (hoperand lhs (by simp [Expr.operands]) s hs).bind fun xs t hxs => ?_
    refine (hoperand rhs (by simp [Expr.operands]) t hxs.1.regular).bind fun ys u hys => ?_
    refine (mapM_regular hys.1.regular ?_).mono id fun rs v hrs => ⟨⟨hrs.1.regular,
      (hxs.1.grows.trans hys.1.grows).trans hrs.1.grows, hrs.1.registers⟩, fun h => ?_⟩
    · rintro ⟨x, k⟩ hx v hv huv
      rw [List.mk_mem_zipIdx_iff_getElem?] at hx
      refine (registerAt_regular (lt_of_grows huv hys.1.registers) fun h => ?_).bind ?_
      · rw [hys.2 h, ← (hshaped h).2.2, ← hxs.2 h]
        exact (List.getElem?_eq_some_iff.mp hx).1
      rintro y _ ⟨rfl, hy⟩
      exact emitArith_regular hv op
        (lt_of_grows (hys.1.grows.trans huv) hxs.1.registers x (List.mem_of_getElem? hx)) hy
    · rw [hrs.2, List.length_zipIdx, hxs.2 h]
  | index vector k =>
    simp only [lower]
    rw [Expr.WellShaped] at hshaped
    refine (hoperand vector (List.mem_singleton_self _) s hs).bind fun xs t hxs => ?_
    refine (registerAt_regular hxs.1.registers fun h => ?_).bind ?_
    · rw [hxs.2 h]
      exact (hshaped h).1.lt_size (hshaped h).2.2
    rintro r _ ⟨rfl, hr⟩
    exact .pure ⟨⟨hxs.1.regular, hxs.1.grows, List.forall_mem_singleton.mpr hr⟩, fun _ => rfl⟩
  | entry matrix i j =>
    simp only [lower]
    rw [Expr.WellShaped] at hshaped
    refine (hoperand matrix (List.mem_singleton_self _) s hs).bind fun xs t hxs => ?_
    refine (registerAt_regular hxs.1.registers fun h => ?_).bind ?_
    · rw [hxs.2 h]
      exact Shape.entry_lt_size (hshaped h).2.2.1 (hshaped h).2.2.2
    rintro r _ ⟨rfl, hr⟩
    exact .pure ⟨⟨hxs.1.regular, hxs.1.grows, List.forall_mem_singleton.mpr hr⟩, fun _ => rfl⟩
  | slice vector ks =>
    simp only [lower, Expr.shape, Shape.size_vector]
    rw [Expr.WellShaped] at hshaped
    refine (hoperand vector (List.mem_singleton_self _) s hs).bind fun xs t hxs => ?_
    refine (mapM_regular hxs.1.regular fun k hk u hu htu => ?_).mono id fun rs u hrs =>
      ⟨⟨hrs.1.regular, hxs.1.grows.trans hrs.1.grows, hrs.1.registers⟩, fun _ => hrs.2⟩
    refine (registerAt_regular (lt_of_grows htu hxs.1.registers) fun h => ?_).mono id ?_
    · rw [hxs.2 h]
      exact (hshaped h).1.lt_size ((hshaped h).2.2.2 k hk)
    · rintro r _ ⟨rfl, hr⟩
      exact ⟨hu, LoweringState.Grows.refl _, hr⟩
  | matmul matrix vector =>
    simp only [lower, Expr.shape, Shape.size_vector]
    rw [Expr.WellShaped] at hshaped
    refine (hoperand matrix (by simp [Expr.operands]) s hs).bind fun xs t hxs => ?_
    refine (hoperand vector (by simp [Expr.operands]) t hxs.1.regular).bind fun ys u hys => ?_
    refine (mapM_regular hys.1.regular fun r hr v hv huv => ?_).mono id fun rs v hrs =>
      ⟨⟨hrs.1.regular, (hxs.1.grows.trans hys.1.grows).trans hrs.1.grows, hrs.1.registers⟩,
        fun _ => hrs.2.trans (List.length_range ..)⟩
    refine lowerRow_regular hv (lt_of_grows (hys.1.grows.trans huv) hxs.1.registers)
      (lt_of_grows huv hys.1.registers) fun h => ?_
    obtain ⟨hmatrix, hvector, -, -, hinner⟩ := hshaped h
    refine ⟨hmatrix.shape_pos.2, fun c hc => ?_⟩
    rw [hxs.2 h, hys.2 h]
    exact ⟨Shape.entry_lt_size (List.mem_range.mp hr) hc, hvector.lt_size (hinner ▸ hc)⟩
  | deriv basis orders =>
    simp only [lower]
    exact (lowerDeriv_regular hs hadmits).bind fun r t h => .pure ⟨h.singleton, fun _ => rfl⟩
  | compose shape components =>
    simp only [lower, lowerFirsts_eq_mapM, Expr.shape]
    rw [Expr.WellShaped, Expr.allScalars_iff] at hshaped
    refine (mapM_regular hs fun e he t ht hst => ?_).mono id fun rs u hrs =>
      ⟨hrs.1, fun h => hrs.2.trans (hshaped h).2.1⟩
    refine (hoperand e he t ht).bind fun xs u hxs => ?_
    refine (registerAt_regular hxs.1.registers fun h => ?_).mono id ?_
    · rw [hxs.2 h]
      exact ((hshaped h).1 e he).1.size_pos
    · rintro r _ ⟨rfl, hr⟩
      exact ⟨hxs.1.regular, hxs.1.grows, hr⟩

/-! ## (5) Fields -/

omit [Scalar α] in
/-- The registers of an array field are loads of its components. -/
theorem loadStored_regular (hs : s.Regular form load component) {f : FieldVariable α}
    (hshape : f.shape.Declarable f.symmetric) (hcomponent : ∀ c < f.storageSize, component f.id c) :
    Achieves sure (f.shape.positions.mapM fun (i, j) =>
      (tryEmit fun b => b.loadField f.id (f.backingIndex i j) : LoweringM α Nat)) s
      fun registers s' => Emitted form load component s registers s' ∧
        registers.length = f.shape.size := by
  refine (mapM_regular hs ?_).mono id fun registers t h => ⟨h.1, h.2.trans (Shape.length_positions _)⟩
  rintro ⟨i, j⟩ hmem t ht -
  obtain ⟨hi, hj⟩ := Shape.mem_positions.mp hmem
  exact tryEmit_regular ht (ProgramBuilder.loadField_emits ht.readsOnly
    (hcomponent _ (FieldVariable.backingIndex_lt hshape hi hj)))

/-- **The registers of a field,** which are as many as its shape says where references carry the sizes of
their fields. -/
theorem fieldRegisters_regular (hform : form.Valid)
    (hcomponent : ∀ f ∈ form.fields, f.id < bound → f.isArray = true →
      ∀ c < f.storageSize, component f.id c)
    (hlocal : target = .kernel → ∀ f ∈ form.fields, ∀ e, f.definition = .perEntry (some e) →
      form.Admits target f.id load e) (depth : Nat) :
    ∀ f ∈ form.fields, f.id < bound → f.id < depth → (target.arraysOnly = true → f.isArray = true) →
      ∀ t, t.Regular form load component → Achieves (form.LocalsSized (f.id + 1))
        (fieldRegisters form target depth f.name) t fun registers t' =>
          Emitted form load component t registers t' ∧
            (form.LocalsSized (f.id + 1) → registers.length = f.shape.size) := by
  induction depth with
  | zero => exact fun f _ _ hlt => absurd hlt (Nat.not_lt_zero _)
  | succ depth ih =>
    intro f hf hbound hdepth harrays s hs
    have hfield := hform.field_eq_ok hf
    cases harray : f.isArray with
    | true =>
      rw [fieldRegisters_array target hfield harray]
      exact (loadStored_regular hs (hform.shapes f hf) (hcomponent f hf hbound harray)).mono id
        fun _ _ h => ⟨h.1, fun _ => h.2⟩
    | false =>
      obtain ⟨o, ho⟩ := FieldVariable.perEntry_of_not_isArray harray
      obtain ⟨e, rfl, hbuilt, hshape, hnodes⟩ := hform.locals f hf o ho
      obtain rfl : target = .kernel := by
        cases target with
        | kernel => rfl
        | grid =>
          rw [harrays rfl] at harray
          cases harray
      rw [fieldRegisters_local hfield harray]
      refine Achieves.get.bind ?_
      rintro _ _ ⟨rfl, rfl⟩
      split
      · -- The field has been lowered before.
        rename_i id registers hfind
        obtain ⟨hmem, hid⟩ := mem_of_find?_key hfind
        exact .pure ⟨⟨hs, .refl s, hs.registers _ hmem⟩, hs.lengths _ hmem f hf hid.symm⟩
      · have hexpr : f.definition.expression = some e := by rw [ho]; rfl
        -- The definition refers to fields of smaller numbers.
        have hsizes : form.LocalsSized (f.id + 1) → form.Sizes e := by
          intro h
          refine ⟨hbuilt.wellShaped, fun name shape symmetric hnode g hg hname => ?_⟩
          obtain ⟨g', hg', hname', hlt, -⟩ := hnodes _ hnode
          obtain rfl := hform.eq_of_name hg hg' (hname.trans hname'.symm)
          exact ⟨h.mono (by omega), h f hf (Nat.lt_succ_self _) e ho name shape symmetric hnode g hg hname⟩
        rw [hexpr, lowerOperand]
        refine ((lower_regular f.id (fun g hg hlt => ih g hg (by omega) (by omega)) e
          (hlocal rfl f hf e ho) s hs).mono hsizes fun _ _ h => h).bind fun registers t ht => ?_
        have hlength : form.LocalsSized (f.id + 1) → registers.length = f.shape.size :=
          fun h => (ht.2 (hsizes h)).trans (congrArg Shape.size hshape)
        refine Achieves.modify.bind ?_
        rintro _ _ rfl
        refine .pure ⟨⟨⟨ht.1.regular.readsOnly, ?_, ?_⟩, ht.1.grows, ht.1.registers⟩, hlength⟩
        · exact List.forall_mem_cons.mpr ⟨ht.1.registers, ht.1.regular.registers⟩
        · refine List.forall_mem_cons.mpr ⟨fun g hg hid => ?_, ht.1.regular.lengths⟩
          obtain rfl := hform.eq_of_id hg hf hid
          exact hlength

/-- **The registers of an expression of a form** that refers to fields below `bound`. -/
theorem lowerIn_regular (hform : form.Valid)
    (hcomponent : ∀ f ∈ form.fields, f.id < bound → f.isArray = true →
      ∀ c < f.storageSize, component f.id c)
    (hlocal : target = .kernel → ∀ f ∈ form.fields, ∀ e, f.definition = .perEntry (some e) →
      form.Admits target f.id load e) {e : Expr α} (he : form.Admits target bound load e)
    (hs : s.Regular form load component) :
    Achieves (form.Sizes e) (lowerIn form target (some e)) s fun registers s' =>
      Emitted form load component s registers s' ∧ (form.Sizes e → registers.length = e.shape.size) := by
  refine lower_regular bound (fun f hf hlt => ?_) e he s hs
  have hid := hform.id_lt hf
  exact fieldRegisters_regular hform hcomponent hlocal _ f hf hlt (by omega)

end Galerkin
