import Galerkin.Expr.Build
import Galerkin.Proofs.Steps
import Mathlib.Data.List.Basic

/-! # Calls

Every building block and every operation of `Galerkin.Expr.Build` is a call: it has arguments and operands,
a rule on shapes and positions, and a result.

* **`Checked`** — a step with conditions on its arguments and a rule on shapes;
* **`InRange`**, **`wrapped`** — positions that count from the end;
* **`Expr.Call`**, **`Expr.Call.Admissible`**, **`Expr.Call.Fits`**, **`Expr.Call.result`** — the calls, what
  they check and what they make;
* **`Expr.Call.checked`** — a call makes its result exactly if it passes both. -/

namespace Galerkin

variable {α β γ : Type}

/-! ## (1) Steps with a rule -/

/-- The step is refused for a cause with this status. -/
def FailsWith (status : Status) (x : Except Error β) : Prop :=
  ∃ cause, x = .error cause ∧ cause.status = status

/-- A step is refused with one status only. -/
theorem FailsWith.status_unique {s t : Status} {x : Except Error β} (hs : FailsWith s x) (ht : FailsWith t x) :
    s = t := by
  obtain ⟨cause, rfl, rfl⟩ := hs
  obtain ⟨_, h, rfl⟩ := ht
  rw [Except.error.inj h]

/-- A step that succeeds is not refused. -/
theorem not_failsWith_ok {status : Status} {b : β} : ¬FailsWith status (.ok b) := by
  rintro ⟨_, h, -⟩
  cases h

/-- **A checked step.** Its arguments are looked at first, then its rule on shapes and positions; it yields
`b` if both hold. -/
structure Checked (admissible rule : Prop) (x : Except Error β) (b : β) : Prop where
  ok : admissible → rule → x = .ok b
  mismatch : admissible → ¬rule → FailsWith .shapeMismatch x
  refused : ¬admissible → FailsWith .invalidArgument x

namespace Checked

variable {a a' r r' p : Prop} {x : Except Error β} {b : β}

/-- Conditions in other words. -/
theorem congr (h : Checked a r x b) (ha : a ↔ a') (hr : r ↔ r') : Checked a' r' x b := by
  rwa [propext ha, propext hr] at h

/-- A step without a check. -/
theorem pure : Checked True True (pure b) b :=
  ⟨fun _ _ => rfl, fun _ h => (h trivial).elim, fun h => (h trivial).elim⟩

/-- A check of an argument, before the others. -/
theorem argument {condition : Bool} {cause : Error} {f : Unit → Except Error β} (hp : condition = true ↔ p)
    (hstatus : cause.status = .invalidArgument) (h : p → Checked a r (f ()) b) :
    Checked (p ∧ a) r (require condition cause >>= f) b := by
  by_cases hcond : p
  · have hok : (require condition cause >>= f) = f () := by rw [hp.mpr hcond]; rfl
    exact hok ▸ (h hcond).congr (and_iff_right hcond).symm Iff.rfl
  · have herror : (require condition cause >>= f) = .error cause := by
      rw [Bool.eq_false_iff.mpr (mt hp.mp hcond)]; rfl
    exact ⟨fun ha => (hcond ha.1).elim, fun ha => (hcond ha.1).elim, fun _ => ⟨cause, herror, hstatus⟩⟩

/-- Two steps with rules. -/
theorem bind {f : β → Except Error γ} {c : γ} (hx : Checked True p x b) (h : p → Checked True r (f b) c) :
    Checked True (p ∧ r) (x >>= f) c := by
  by_cases hp : p
  · have hok : (x >>= f) = f b := by rw [hx.ok trivial hp]; rfl
    exact hok ▸ (h hp).congr Iff.rfl (and_iff_right hp).symm
  · obtain ⟨cause, rfl, hstatus⟩ := hx.mismatch trivial hp
    exact ⟨fun _ hr => (hp hr.1).elim, fun _ _ => ⟨cause, rfl, hstatus⟩, fun h => (h trivial).elim⟩

/-- A check of a shape, before the others. -/
theorem shape {condition : Bool} {cause : Error} {f : Unit → Except Error β} (hp : condition = true ↔ p)
    (hstatus : cause.status = .shapeMismatch) (h : p → Checked True r (f ()) b) :
    Checked True (p ∧ r) (require condition cause >>= f) b := by
  refine bind ⟨fun _ hcond => ?_, fun _ hcond => ⟨cause, ?_, hstatus⟩, fun h => (h trivial).elim⟩ h
  · exact require_eq_ok_iff.mpr (hp.mpr hcond)
  · rw [Bool.eq_false_iff.mpr (mt hp.mp hcond)]; rfl

/-- A check of an argument, the last of them. -/
theorem lastArgument {condition : Bool} {cause : Error} {f : Unit → Except Error β} (hp : condition = true ↔ p)
    (hstatus : cause.status = .invalidArgument) (h : p → Checked True r (f ()) b) :
    Checked p r (require condition cause >>= f) b :=
  (argument hp hstatus h).congr (and_iff_left trivial) Iff.rfl

/-- A step whose result is converted. -/
theorem map {f : β → γ} (hx : Checked True p x b) : Checked True p (x >>= fun b => Pure.pure (f b)) (f b) :=
  (bind (f := fun b => Pure.pure (f b)) hx fun _ => pure).congr Iff.rfl (and_iff_left trivial)

/-- A check of a shape, the last of them. -/
theorem lastShape {condition : Bool} {cause : Error} (hp : condition = true ↔ p)
    (hstatus : cause.status = .shapeMismatch) : Checked True p (require condition cause >>= fun _ => Pure.pure b) b :=
  (shape (f := fun _ => Pure.pure b) hp hstatus fun _ => pure).congr Iff.rfl (and_iff_left trivial)

/-- A traversal whose steps have rules. -/
theorem mapM {ι : Type} {f : ι → Except Error β} {rule : ι → Prop} {g : ι → β} {xs : List ι}
    (h : ∀ i ∈ xs, Checked True (rule i) (f i) (g i)) :
    Checked True (∀ i ∈ xs, rule i) (xs.mapM f) (xs.map g) := by
  induction xs with
  | nil => exact pure.congr Iff.rfl (by simp)
  | cons i xs ih =>
    obtain ⟨hi, hxs⟩ := List.forall_mem_cons.mp h
    rw [List.mapM_cons]
    exact (hi.bind fun _ => (ih hxs).map (f := (g i :: ·))).congr Iff.rfl List.forall_mem_cons.symm

/-- What a checked step does, in each of the three cases. -/
theorem outcome (h : Checked a r x b) :
    (a ∧ r → x = .ok b) ∧ (FailsWith .shapeMismatch x ↔ a ∧ ¬r) ∧ (FailsWith .invalidArgument x ↔ ¬a) := by
  refine ⟨fun har => h.ok har.1 har.2, ⟨fun hx => ?_, fun har => h.mismatch har.1 har.2⟩, fun hx ha => ?_, h.refused⟩
  · by_cases ha : a
    · exact ⟨ha, fun hr => not_failsWith_ok (h.ok ha hr ▸ hx)⟩
    · cases hx.status_unique (h.refused ha)
  · by_cases hr : r
    · exact not_failsWith_ok (h.ok ha hr ▸ hx)
    · cases hx.status_unique (h.mismatch ha hr)

/-- A checked step that succeeds has passed both checks, and its result is known. -/
theorem of_ok {e : β} (h : Checked a r x b) (hx : x = .ok e) : a ∧ r ∧ e = b := by
  have ha : a := by
    by_contra ha
    exact not_failsWith_ok (hx ▸ h.refused ha)
  have hr : r := by
    by_contra hr
    exact not_failsWith_ok (hx ▸ h.mismatch ha hr)
  exact ⟨ha, hr, Except.ok.inj (hx.symm.trans (h.ok ha hr))⟩

end Checked

/-! ## (2) Positions that count from the end -/

/-- A position of a vector of this length, counted from the start or, if negative, from the end. -/
def InRange (length : Nat) (k : Int) : Prop := -(length : Int) ≤ k ∧ k < length

/-- The position counted from the start. -/
def wrapped (length : Nat) (k : Int) : Nat := (if k < 0 then k + length else k).toNat

/-- A position in range is one of the vector. -/
theorem wrapped_lt {length : Nat} {k : Int} (h : InRange length k) : wrapped length k < length := by
  unfold InRange at h
  unfold wrapped
  split <;> omega

/-- The integers from `first` to before `last`. -/
def integersFrom (first last : Int) : List Int :=
  (List.range (last - first).toNat).map fun (k : Nat) => first + k

/-- The integers between two bounds. -/
theorem mem_integersFrom {first last k : Int} : k ∈ integersFrom first last ↔ first ≤ k ∧ k < last := by
  simp only [integersFrom, List.mem_map, List.mem_range]
  constructor
  · rintro ⟨m, hm, rfl⟩
    omega
  · rintro ⟨hfirst, hlast⟩
    exact ⟨(k - first).toNat, by omega, by omega⟩

/-- There are integers between two bounds in order. -/
theorem integersFrom_ne_nil_iff {first last : Int} : integersFrom first last ≠ [] ↔ first < last := by
  rw [integersFrom, ne_eq, List.map_eq_nil_iff, List.range_eq_nil]
  omega

/-- The positions from `first` to before `last` are all in range if both ends are. -/
theorem forall_integersFrom_inRange {length : Nat} {first last : Int} (h : first < last) :
    (∀ k ∈ integersFrom first last, InRange length k) ↔ -(length : Int) ≤ first ∧ last ≤ length := by
  simp only [mem_integersFrom, InRange]
  constructor
  · intro hall
    have hfirst := hall first ⟨Int.le_refl _, h⟩
    have hlast := hall (last - 1) (by omega)
    omega
  · rintro ⟨hfirst, hlast⟩ k hk
    omega

namespace Operand

variable {operation : String} {length : Nat} {k : Int} {x : Expr α}

/-- **A position is accepted exactly if it is in range.** -/
theorem wrapPosition_checked :
    Checked True (InRange length k) (wrapPosition operation length k) (wrapped length k) := by
  show Checked True _ (require _ (.expr (.indexRange operation k length)) >>= fun _ => pure (wrapped length k)) _
  refine Checked.lastShape ?_ rfl
  rw [Bool.and_eq_true, decide_eq_true_eq, decide_eq_true_eq, InRange]
  split <;> omega

/-- A vector operand is checked before anything else. -/
theorem getVector_bind {f : Expr α → Except Error β} :
    (getVector operation (some x) >>= f) =
      require x.shape.isVector (.expr (.notVector operation x.shape)) >>= fun _ => f x := by
  cases h : x.shape.isVector <;> simp [getVector, get, h, require, Bind.bind, Except.bind, Pure.pure, Except.pure]

end Operand

/-! ## (3) Calls -/

namespace Expr

/-- **A use of a building block or an operation,** with its arguments and with operands that are present. -/
inductive Call (α : Type) where
  | const (value : α)
  | field (name : String) (shape : Shape) (symmetric : Bool)
  | deriv (basis : String) (orders : List Int)
  | vector (components : List (Expr α))
  | matrix (rows cols : Nat) (components : List (Expr α))
  | arith (op : ArithOp) (lhs rhs : Expr α)
  | index (x : Expr α) (position : Int)
  | entry (m : Expr α) (row col : Int)
  | slice (x : Expr α) (positions : List Int)
  | range (x : Expr α) (first last : Int)
  | matmul (m x : Expr α)
  | inner (x y : Expr α)

namespace Call

/-- What the operation does. -/
def run : Call α → Except Error (Expr α)
  | const value => .ok (.const value)
  | field name shape symmetric => ofField name shape symmetric
  | deriv basis orders => ofDeriv basis orders
  | vector components => ofVector (components.map some)
  | matrix rows cols components => ofMatrix rows cols (components.map some)
  | arith op lhs rhs => Operand.arith op (some lhs) (some rhs)
  | index x position => Operand.index (some x) position
  | entry m row col => Operand.entry (some m) row col
  | slice x positions => Operand.slice (some x) positions
  | range x first last => Operand.sliceRange (some x) first last
  | matmul m x => Operand.matmul (some m) (some x)
  | inner x y => Operand.inner (some x) (some y)

/-- The operands. -/
def operands : Call α → List (Expr α)
  | const _ | field _ _ _ | deriv _ _ => []
  | vector components | matrix _ _ components => components
  | index x _ | entry x _ _ | slice x _ | range x _ _ => [x]
  | arith _ x y | matmul x y | inner x y => [x, y]

/-- The conditions on arguments, which building blocks have: names, extents and lists are not empty and orders
not negative. -/
def Admissible : Call α → Prop
  | field name shape _ => name ≠ "" ∧ 0 < shape.rows ∧ 0 < shape.cols
  | deriv basis orders => basis ≠ "" ∧ orders ≠ [] ∧ ∀ d ∈ orders, 0 ≤ d
  | vector components => components ≠ []
  | matrix rows cols _ => 0 < rows ∧ 0 < cols
  | _ => True

/-- **The rule on shapes and positions.** -/
def Fits : Call α → Prop
  | const _ | deriv _ _ => True
  | field _ shape symmetric => symmetric = true → shape.isMatrix = true ∧ shape.rows = shape.cols
  | vector components => ∀ e ∈ components, e.shape.isScalar = true
  | matrix rows cols components =>
    components.length = rows * cols ∧ ∀ e ∈ components, e.shape.isScalar = true
  | arith _ lhs rhs => lhs.shape = rhs.shape
  | index x position => x.shape.isVector = true ∧ InRange x.shape.rows position
  | entry m row col => m.shape.isMatrix = true ∧ InRange m.shape.rows row ∧ InRange m.shape.cols col
  | slice x positions =>
    x.shape.isVector = true ∧ positions ≠ [] ∧ ∀ k ∈ positions, InRange x.shape.rows k
  | range x first last =>
    x.shape.isVector = true ∧ first < last ∧ -(x.shape.rows : Int) ≤ first ∧ last ≤ x.shape.rows
  | matmul m x => m.shape.isMatrix = true ∧ x.shape.isVector = true ∧ m.shape.cols = x.shape.rows
  | inner x y => (x.shape.isVector = true ∧ y.shape.isVector = true) ∧ x.shape.rows = y.shape.rows

/-- **What the call makes.** -/
def result : Call α → Expr α
  | const value => .const value
  | field name shape symmetric => .field name shape symmetric
  | deriv basis orders => .deriv basis (orders.map Int.toNat)
  | vector components => .compose (.vector components.length) components
  | matrix rows cols components => .compose (.matrix rows cols) components
  | arith op lhs rhs => .binary op lhs rhs
  | index x position => .index x (wrapped x.shape.rows position)
  | entry m row col => .entry m (wrapped m.shape.rows row) (wrapped m.shape.cols col)
  | slice x positions => .slice x (positions.map (wrapped x.shape.rows))
  | range x first last => .slice x ((integersFrom first last).map (wrapped x.shape.rows))
  | matmul m x => .matmul m x
  | inner x y => Operand.innerSum x y (x.shape.rows - 1)

/-! ## (4) What a call checks -/

/-- Every operand of a composed value must be a scalar. -/
theorem scalars_checked {operation : String} {refusal : Shape → ExprError} {es : List (Expr α)}
    (hstatus : ∀ s, (refusal s).status = .shapeMismatch) :
    Checked True (∀ e ∈ es, e.shape.isScalar = true) (scalars operation refusal (es.map some)) es := by
  have hall : Checked True (∀ e ∈ es, e.shape.isScalar = true)
      (es.mapM fun e => require e.shape.isScalar (.expr (refusal e.shape)) >>= fun _ => pure e) (es.map id) :=
    Checked.mapM fun e _ => Checked.lastShape Iff.rfl (hstatus e.shape)
  rw [List.map_id] at hall
  rw [scalars, List.mapM_map]
  exact hall

/-- A slice must have a position, and each of them must be in range. -/
theorem slice_checked (x : Expr α) (ks : List Int) :
    Checked True (x.shape.isVector = true ∧ ks ≠ [] ∧ ∀ k ∈ ks, InRange x.shape.rows k)
      (Operand.slice (some x) ks) (.slice x (ks.map (wrapped x.shape.rows))) := by
  have hne : (!ks.isEmpty) = true ↔ ks ≠ [] := by simp
  have hpositions : Checked True (∀ k ∈ ks, InRange x.shape.rows k)
      (ks.mapM (Operand.wrapPosition "slice" x.shape.rows)) (ks.map (wrapped x.shape.rows)) :=
    Checked.mapM fun k _ => Operand.wrapPosition_checked
  rw [Operand.slice, Operand.getVector_bind]
  exact Checked.shape Iff.rfl rfl fun _ => Checked.shape hne rfl fun _ => hpositions.map

/-- **A call makes its result exactly if its arguments are admissible and its operands fit.** -/
theorem checked (c : Call α) : Checked c.Admissible c.Fits c.run c.result := by
  cases c with
  | const value => exact Checked.pure
  | field name shape symmetric =>
    -- Name and extents are arguments; whether the shape may be symmetric is a rule on it.
    have hname : (!name.isEmpty) = true ↔ name ≠ "" := by simp
    have hpos : (decide (0 < shape.rows) && decide (0 < shape.cols)) = true ↔ 0 < shape.rows ∧ 0 < shape.cols := by
      simp
    have hsquare : (!symmetric || (shape.isMatrix && shape.rows == shape.cols)) = true ↔
        (symmetric = true → shape.isMatrix = true ∧ shape.rows = shape.cols) := by
      cases symmetric <;> simp
    exact Checked.argument hname rfl fun _ => Checked.lastArgument hpos rfl fun _ => Checked.lastShape hsquare rfl
  | deriv basis orders =>
    have hbasis : (!basis.isEmpty) = true ↔ basis ≠ "" := by simp
    have horders : (!orders.isEmpty) = true ↔ orders ≠ [] := by simp
    have hnonneg : (orders.all fun d => decide (0 ≤ d)) = true ↔ ∀ d ∈ orders, 0 ≤ d := by simp
    exact Checked.argument hbasis rfl fun _ => Checked.argument horders rfl fun _ =>
      Checked.lastArgument hnonneg rfl fun _ => Checked.pure
  | vector components =>
    have hne : (!(components.map some).isEmpty) = true ↔ components ≠ [] := by simp
    have hscalars : Checked True _ (scalars "Expr::vector" .vectorComponent (components.map some)) components :=
      scalars_checked fun _ => rfl
    rw [run, ofVector, List.length_map]
    exact Checked.lastArgument hne rfl fun _ => hscalars.map
  | matrix rows cols components =>
    have hpos : (decide (0 < rows) && decide (0 < cols)) = true ↔ 0 < rows ∧ 0 < cols := by simp
    have hcount : ((components.map some).length == rows * cols) = true ↔ components.length = rows * cols := by simp
    have hscalars : Checked True _ (scalars "Expr::matrix" .matrixComponent (components.map some)) components :=
      scalars_checked fun _ => rfl
    exact Checked.lastArgument hpos rfl fun _ => Checked.shape hcount rfl fun _ => hscalars.map
  | arith op lhs rhs => exact Checked.lastShape beq_iff_eq rfl
  | index x position =>
    rw [run, Operand.index, Operand.getVector_bind]
    exact Checked.shape Iff.rfl rfl fun _ => Operand.wrapPosition_checked.map
  | entry m row col =>
    exact Checked.shape Iff.rfl rfl fun _ => Operand.wrapPosition_checked.bind fun _ =>
      Operand.wrapPosition_checked.map
  | slice x positions => exact slice_checked x positions
  | range x first last =>
    -- A range is in range if its two ends are.
    refine (slice_checked x (integersFrom first last)).congr Iff.rfl (and_congr_right fun _ => ?_)
    rw [integersFrom_ne_nil_iff]
    exact and_congr_right forall_integersFrom_inRange
  | matmul m x =>
    exact Checked.shape Iff.rfl rfl fun _ => Checked.shape Iff.rfl rfl fun _ => Checked.lastShape beq_iff_eq rfl
  | inner x y =>
    have hvectors : (x.shape.isVector && y.shape.isVector) = true ↔
        x.shape.isVector = true ∧ y.shape.isVector = true := by rw [Bool.and_eq_true]
    exact Checked.shape hvectors rfl fun _ => Checked.lastShape beq_iff_eq rfl

end Call

end Expr

end Galerkin
