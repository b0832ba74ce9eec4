import Galerkin.Proofs.Basis.Derivatives
import Galerkin.Proofs.Basis.Search
import Galerkin.Proofs.Index.Table

/-! # The recurrence in fixed tables

Values and derivatives on a span can be computed in tables that are set up once and filled step by step: one
square table for the values of all degrees and the knot differences, and two rows for the coefficients of
the last two orders, which change roles with every order. Here every access to a table is checked, and so is
every divisor. On a span of positive length inside the knots no check fails, and the entries are those of
the recurrence on lists.

* **`SpanPoint.derivatives?`** — the computation, with all its steps checked;
* **`SpanPoint.Usable`** — knots that are there, and knot differences that are not zero;
* **`SpanPoint.triangle?_yields`** — the square table holds values above and differences below its diagonal;
* **`SpanPoint.orderStep?_yields`** — one order of one function: coefficients and their sum;
* **`SpanPoint.derivatives?_yields`** — the whole table;
* **`KnotVector.findSpan_usable`** — the span that is found for a point can be used. -/

namespace Galerkin

/-! ## (1) The computation -/

namespace SpanPoint

section Computation

variable {α : Type} [Scalar α]

/-- The tables that the values are computed in. -/
structure Triangle (α : Type) (width : Nat) where
  left : Table α 1 width
  right : Table α 1 width
  square : Table α width width

/-- The share of function `r` in the values of degree `j`: `square` has values above its diagonal and knot
differences below it, and the last component is what the function hands over to the next one. -/
def shareStep? {width : Nat} (left right : Table α 1 width) (j : Nat) (state : Table α width width × α)
    (r : Nat) : Option (Table α width width × α) := do
  let ahead ← right.get? 0 (r + 1)
  let behind ← left.get? 0 (j - r)
  let square ← state.1.set? j r (ahead + behind)
  let value ← square.get? r (j - 1)
  let difference ← square.get? j r
  let share ← divide? value difference
  let square ← square.set? r j (state.2 + ahead * share)
  return (square, behind * share)

/-- The values of degree `j` from those of degree `j - 1`. -/
def degreeStep? (s : SpanPoint α) (t : Triangle α (s.degree + 1)) (j : Nat) :
    Option (Triangle α (s.degree + 1)) := do
  let below ← read? s.knots (s.span + 1 - j)
  let left ← t.left.set? 0 j (s.point - below)
  let above ← read? s.knots (s.span + j)
  let right ← t.right.set? 0 j (above - s.point)
  let shared ← (List.range' 0 j).foldlM (shareStep? left right j) (t.square, Scalar.zero)
  let square ← shared.1.set? j j shared.2
  return ⟨left, right, square⟩

/-- **The values of all degrees.** -/
def triangle? (s : SpanPoint α) : Option (Triangle α (s.degree + 1)) := do
  let square ← (Table.fill (s.degree + 1) (s.degree + 1) Scalar.zero).set? 0 0 Scalar.one
  (List.range' 1 s.degree).foldlM s.degreeStep? ⟨.fill _ _ Scalar.zero, .fill _ _ Scalar.zero, square⟩

/-- Sets coefficient `j` of order `k` of function `r`, a quotient with a knot difference, in a row of `a`;
the second component is the coefficient times its value. -/
def term? {width : Nat} (square : Table α width width) (p r k : Nat) (a : Table α 2 width) (row : Int)
    (j : Nat) (numerator : α) : Option (Table α 2 width × α) := do
  let difference ← square.get? (p - k + 1) (r - k + j)
  let quotient ← divide? numerator difference
  let a ← a.set? row j quotient
  let coefficient ← a.get? row j
  let value ← square.get? (r - k + j) (p - k)
  return (a, coefficient * value)

/-- The coefficients, the derivatives, and the rows of the coefficients of the last order and the next. -/
structure OrderState (α : Type) (rows width : Nat) where
  a : Table α 2 width
  ders : Table α rows width
  old : Int
  new : Int

/-- The first coefficient comes from the first one of the last order, if function `r` has one. -/
def firstStep? {width : Nat} (square : Table α width width) (p r k : Nat) (old new : Int)
    (a : Table α 2 width) : Option (Table α 2 width × α) :=
  if k ≤ r then do
    let own ← a.get? old 0
    term? square p r k a new 0 own
  else some (a, Scalar.zero)

/-- An inner coefficient comes from two coefficients of the last order. -/
def innerStep? {width : Nat} (square : Table α width width) (p r k : Nat) (old new : Int)
    (state : Table α 2 width × α) (j : Nat) : Option (Table α 2 width × α) := do
  let own ← state.1.get? old j
  let before ← state.1.get? old (j - 1)
  let term ← term? square p r k state.1 new j (own - before)
  return (term.1, state.2 + term.2)

/-- The last coefficient comes from the last one of the last order, if function `r` has one. -/
def lastStep? {width : Nat} (square : Table α width width) (p r k : Nat) (old new : Int)
    (state : Table α 2 width × α) : Option (Table α 2 width × α) :=
  if r ≤ p - k then do
    let before ← state.1.get? old (k - 1)
    let term ← term? square p r k state.1 new k (-before)
    return (term.1, state.2 + term.2)
  else some state

/-- **The derivative of order `k`** of function `r`, and its coefficients from those of order `k - 1`. -/
def orderStep? {rows width : Nat} (square : Table α width width) (p r : Nat)
    (state : OrderState α rows width) (k : Nat) : Option (OrderState α rows width) := do
  let first ← firstStep? square p r k state.old state.new state.a
  let inner ← (innerRange p r k).foldlM (innerStep? square p r k state.old state.new) first
  let last ← lastStep? square p r k state.old state.new inner
  let ders ← state.ders.set? k r last.2
  return ⟨last.1, ders, state.new, state.old⟩

/-- The derivatives of function `r`, without their common factors. -/
def functionStep? {rows width : Nat} (square : Table α width width) (p orders : Nat)
    (state : Table α 2 width × Table α rows width) (r : Nat) :
    Option (Table α 2 width × Table α rows width) := do
  let a ← state.1.set? 0 0 Scalar.one
  let done ← (List.range' 1 orders).foldlM (orderStep? square p r) ⟨a, state.2, 0, 1⟩
  return (done.a, done.ders)

/-- Multiplies the derivative of order `k` of function `r` by a factor. -/
def scaleDerivative? {rows width : Nat} (k : Nat) (factor : α) (ders : Table α rows width) (r : Nat) :
    Option (Table α rows width) := do
  let derivative ← ders.get? k r
  ders.set? k r (derivative * factor)

/-- Multiplies the derivatives of order `k` by their factor; the second component is the factor. -/
def scaleStep? {rows width : Nat} (p : Nat) (state : Table α rows width × α) (k : Nat) :
    Option (Table α rows width × α) := do
  let ders ← (List.range' 0 (p + 1)).foldlM (scaleDerivative? k state.2) state.1
  return (ders, state.2 * Scalar.ofNat (p - k))

/-- The value of function `r`, of the full degree. -/
def valueStep? {rows width : Nat} (square : Table α width width) (p : Nat) (ders : Table α rows width)
    (r : Nat) : Option (Table α rows width) := do
  let value ← square.get? r p
  ders.set? 0 r value

/-- **Values and derivatives on a span,** one row for each order and one column for each function. -/
def derivatives? (s : SpanPoint α) (orders : Nat) : Option (Table α (orders + 1) (s.degree + 1)) := do
  let t ← s.triangle?
  let ders ← (List.range' 0 (s.degree + 1)).foldlM (valueStep? t.square s.degree)
    (.fill (orders + 1) _ Scalar.zero)
  let done ← (List.range' 0 (s.degree + 1)).foldlM (functionStep? t.square s.degree orders)
    (.fill 2 _ Scalar.zero, ders)
  let scaled ← (List.range' 1 orders).foldlM (scaleStep? s.degree) (done.2, Scalar.ofNat s.degree)
  return scaled.1

end Computation

variable {K : Type} [Field K] [LinearOrder K] {s : SpanPoint K}

/-! ## (2) Values -/

/-- **A span whose values and derivatives can be computed:** the knots that are read are there, and the knot
differences are not zero. -/
structure Usable (s : SpanPoint K) : Prop where
  degree_le : s.degree ≤ s.span
  knots : s.span + s.degree < s.knots.size
  differences : ∀ i c, c < i → i ≤ s.degree → s.knotDifference i c ≠ 0

/-- Each function of a degree has a value. -/
theorem length_distribute (s : SpanPoint K) (j : Nat) (saved : K) (r : Nat) (values : List K) :
    (s.distribute j saved r values).length = values.length + 1 := by
  induction values generalizing saved r with
  | nil => rfl
  | cons v values ih => rw [distribute, List.length_cons, ih, List.length_cons]

/-- There is one function more than the degree. -/
theorem length_valueRow (s : SpanPoint K) (j : Nat) : (s.valueRow j).length = j + 1 := by
  induction j with
  | zero => rfl
  | succ j ih => rw [valueRow, length_distribute, ih]

/-- **After the shares of the functions before `r`:** their values of degree `j` are set, their knot
differences too, and what is left to be distributed gives the other values. -/
structure Sharing (s : SpanPoint K) {width : Nat} (old : Table K width width) (j r : Nat)
    (state : Table K width width × K) : Prop where
  values : ∀ i : Nat, i < r → state.1.get? i j = (s.valueRow j)[i]?
  differences : ∀ i : Nat, i < r → state.1.get? j i = some (s.knotDifference j i)
  rest : s.distribute j state.2 r ((s.valueRow (j - 1)).drop r) = (s.valueRow j).drop r
  elsewhere : ∀ a b : Int, a < j → b < j → state.1.get? a b = old.get? a b

/-- **One share.** -/
theorem shareStep?_yields {width : Nat} {left right : Table K 1 width} {old : Table K width width}
    {j r : Nat} {state : Table K width width × K} (hj : j < width) (hr : r < j)
    (hleft : ∀ m : Nat, 1 ≤ m → m < j + 1 → left.get? 0 m = some (s.left m))
    (hright : ∀ m : Nat, 1 ≤ m → m < j + 1 → right.get? 0 m = some (s.right m))
    (hold : old.get? r (j - 1) = (s.valueRow (j - 1))[r]?) (hdifference : s.knotDifference j r ≠ 0)
    (h : s.Sharing old j r state) :
    Yields (shareStep? left right j state r) (s.Sharing old j (r + 1)) := by
  have hlength : r < (s.valueRow (j - 1)).length := by
    rw [length_valueRow]
    omega
  have hahead : right.get? 0 (r + 1) = some (s.right (r + 1)) := by
    exact_mod_cast hright (r + 1) (by omega) (by omega)
  have hbehind : left.get? 0 (j - r) = some (s.left (j - r)) := by
    rw [← Nat.cast_sub hr.le]
    exact hleft (j - r) (by omega) (by omega)
  set v := (s.valueRow (j - 1))[r]
  have hvalue : (s.valueRow (j - 1)).drop r = v :: (s.valueRow (j - 1)).drop (r + 1) :=
    List.drop_eq_getElem_cons hlength
  -- The share of the function gives its value, and the rest of the values comes from what it hands over.
  have hrow : (s.valueRow j).drop r = (state.2 + s.right (r + 1) * (v / s.knotDifference j r)) ::
      s.distribute j (s.left (j - r) * (v / s.knotDifference j r)) (r + 1)
        ((s.valueRow (j - 1)).drop (r + 1)) := by
    rw [← h.rest, hvalue, distribute]
  unfold shareStep?
  refine .after hahead (.after hbehind ?_)
  refine (state.1.set?_yields (by unfold Table.Inside; omega) _).bind fun square hsquare => ?_
  have hread : square.get? r (j - 1) = some v := by
    rw [hsquare.elsewhere _ _ (.inl (by omega)), h.elsewhere _ _ (by omega) (by omega), hold,
      List.getElem?_eq_getElem hlength]
  refine .after hread (.after hsquare.here (.after (divide?_eq hdifference v) ?_))
  refine (square.set?_yields (by unfold Table.Inside; omega) _).bind fun square' hsquare' => .some ?_
  -- The step sets entry `(j, r)` below the diagonal and then entry `(r, j)` above it.
  refine ⟨fun i hi => ?above, fun i hi => ?below, ?left, fun a b ha hb => ?elsewhere⟩
  case above =>
    rcases Nat.lt_succ_iff_lt_or_eq.mp hi with hlt | rfl
    · rw [hsquare'.elsewhere _ _ (.inl (by omega)), hsquare.elsewhere _ _ (.inl (by omega)), h.values i hlt]
    · have hhead := congrArg (·[0]?) hrow
      rw [List.getElem?_drop, Nat.add_zero] at hhead
      rw [hsquare'.here, hhead]
      rfl
  case below =>
    rcases Nat.lt_succ_iff_lt_or_eq.mp hi with hlt | rfl
    · rw [hsquare'.elsewhere _ _ (.inl (by omega)), hsquare.elsewhere _ _ (.inr (by omega)),
        h.differences i hlt]
    · rw [hsquare'.elsewhere _ _ (.inl (by omega)), hsquare.here]
      rfl
  case left =>
    have htail := congrArg (List.drop 1) hrow
    rw [List.drop_drop] at htail
    exact htail.symm
  case elsewhere =>
    rw [hsquare'.elsewhere _ _ (.inr (by omega)), hsquare.elsewhere _ _ (.inl (by omega)),
      h.elsewhere a b ha hb]

/-- **All shares of a degree.** Nothing is left to be distributed then, so the last function has what was
handed over. -/
theorem shares_yields (hs : s.Usable) {left right : Table K 1 (s.degree + 1)}
    {old : Table K (s.degree + 1) (s.degree + 1)} {j : Nat} (hpos : 1 ≤ j) (hj : j ≤ s.degree)
    (hleft : ∀ m : Nat, 1 ≤ m → m < j + 1 → left.get? 0 m = some (s.left m))
    (hright : ∀ m : Nat, 1 ≤ m → m < j + 1 → right.get? 0 m = some (s.right m))
    (hold : ∀ r : Nat, r < j → old.get? r (j - 1) = (s.valueRow (j - 1))[r]?) :
    Yields ((List.range' 0 j).foldlM (shareStep? left right j) (old, Scalar.zero)) fun shared =>
      s.Sharing old j j shared ∧ (s.valueRow j)[j]? = some shared.2 := by
  have hstart : s.Sharing old j 0 (old, Scalar.zero) := by
    refine ⟨fun i hi => absurd hi (Nat.not_lt_zero i), fun i hi => absurd hi (Nat.not_lt_zero i), ?_,
      fun a b _ _ => rfl⟩
    obtain ⟨i, rfl⟩ : ∃ i, j = i + 1 := ⟨j - 1, by omega⟩
    rfl
  have hshares := Yields.range' 0 j (I := s.Sharing old j) hstart fun r state _ hr hstate =>
    shareStep?_yields (by omega) (by omega) hleft hright (hold r (by omega))
      (hs.differences j r (by omega) hj) hstate
  refine hshares.mono fun shared hshared => ?_
  rw [Nat.zero_add] at hshared
  have hrest := hshared.rest
  rw [List.drop_of_length_le (by rw [length_valueRow]; omega), distribute] at hrest
  have hhead := congrArg (·[0]?) hrest
  rw [List.getElem?_drop] at hhead
  exact ⟨hshared, hhead.symm⟩

/-- **After the degrees below `j`.** -/
structure Filled (s : SpanPoint K) (j : Nat) (t : Triangle K (s.degree + 1)) : Prop where
  left : ∀ m : Nat, 1 ≤ m → m < j → t.left.get? 0 m = some (s.left m)
  right : ∀ m : Nat, 1 ≤ m → m < j → t.right.get? 0 m = some (s.right m)
  values : ∀ d r : Nat, d < j → r ≤ d → t.square.get? r d = (s.valueRow d)[r]?
  differences : ∀ d r : Nat, d < j → r < d → t.square.get? d r = some (s.knotDifference d r)

/-- **One degree.** -/
theorem degreeStep?_yields (hs : s.Usable) {t : Triangle K (s.degree + 1)} {j : Nat} (hpos : 1 ≤ j)
    (hj : j ≤ s.degree) (h : s.Filled j t) : Yields (s.degreeStep? t j) (s.Filled (j + 1)) := by
  have hspan := hs.degree_le
  have hsize := hs.knots
  have hbelow : read? s.knots (s.span + 1 - j) = some (knotAt s.knots (s.span + 1 - j)) := by
    have hread : read? s.knots ((s.span + 1 - j : Nat) : Int) = some (knotAt s.knots (s.span + 1 - j)) :=
      read?_eq (by omega) Scalar.zero
    rwa [Nat.cast_sub (by omega), Nat.cast_add, Nat.cast_one] at hread
  have habove : read? s.knots (s.span + j) = some (knotAt s.knots (s.span + j)) :=
    read?_eq (by omega : s.span + j < s.knots.size) Scalar.zero
  unfold degreeStep?
  refine .after hbelow ?_
  refine (t.left.set?_yields (by unfold Table.Inside; omega) _).bind fun left hleft => ?_
  refine .after habove ?_
  refine (t.right.set?_yields (by unfold Table.Inside; omega) _).bind fun right hright => ?_
  have hleftAll : ∀ m : Nat, 1 ≤ m → m < j + 1 → left.get? 0 m = some (s.left m) :=
    fun m hm hlt => hleft.row rfl hlt (h.left m hm)
  have hrightAll : ∀ m : Nat, 1 ≤ m → m < j + 1 → right.get? 0 m = some (s.right m) :=
    fun m hm hlt => hright.row rfl hlt (h.right m hm)
  have hold : ∀ r : Nat, r < j → t.square.get? r (j - 1) = (s.valueRow (j - 1))[r]? := by
    intro r hr
    have hvalue := h.values (j - 1) r (by omega) (by omega)
    rwa [Nat.cast_sub hpos, Nat.cast_one] at hvalue
  refine (shares_yields hs hpos hj hleftAll hrightAll hold).bind ?_
  rintro shared ⟨hshared, hlast⟩
  refine (shared.1.set?_yields (by unfold Table.Inside; omega) _).bind fun square hsquare => .some ?_
  refine ⟨hleftAll, hrightAll, fun d r hd hr => ?above, fun d r hd hr => ?below⟩
  case above =>
    rcases Nat.lt_succ_iff_lt_or_eq.mp hd with hlt | rfl
    · rw [hsquare.elsewhere _ _ (.inr (by omega)), hshared.elsewhere _ _ (by omega) (by omega),
        h.values d r hlt hr]
    · rcases Nat.lt_or_eq_of_le hr with hlt | rfl
      · rw [hsquare.elsewhere _ _ (.inl (by omega)), hshared.values r hlt]
      · rw [hsquare.here, hlast]
  case below =>
    rcases Nat.lt_succ_iff_lt_or_eq.mp hd with hlt | rfl
    · rw [hsquare.elsewhere _ _ (.inl (by omega)), hshared.elsewhere _ _ (by omega) (by omega),
        h.differences d r hlt hr]
    · rw [hsquare.elsewhere _ _ (.inr (by omega)), hshared.differences r hr]

/-- A value of a row, by function and degree. -/
theorem getElem?_valueRow (s : SpanPoint K) {p d r : Nat} (hd : d ≤ p) (hr : r ≤ d) :
    (s.valueRow d)[r]? = some (rowValue (s.valueRows p) r d) := by
  have hlength : r < (s.valueRow d).length := by
    rw [length_valueRow]
    omega
  rw [rowValue, s.getD_valueRows hd, Array.getD_eq_getD_getElem?, List.getElem?_toArray,
    List.getElem?_eq_getElem hlength, Option.getD_some]

/-- **A square table with all values above its diagonal and all knot differences below it.** -/
structure Complete (s : SpanPoint K) (square : Table K (s.degree + 1) (s.degree + 1)) : Prop where
  values : ∀ d r : Nat, d ≤ s.degree → r ≤ d →
    square.get? r d = some (rowValue (s.valueRows s.degree) r d)
  differences : ∀ d r : Nat, d ≤ s.degree → r < d → square.get? d r = some (s.knotDifference d r)

/-- **All values and knot differences can be computed.** -/
theorem triangle?_yields (hs : s.Usable) : Yields s.triangle? fun t => s.Complete t.square := by
  unfold triangle?
  refine (Table.set?_yields _ (by unfold Table.Inside; omega) _).bind fun square hsquare => ?_
  refine (Yields.range' 1 s.degree (I := s.Filled) ?_ ?_).mono fun t ht => ?_
  · refine ⟨fun m hm hlt => by omega, fun m hm hlt => by omega, fun d r hd hr => ?_,
      fun d r hd hr => by omega⟩
    obtain rfl : d = 0 := by omega
    obtain rfl : r = 0 := by omega
    exact hsquare.here
  · exact fun j t hpos hj ht => degreeStep?_yields hs hpos (by omega) ht
  · refine ⟨fun d r hd hr => ?_, fun d r hd hr => ht.differences d r (by omega) hr⟩
    rw [ht.values d r (by omega) hr, s.getElem?_valueRow hd hr]

/-! ## (3) Coefficients -/

variable {square : Table K (s.degree + 1) (s.degree + 1)}

/-- The inner coefficients start where the triangle does, behind the first coefficient. -/
theorem innerFirst_spec (r k : Nat) : 1 ≤ innerFirst r k ∧ k ≤ r + innerFirst r k ∧
    ∀ j, 1 ≤ j → j < innerFirst r k → r + j < k := by
  unfold innerFirst
  split
  · exact ⟨le_rfl, by omega, fun j hj hlt => by omega⟩
  · exact ⟨by omega, by omega, fun j hj hlt => by omega⟩

/-- The inner coefficients end where the triangle does, before the last coefficient. -/
theorem innerLast_spec {p r k : Nat} (hr : r ≤ p) (hpos : 1 ≤ k) (hk : k ≤ p) :
    innerLast p r k < k ∧ r + innerLast p r k ≤ p ∧ innerFirst r k ≤ innerLast p r k + 1 ∧
      ∀ j, innerLast p r k < j → j < k → p < r + j := by
  unfold innerFirst innerLast
  split
  · exact ⟨by omega, by omega, by split <;> omega, fun j hj hlt => by omega⟩
  · exact ⟨by omega, by omega, by split <;> omega, fun j hj hlt => by omega⟩

/-- A coefficient times its value. -/
def termValue (s : SpanPoint K) (r k j : Nat) : K :=
  s.coefficient r k j * rowValue (s.valueRows s.degree) (r + j - k) (s.degree - k)

/-- **One coefficient and its term.** Inside the triangle the knot difference and the value are there. -/
theorem term?_yields (hs : s.Usable) (hc : s.Complete square) {r k j : Nat} (hk : k + 1 ≤ s.degree)
    (hj : j ≤ k + 1) (hlow : k + 1 ≤ r + j) (hhigh : r + j ≤ s.degree) (a : Table K 2 (s.degree + 1))
    {row : Int} (hrow : row = 0 ∨ row = 1) {numerator : K}
    (hnumerator : numerator = s.coefficient r k j - s.coefficientBefore r k j) :
    Yields (term? square s.degree r (k + 1) a row j numerator) fun term =>
      a.Updated row j (s.coefficient r (k + 1) j) term.1 ∧ term.2 = s.termValue r (k + 1) j := by
  have hdifference : square.get? (s.degree - (k + 1 : Nat) + 1) (r - (k + 1 : Nat) + j) =
      some (s.knotDifference (s.degree - k) (r + j - (k + 1))) := by
    rw [← hc.differences (s.degree - k) (r + j - (k + 1)) (by omega) (by omega)]
    congr 1 <;> omega
  have hvalue : square.get? (r - (k + 1 : Nat) + j) (s.degree - (k + 1 : Nat)) =
      some (rowValue (s.valueRows s.degree) (r + j - (k + 1)) (s.degree - (k + 1))) := by
    rw [← hc.values (s.degree - (k + 1)) (r + j - (k + 1)) (by omega) (by omega)]
    congr 1 <;> omega
  have hdivisor := hs.differences (s.degree - k) (r + j - (k + 1)) (by omega) (by omega)
  unfold term?
  refine .after hdifference (.after (divide?_eq hdivisor numerator) ?_)
  rw [hnumerator, ← s.coefficient_succ hk hj hlow hhigh]
  refine (a.set?_yields (by unfold Table.Inside; omega) _).bind fun a' ha' => ?_
  exact .after ha'.here (.after hvalue (.some ⟨ha', rfl⟩))

/-- The first term, if function `r` has one. -/
def firstTerm (s : SpanPoint K) (r k : Nat) : K := if k ≤ r then s.termValue r k 0 else Scalar.zero

/-- The terms of the inner coefficients before `j` added to the first one. -/
def innerSum (s : SpanPoint K) (r k j : Nat) : K :=
  (List.range' (innerFirst r k) (j - innerFirst r k)).foldl (fun d i => d + s.termValue r k i)
    (s.firstTerm r k)

/-- The derivative of order `k` of function `r`, without its factor. -/
def rawDerivative (s : SpanPoint K) (r k : Nat) : K :=
  combineValues (s.valueRows s.degree) s.degree r k (s.coefficients r k)

/-- A derivative is the sum of the first, the inner and the last term. -/
theorem rawDerivative_eq (s : SpanPoint K) (r k : Nat) : s.rawDerivative r k =
    if r ≤ s.degree - k then s.innerSum r k (innerLast s.degree r k + 1) + s.termValue r k k
    else s.innerSum r k (innerLast s.degree r k + 1) := by
  unfold termValue
  rw [Nat.add_sub_cancel]
  rfl

/-- The sum with one term more. -/
theorem innerSum_succ (s : SpanPoint K) {r k j : Nat} (hj : innerFirst r k ≤ j) :
    s.innerSum r k (j + 1) = s.innerSum r k j + s.termValue r k j := by
  have hcount : j + 1 - innerFirst r k = j - innerFirst r k + 1 := by omega
  have hlast : innerFirst r k + 1 * (j - innerFirst r k) = j := by omega
  rw [innerSum, hcount, List.range'_concat, List.foldl_append, hlast]
  rfl

/-- **After the coefficients before `upto`** of order `k`: those of the last order are still there. -/
structure SetBefore (s : SpanPoint K) (r k : Nat) (a : Table K 2 (s.degree + 1)) (old new : Int) (upto : Nat)
    (sum : K) (state : Table K 2 (s.degree + 1) × K) : Prop where
  before : ∀ j : Int, state.1.get? old j = a.get? old j
  coefficients : ∀ j : Nat, j < upto → k ≤ r + j → r + j ≤ s.degree →
    state.1.get? new j = some (s.coefficient r k j)
  sum_eq : state.2 = sum

namespace SetBefore

variable {r k upto : Nat} {a : Table K 2 (s.degree + 1)} {old new : Int} {sum : K}
  {state : Table K 2 (s.degree + 1) × K}

/-- Coefficients outside the triangle need not be set. -/
theorem skip (h : s.SetBefore r k a old new upto sum state) (upto' : Nat)
    (hout : ∀ j, upto ≤ j → j < upto' → r + j < k ∨ s.degree < r + j) :
    s.SetBefore r k a old new upto' sum state := by
  refine ⟨h.before, fun j hj hlow hhigh => h.coefficients j ?_ hlow hhigh, h.sum_eq⟩
  by_contra hle
  have := hout j (not_lt.mp hle) hj
  omega

/-- **One coefficient more.** -/
theorem next (h : s.SetBefore r k a old new upto sum state) (hne : old ≠ new)
    {state' : Table K 2 (s.degree + 1) × K} {sum' : K}
    (hset : state.1.Updated new upto (s.coefficient r k upto) state'.1) (hsum : state'.2 = sum') :
    s.SetBefore r k a old new (upto + 1) sum' state' := by
  refine ⟨fun j => (hset.elsewhere _ _ (.inl hne)).trans (h.before j), fun j hj hlow hhigh => ?_, hsum⟩
  exact hset.row rfl hj fun hlt => h.coefficients j hlt hlow hhigh

end SetBefore

/-- **Two rows of coefficients,** those of order `k` in the old one. -/
structure Known (s : SpanPoint K) {rows : Nat} (r k : Nat) (state : OrderState K rows (s.degree + 1)) :
    Prop where
  rows : state.old = 0 ∧ state.new = 1 ∨ state.old = 1 ∧ state.new = 0
  coefficients : ∀ j : Nat, j ≤ k → k ≤ r + j → r + j ≤ s.degree →
    state.a.get? state.old j = some (s.coefficient r k j)

section Order

variable {rows r k : Nat} {state : OrderState K rows (s.degree + 1)}

/-- **The first coefficient.** -/
theorem firstStep?_yields (hs : s.Usable) (hc : s.Complete square) (hr : r ≤ s.degree)
    (hk : k + 1 ≤ s.degree) (h : s.Known r k state) :
    Yields (firstStep? square s.degree r (k + 1) state.old state.new state.a)
      (s.SetBefore r (k + 1) state.a state.old state.new 1 (s.firstTerm r (k + 1))) := by
  have hrows := h.rows
  have hstart : s.SetBefore r (k + 1) state.a state.old state.new 0 Scalar.zero (state.a, Scalar.zero) :=
    ⟨fun _ => rfl, fun j hj => absurd hj (Nat.not_lt_zero j), rfl⟩
  unfold firstStep? firstTerm
  by_cases hkr : k + 1 ≤ r
  · rw [if_pos hkr, if_pos hkr]
    refine .after (h.coefficients 0 (by omega) (by omega) (by omega)) ?_
    have hnumerator : s.coefficient r k 0 = s.coefficient r k 0 - s.coefficientBefore r k 0 := by
      rw [coefficientBefore, if_pos rfl, sub_zero]
    refine (term?_yields hs hc hk (by omega) (by omega) (by omega) state.a (by omega) hnumerator).mono ?_
    rintro term ⟨hset, hsum⟩
    exact hstart.next (by omega) hset hsum
  · rw [if_neg hkr, if_neg hkr]
    exact .some (hstart.skip 1 fun j hj hlt => .inl (by omega))

variable {sum : K} {done : Table K 2 (s.degree + 1) × K}

/-- **An inner coefficient.** -/
theorem innerStep?_yields (hs : s.Usable) (hc : s.Complete square) (hk : k + 1 ≤ s.degree)
    (h : s.Known r k state) {j : Nat} (hj : 1 ≤ j) (hjk : j ≤ k) (hlow : k + 1 ≤ r + j)
    (hhigh : r + j ≤ s.degree)
    (hdone : s.SetBefore r (k + 1) state.a state.old state.new j sum done) :
    Yields (innerStep? square s.degree r (k + 1) state.old state.new done j)
      (s.SetBefore r (k + 1) state.a state.old state.new (j + 1) (sum + s.termValue r (k + 1) j)) := by
  have hrows := h.rows
  have hown : done.1.get? state.old j = some (s.coefficient r k j) := by
    rw [hdone.before, h.coefficients j hjk (by omega) hhigh]
  have hbefore : done.1.get? state.old (j - 1) = some (s.coefficientBefore r k j) := by
    have hread := h.coefficients (j - 1) (by omega) (by omega) (by omega)
    rw [Nat.cast_sub hj, Nat.cast_one] at hread
    rw [hdone.before, hread, coefficientBefore, if_neg (by omega)]
  unfold innerStep?
  refine .after hown (.after hbefore ?_)
  refine (term?_yields hs hc hk (by omega) hlow hhigh done.1 (by omega) rfl).bind ?_
  rintro term ⟨hset, hsum⟩
  refine .some (hdone.next (by omega) hset ?_)
  rw [hdone.sum_eq, hsum]

/-- **The last coefficient.** -/
theorem lastStep?_yields (hs : s.Usable) (hc : s.Complete square) (hk : k + 1 ≤ s.degree)
    (h : s.Known r k state)
    (hdone : s.SetBefore r (k + 1) state.a state.old state.new (k + 1) sum done) :
    Yields (lastStep? square s.degree r (k + 1) state.old state.new done)
      (s.SetBefore r (k + 1) state.a state.old state.new (k + 2)
        (if r ≤ s.degree - (k + 1) then sum + s.termValue r (k + 1) (k + 1) else sum)) := by
  have hrows := h.rows
  unfold lastStep?
  by_cases hkr : r ≤ s.degree - (k + 1)
  · rw [if_pos hkr, if_pos hkr]
    have hbefore : done.1.get? state.old ((k + 1 : Nat) - 1) = some (s.coefficient r k k) := by
      rw [Nat.cast_add, Nat.cast_one, add_sub_cancel_right, hdone.before,
        h.coefficients k le_rfl (by omega) (by omega)]
    have hnumerator : -s.coefficient r k k = s.coefficient r k (k + 1) - s.coefficientBefore r k (k + 1) := by
      rw [s.coefficient_eq_zero (Nat.lt_succ_self k), coefficientBefore, if_neg (Nat.succ_ne_zero k),
        Nat.add_sub_cancel, zero_sub]
    refine .after hbefore ?_
    refine (term?_yields hs hc hk le_rfl (by omega) (by omega) done.1 (by omega) hnumerator).bind ?_
    rintro term ⟨hset, hsum⟩
    refine .some (hdone.next (by omega) hset ?_)
    rw [hdone.sum_eq, hsum]
  · rw [if_neg hkr, if_neg hkr]
    exact .some (hdone.skip (k + 2) fun j hj hlt => .inr (by omega))

/-- **One order of one function:** the rows change roles, and the derivative is entered. -/
theorem orderStep?_yields (hs : s.Usable) (hc : s.Complete square) (hr : r ≤ s.degree)
    (hk : k + 1 ≤ s.degree) (hrows : k + 1 < rows) (h : s.Known r k state) :
    Yields (orderStep? square s.degree r state (k + 1)) fun next => s.Known r (k + 1) next ∧
      state.ders.Updated (k + 1 : Nat) r (s.rawDerivative r (k + 1)) next.ders := by
  obtain ⟨hpos, hfirstLow, hbefore⟩ := innerFirst_spec r (k + 1)
  obtain ⟨hlt, hhigh, hmeet, hbehind⟩ := innerLast_spec hr (Nat.le_add_left 1 k) hk
  unfold orderStep?
  refine (firstStep?_yields hs hc hr hk h).bind fun first hfirst => ?_
  -- Before the first inner coefficient and behind the last one, the triangle has none.
  have hstart : s.SetBefore r (k + 1) state.a state.old state.new (innerFirst r (k + 1))
      (s.innerSum r (k + 1) (innerFirst r (k + 1))) first := by
    rw [innerSum, Nat.sub_self]
    exact hfirst.skip _ fun j hj hj' => .inl (hbefore j hj hj')
  have hinner := Yields.range' _ (innerLast s.degree r (k + 1) + 1 - innerFirst r (k + 1))
    (I := fun j => s.SetBefore r (k + 1) state.a state.old state.new j (s.innerSum r (k + 1) j)) hstart
    (f := innerStep? square s.degree r (k + 1) state.old state.new) fun j done hj hj' hdone => by
      rw [s.innerSum_succ hj]
      exact innerStep?_yields hs hc hk h (by omega) (by omega) (by omega) (by omega) hdone
  rw [Nat.add_sub_cancel' hmeet] at hinner
  refine hinner.bind fun inner hinner => ?_
  have hall := hinner.skip (k + 1) fun j hj hj' => .inr (hbehind j hj hj')
  refine (lastStep?_yields hs hc hk h hall).bind fun last hlast => ?_
  refine (state.ders.set?_yields (by unfold Table.Inside; omega) _).bind fun ders hders => ?_
  refine .some ⟨⟨?_, ?_⟩, ?_⟩
  · exact h.rows.symm.imp And.symm And.symm
  · exact fun j hj hlow hhigh => hlast.coefficients j (by omega) hlow hhigh
  · rw [s.rawDerivative_eq, ← hlast.sum_eq]
    exact hders

end Order

/-! ## (4) Derivatives -/

section Functions

variable {rows r : Nat}

/-- **All derivatives of one function.** The other columns and the values are as before. -/
theorem functionStep?_yields (hs : s.Usable) (hc : s.Complete square) (hr : r ≤ s.degree) {orders : Nat}
    (horders : orders ≤ s.degree) (hrows : orders < rows)
    (state : Table K 2 (s.degree + 1) × Table K rows (s.degree + 1)) :
    Yields (functionStep? square s.degree orders state r) fun next =>
      (∀ k : Nat, 1 ≤ k → k ≤ orders → next.2.get? k r = some (s.rawDerivative r k)) ∧
        ∀ a b : Int, a = 0 ∨ b ≠ r → next.2.get? a b = state.2.get? a b := by
  unfold functionStep?
  refine (state.1.set?_yields (by unfold Table.Inside; omega) _).bind fun a ha => ?_
  have hloop := Yields.range' 1 orders (f := orderStep? square s.degree r)
    (b := ⟨a, state.2, 0, 1⟩)
    (I := fun k done => s.Known r (k - 1) done ∧
      (∀ m : Nat, 1 ≤ m → m < k → done.ders.get? m r = some (s.rawDerivative r m)) ∧
        ∀ a b : Int, a = 0 ∨ b ≠ r → done.ders.get? a b = state.2.get? a b) ?start ?step
  case start =>
    refine ⟨⟨.inl ⟨rfl, rfl⟩, fun j hj _ _ => ?_⟩, fun m hm hlt => by omega, fun _ _ _ => rfl⟩
    obtain rfl : j = 0 := by omega
    exact ha.here
  case step =>
    rintro k done hpos hk ⟨hknown, hset, hkeep⟩
    obtain ⟨k, rfl⟩ : ∃ m, k = m + 1 := ⟨k - 1, by omega⟩
    refine (orderStep?_yields hs hc hr (by omega) (by omega) hknown).mono ?_
    rintro next ⟨hnext, hentered⟩
    refine ⟨hnext, fun m hm hlt => hentered.column rfl hlt (hset m hm), fun a b hab => ?_⟩
    rw [hentered.elsewhere _ _ (by omega), hkeep a b hab]
  refine hloop.bind ?_
  rintro done ⟨-, hset, hkeep⟩
  exact .some ⟨fun k hk hle => hset k hk (by omega), hkeep⟩

/-- **The derivatives of all functions.** The values are as before. -/
theorem functions_yields (hs : s.Usable) (hc : s.Complete square) {orders : Nat}
    (horders : orders ≤ s.degree) (hrows : orders < rows)
    (state : Table K 2 (s.degree + 1) × Table K rows (s.degree + 1)) :
    Yields ((List.range' 0 (s.degree + 1)).foldlM (functionStep? square s.degree orders) state) fun next =>
      (∀ r k : Nat, r ≤ s.degree → 1 ≤ k → k ≤ orders → next.2.get? k r = some (s.rawDerivative r k)) ∧
        ∀ b : Int, next.2.get? 0 b = state.2.get? 0 b := by
  have hloop := Yields.range' 0 (s.degree + 1)
    (f := functionStep? square s.degree orders) (b := state)
    (I := fun n done =>
      (∀ r k : Nat, r < n → 1 ≤ k → k ≤ orders → done.2.get? k r = some (s.rawDerivative r k)) ∧
        ∀ b : Int, done.2.get? 0 b = state.2.get? 0 b)
    ⟨fun r k hr => absurd hr (Nat.not_lt_zero r), fun _ => rfl⟩ ?step
  case step =>
    rintro n done - hn ⟨hset, hkeep⟩
    refine (functionStep?_yields hs hc (by omega) horders hrows done).mono ?_
    rintro next ⟨hnew, hold⟩
    refine ⟨fun r k hr hk hle => ?_, fun b => (hold 0 b (.inl rfl)).trans (hkeep b)⟩
    rcases Nat.lt_succ_iff_lt_or_eq.mp hr with hlt | rfl
    · rw [hold _ _ (.inr (by omega)), hset r k hlt hk hle]
    · exact hnew k hk hle
  refine hloop.mono ?_
  rintro next ⟨hset, hkeep⟩
  exact ⟨fun r k hr hk hle => hset r k (by omega) hk hle, hkeep⟩

/-- **The values of all functions.** -/
theorem values_yields (hc : s.Complete square) (hrows : 0 < rows) (ders : Table K rows (s.degree + 1)) :
    Yields ((List.range' 0 (s.degree + 1)).foldlM (valueStep? square s.degree) ders) fun next =>
      ∀ r : Nat, r ≤ s.degree → next.get? 0 r = some (rowValue (s.valueRows s.degree) r s.degree) := by
  have hloop := Yields.range' 0 (s.degree + 1) (f := valueStep? square s.degree)
    (b := ders)
    (I := fun n done => ∀ r : Nat, r < n →
      done.get? 0 r = some (rowValue (s.valueRows s.degree) r s.degree))
    (fun r hr => absurd hr (Nat.not_lt_zero r)) ?step
  case step =>
    intro n done _ hn hset
    unfold valueStep?
    refine .after (hc.values s.degree n le_rfl (by omega)) ?_
    refine (done.set?_yields (by unfold Table.Inside; omega) _).mono fun next hnext r hr => ?_
    exact hnext.row (f := fun r => rowValue (s.valueRows s.degree) r s.degree) rfl hr (hset r)
  exact hloop.mono fun next hnext r hr => hnext r (by omega)

/-- **One order is scaled.** The other orders are as before. -/
theorem scaleStep?_yields {p k : Nat} (hk : k < rows) {raw : Nat → K}
    (state : Table K rows (p + 1) × K) (hraw : ∀ r : Nat, r ≤ p → state.1.get? k r = some (raw r)) :
    Yields (scaleStep? p state k) fun next => next.2 = state.2 * Scalar.ofNat (p - k) ∧
      (∀ r : Nat, r ≤ p → next.1.get? k r = some (raw r * state.2)) ∧
        ∀ a b : Int, a ≠ k → next.1.get? a b = state.1.get? a b := by
  have hloop := Yields.range' 0 (p + 1) (f := scaleDerivative? k state.2) (b := state.1)
    (I := fun n done => (∀ r : Nat, r < n → done.get? k r = some (raw r * state.2)) ∧
      ∀ a b : Int, a ≠ k ∨ (n : Int) ≤ b → done.get? a b = state.1.get? a b)
    ⟨fun r hr => absurd hr (Nat.not_lt_zero r), fun _ _ _ => rfl⟩ ?step
  case step =>
    rintro n done - hn ⟨hset, hkeep⟩
    unfold scaleDerivative?
    have hread : done.get? k n = some (raw n) := by rw [hkeep _ _ (.inr le_rfl), hraw n (by omega)]
    refine .after hread ?_
    refine (done.set?_yields (by unfold Table.Inside; omega) _).mono fun next hnext => ⟨fun r hr => ?_, ?_⟩
    · exact hnext.row (f := fun r => raw r * state.2) rfl hr (hset r)
    · intro a b hab
      rw [hnext.elsewhere _ _ (by omega), hkeep a b (by omega)]
  unfold scaleStep?
  refine hloop.bind ?_
  rintro done ⟨hset, hkeep⟩
  exact .some ⟨rfl, fun r hr => hset r (by omega), fun a b ha => hkeep a b (.inl ha)⟩

/-- **All orders are scaled,** by falling factorials of the degree. -/
theorem scales_yields {p orders : Nat} (horders : orders < rows) {raw : Nat → Nat → K}
    (ders : Table K rows (p + 1))
    (hraw : ∀ r k : Nat, r ≤ p → 1 ≤ k → k ≤ orders → ders.get? k r = some (raw r k)) :
    Yields ((List.range' 1 orders).foldlM (scaleStep? p) (ders, Scalar.ofNat p)) fun next =>
      (∀ r k : Nat, r ≤ p → 1 ≤ k → k ≤ orders →
        next.1.get? k r = some (raw r k * ((p.descFactorial k : Nat) : K))) ∧
        ∀ b : Int, next.1.get? 0 b = ders.get? 0 b := by
  have hloop := Yields.range' 1 orders (f := scaleStep? p)
    (b := (ders, (Scalar.ofNat p : K)))
    (I := fun k done => done.2 = ((p.descFactorial k : Nat) : K) ∧
      (∀ r m : Nat, r ≤ p → 1 ≤ m → m < k →
        done.1.get? m r = some (raw r m * ((p.descFactorial m : Nat) : K))) ∧
      ∀ a b : Int, a = 0 ∨ (k : Int) ≤ a → done.1.get? a b = ders.get? a b) ?start ?step
  case start =>
    refine ⟨?_, fun r m _ hm hlt => by omega, fun _ _ _ => rfl⟩
    rw [Nat.descFactorial_one, Scalar.ofNat_exact]
  case step =>
    rintro k done hpos hk ⟨hfactor, hset, hkeep⟩
    have hread : ∀ r : Nat, r ≤ p → done.1.get? k r = some (raw r k) := fun r hr => by
      rw [hkeep _ _ (.inr le_rfl), hraw r k hr hpos (by omega)]
    refine (scaleStep?_yields (by omega) done hread).mono ?_
    rintro next ⟨hnext, hnew, hold⟩
    refine ⟨?_, fun r m hr hm hlt => ?_, fun a b hab => ?_⟩
    · rw [hnext, hfactor, Scalar.ofNat_exact, ← Nat.cast_mul, Nat.mul_comm, ← Nat.descFactorial_succ]
    · rcases Nat.lt_succ_iff_lt_or_eq.mp hlt with hlt | rfl
      · rw [hold _ _ (by omega), hset r m hr hm hlt]
      · rw [hnew r hr, hfactor]
    · rw [hold _ _ (by omega), hkeep a b (by omega)]
  refine hloop.mono ?_
  rintro next ⟨-, hset, hkeep⟩
  exact ⟨fun r k hr hk hle => hset r k hr hk (by omega), fun b => hkeep 0 b (.inl rfl)⟩

end Functions

/-- **Values and derivatives of one function,** as the recurrence on lists gives them. -/
theorem getElem?_spanDerivatives (s : SpanPoint K) {orders r k : Nat} (hr : r ≤ s.degree)
    (hk : k ≤ orders) : ((spanDerivatives s orders).getD r #[])[k]? =
      some (if k = 0 then rowValue (s.valueRows s.degree) r s.degree
        else s.rawDerivative r k * ((s.degree.descFactorial k : Nat) : K)) := by
  rw [s.getD_spanDerivatives_eq_sums orders hr, List.getElem?_toArray]
  cases k with
  | zero => rfl
  | succ k =>
    rw [List.getElem?_cons_succ, List.getElem?_map, List.getElem?_range' hk, Option.map_some, Nat.one_mul,
      Nat.add_comm 1 k, if_neg (Nat.succ_ne_zero k)]
    rfl

/-- **The computation has a result:** all that it reads and writes is inside its tables, and no divisor is
zero. The entries are those of the recurrence on lists. -/
theorem derivatives?_yields (hs : s.Usable) {orders : Nat} (horders : orders ≤ s.degree) :
    Yields (s.derivatives? orders) fun ders => ∀ k r : Nat, k ≤ orders → r ≤ s.degree →
      ders.get? k r = ((spanDerivatives s orders).getD r #[])[k]? := by
  unfold derivatives?
  refine (triangle?_yields hs).bind fun t hc => ?_
  refine (values_yields hc (Nat.succ_pos orders) _).bind fun ders hvalues => ?_
  refine (functions_yields hs hc horders (Nat.lt_succ_self orders) _).bind ?_
  rintro done ⟨hraw, hkeep⟩
  refine (scales_yields (Nat.lt_succ_self orders) done.2 hraw).bind ?_
  rintro scaled ⟨hscaled, hkeep'⟩
  refine .some fun k r hk hr => ?_
  rw [s.getElem?_spanDerivatives hr hk]
  by_cases hzero : k = 0
  · subst hzero
    rw [if_pos rfl, ← hvalues r hr, ← hkeep, ← hkeep']
    rfl
  · rw [if_neg hzero, hscaled r k hr (Nat.pos_of_ne_zero hzero) hk]

end SpanPoint

/-! ## (5) The span of a point -/

namespace KnotVector

variable {K : Type} [Field K] [LinearOrder K] (kv : KnotVector K)

/-- **On the span of a point the recurrence divides by no zero:** the two knots of a difference enclose the
span, which has positive length. -/
theorem usable_findSpan (u : K) : SpanPoint.Usable ⟨kv.knots, kv.degree, kv.findSpan u, u⟩ := by
  have hspan := kv.isSpanFor_findSpan u
  have hfirst := hspan.degree_le
  have hlast := hspan.lt_dofs
  have hsize : kv.dofs = kv.knots.size - kv.degree - 1 := rfl
  refine ⟨hfirst, by show kv.findSpan u + kv.degree < kv.knots.size; omega, fun i c hc hi => ?_⟩
  have hi : i ≤ kv.degree := hi
  rw [SpanPoint.knotDifference_eq, sub_ne_zero]
  apply ne_of_gt
  calc kv.knot (kv.findSpan u + 1 - (i - c)) ≤ kv.knot (kv.findSpan u) := kv.knot_mono (by omega) (by omega)
    _ < kv.knot (kv.findSpan u + 1) := hspan.proper
    _ ≤ kv.knot (kv.findSpan u + c + 1) := kv.knot_mono (by omega) (by omega)

/-- **The search for a span ends at one that can be used,** for every point: with a span of the domain that
has positive length and holds the point if the domain does; for a point outside, with the one at the end of
the domain. On this span, values and derivatives up to the degree are computed inside the tables and without
division by zero. -/
theorem findSpan_usable (u : K) :
    (∀ result, kv.Searches u result ↔ result = kv.findSpan u) ∧
      (kv.degree ≤ kv.findSpan u ∧ kv.findSpan u ≤ kv.dofs - 1) ∧
      kv.knot (kv.findSpan u) < kv.knot (kv.findSpan u + 1) ∧
      (kv.knot kv.degree ≤ u → u < kv.knot kv.dofs →
        kv.knot (kv.findSpan u) ≤ u ∧ u < kv.knot (kv.findSpan u + 1)) ∧
      (kv.knot kv.dofs ≤ u → kv.knot (kv.findSpan u + 1) = kv.knot kv.dofs) ∧
      (u < kv.knot kv.degree → kv.knot (kv.findSpan u) = kv.knot kv.degree) ∧
      ∀ orders ≤ kv.degree,
        ∃ ders, SpanPoint.derivatives? ⟨kv.knots, kv.degree, kv.findSpan u, u⟩ orders = some ders ∧
          ∀ k r : Nat, k ≤ orders → r ≤ kv.degree → ders.get? k r =
            ((spanDerivatives ⟨kv.knots, kv.degree, kv.findSpan u, u⟩ orders).getD r #[])[k]? := by
  have hspan := kv.isSpanFor_findSpan u
  exact ⟨kv.searches_iff u, ⟨hspan.degree_le, Nat.le_sub_one_of_lt hspan.lt_dofs⟩, hspan.proper,
    fun hlow hhigh => ⟨hspan.start_le hlow, hspan.lt_end hhigh⟩, kv.knot_findSpan_end,
    kv.knot_findSpan_start, fun orders horders =>
      SpanPoint.derivatives?_yields (kv.usable_findSpan u) horders⟩

/-- Searches at a double knot, behind the domain and before it, and derivatives at the double knot. -/
theorem findSpan_usable_doubleKnots :
    doubleKnots.Searches 1 4 ∧ doubleKnots.Searches 3 4 ∧ doubleKnots.Searches (-1) 2 ∧
      2 ≤ doubleKnots.degree ∧
      ∃ ders, SpanPoint.derivatives? ⟨doubleKnots.knots, doubleKnots.degree, 4, 1⟩ 2 = some ders ∧
        ders.get? 0 0 = some 1 ∧ ders.get? 1 0 = some (-2) ∧ ders.get? 2 1 = some (-4) := by
  have hdouble : doubleKnots.findSpan 1 = 4 := by decide +kernel
  have hbehind : doubleKnots.findSpan 3 = 4 := by decide +kernel
  have hbefore : doubleKnots.findSpan (-1) = 2 := by decide +kernel
  obtain ⟨hsearch, -, -, -, -, -, hders⟩ := doubleKnots.findSpan_usable 1
  obtain ⟨ders, hresult, hentries⟩ := hders 2 le_rfl
  rw [hdouble] at hsearch hresult hentries
  refine ⟨(hsearch 4).mpr rfl, ((doubleKnots.findSpan_usable 3).1 4).mpr hbehind.symm,
    ((doubleKnots.findSpan_usable (-1)).1 2).mpr hbefore.symm, le_rfl, ders, hresult, ?_, ?_, ?_⟩
  · exact (hentries 0 0 (by decide) (by decide)).trans (by decide +kernel)
  · exact (hentries 1 0 (by decide) (by decide)).trans (by decide +kernel)
  · exact (hentries 2 1 (by decide) (by decide)).trans (by decide +kernel)

end KnotVector

end Galerkin
