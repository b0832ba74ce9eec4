import Galerkin.Basis.KnotVector

/-! # Basis functions and their derivatives

At a point inside a knot span only `p + 1` basis functions are nonzero. Their values follow from the
values of lower degree on the same span; their derivatives are combinations of those lower-degree
values, with coefficients from a recurrence of their own.

* **`spanValues`** — the values of degrees `0` to `p` on a span, a triangle of rows;
* **`coefficientStep`** — the coefficients of order `k` from those of order `k - 1`;
* **`spanDerivatives`** — values and derivatives of the `p + 1` functions;
* **`DerivativeTable`** — values and derivatives of all functions at a list of points;
* **`KnotVector.evaluateDerivatives`** — the table of a knot vector. -/

namespace Galerkin

variable {α : Type} [Scalar α]

/-! ## (1) The recurrence on one span -/

/-- A point in a knot span: the knots, the degree, the number of the span and the point. -/
structure SpanPoint (α : Type) where
  knots : Array α
  degree : Nat
  span : Nat
  point : α

namespace SpanPoint

/-- The distance from the point back to the `j`-th knot at or below it. -/
@[inline] def left (s : SpanPoint α) (j : Nat) : α := s.point - knotAt s.knots (s.span + 1 - j)

/-- The distance from the point on to the `j`-th knot above it. -/
@[inline] def right (s : SpanPoint α) (j : Nat) : α := knotAt s.knots (s.span + j) - s.point

/-- The length of the knot interval that the `c`-th function of degree `i - 1` on this span covers. -/
@[inline] def knotDifference (s : SpanPoint α) (i c : Nat) : α :=
  s.right (c + 1) + s.left (i - c)

/-- The values of degree `j`, from function `r` on, from the values of degree `j - 1` that are still to
be distributed; `saved` is what the function before `r` hands over. -/
def distribute (s : SpanPoint α) (j : Nat) : (saved : α) → (r : Nat) → List α → List α
  | saved, _, [] => [saved]
  | saved, r, v :: values =>
    let share := v / s.knotDifference j r
    (saved + s.right (r + 1) * share) ::
      s.distribute j (s.left (j - r) * share) (r + 1) values

/-- **The values of degree `j`** of the `j + 1` functions of that degree on the span. -/
def valueRow (s : SpanPoint α) : (j : Nat) → List α
  | 0 => [Scalar.one]
  | j + 1 => s.distribute (j + 1) Scalar.zero 0 (s.valueRow j)

/-- The value row of degree `j` and the `count` rows after it. -/
def valueRowsFrom (s : SpanPoint α) : (count j : Nat) → (row : List α) → List (List α)
  | 0, _, row => [row]
  | count + 1, j, row =>
    row :: s.valueRowsFrom count (j + 1) (s.distribute (j + 1) Scalar.zero 0 row)

/-- The value rows of degrees `0` to `j`. -/
def valueRows (s : SpanPoint α) (j : Nat) : Array (Array α) :=
  ((s.valueRowsFrom j 0 (s.valueRow 0)).map List.toArray).toArray

/-- Each row is made from the one before it. -/
theorem valueRowsFrom_eq (s : SpanPoint α) (count j : Nat) :
    s.valueRowsFrom count j (s.valueRow j) =
      (List.range' j (count + 1)).map s.valueRow := by
  induction count generalizing j with
  | zero => rfl
  | succ count ih =>
    rw [valueRowsFrom, List.range'_succ, List.map_cons, ← ih (j + 1)]
    rfl

end SpanPoint

/-- The value of function `r` in the row of degree `j`. -/
@[inline] def rowValue (rows : Array (Array α)) (r j : Nat) : α :=
  (rows.getD j #[]).getD r Scalar.zero

/-- The first inner coefficient of order `k` of function `r`: those before it vanish. -/
def innerFirst (r k : Nat) : Nat := if k ≤ r + 1 then 1 else k - r

/-- The last inner coefficient of order `k` of function `r`, for degree `p`. -/
def innerLast (p r k : Nat) : Nat := if r ≤ p - k + 1 then k - 1 else p - r

/-- The inner coefficient positions of order `k`. -/
def innerRange (p r k : Nat) : List Nat :=
  List.range' (innerFirst r k) (innerLast p r k + 1 - innerFirst r k)

/-- **Coefficients of order `k`** of function `r` from those of order `k - 1`: differences of
neighbours over knot differences. The outermost coefficients have one neighbour only; a position
outside the triangle holds zero. -/
def coefficientStep (s : SpanPoint α) (r k : Nat) (previous : Array α) : Array α :=
  let p := s.degree
  let before (j : Nat) : α := previous.getD j Scalar.zero
  (Array.range (k + 1)).map fun j =>
    if j = 0 then
      if k ≤ r then before 0 / s.knotDifference (p - k + 1) (r - k) else Scalar.zero
    else if j = k then
      if r ≤ p - k then -before (k - 1) / s.knotDifference (p - k + 1) r else Scalar.zero
    else if innerFirst r k ≤ j ∧ j ≤ innerLast p r k then
      (before j - before (j - 1)) / s.knotDifference (p - k + 1) (r + j - k)
    else Scalar.zero

/-- The combination of the values of degree `p - k` with the coefficients of order `k`. The sum runs
from the first to the last coefficient. -/
def combineValues (rows : Array (Array α)) (p r k : Nat) (coefficients : Array α) : α :=
  let a (j : Nat) : α := coefficients.getD j Scalar.zero
  let start : α := if k ≤ r then a 0 * rowValue rows (r - k) (p - k) else Scalar.zero
  let inner := (innerRange p r k).foldl
    (fun d j => d + a j * rowValue rows (r + j - k) (p - k)) start
  if r ≤ p - k then inner + a k * rowValue rows r (p - k) else inner

/-- The derivatives of function `r` of orders `k`, `k + 1`, … without their common factors, `count` of
them, from the coefficients of order `k - 1`. -/
def derivativesFrom (s : SpanPoint α) (rows : Array (Array α)) (r : Nat) :
    (count k : Nat) → (previous : Array α) → List α
  | 0, _, _ => []
  | count + 1, k, previous =>
    let coefficients := coefficientStep s r k previous
    combineValues rows s.degree r k coefficients ::
      derivativesFrom s rows r count (k + 1) coefficients

/-- The factors `p`, `p (p - 1)`, … of the derivatives of orders `1`, `2`, …. -/
def derivativeFactors (p : Nat) : (count k : Nat) → (factor : α) → List α
  | 0, _, _ => []
  | count + 1, k, factor =>
    factor :: derivativeFactors p count (k + 1) (factor * Scalar.ofNat (p - k))

/-- **Value and derivatives up to order `orders`** of each of the `p + 1` functions on the span, for
`orders ≤ p`. -/
def spanDerivatives (s : SpanPoint α) (orders : Nat) : Array (Array α) :=
  let p := s.degree
  let rows := s.valueRows p
  let factors : List α := derivativeFactors p orders 1 (Scalar.ofNat p)
  (Array.range (p + 1)).map fun r =>
    let raw := derivativesFrom s rows r orders 1 #[Scalar.one]
    (rowValue rows r p :: List.zipWith (· * ·) raw factors).toArray

/-! ## (2) Tables -/

/-- The functions that are nonzero at a point: `values` holds, for the functions from `first` on,
value and derivatives. -/
structure Jet (α : Type) where
  first : Nat
  values : Array (Array α)

/-- The derivative of order `k` of function `f`, zero outside the functions listed. -/
@[inline] def Jet.get (jet : Jet α) (f k : Nat) : α :=
  if f < jet.first then Scalar.zero
  else (jet.values.getD (f - jet.first) #[]).getD k Scalar.zero

/-- **Values and derivatives of all functions at a list of points.** A point without a jet has zeros
only. -/
structure DerivativeTable (α : Type) where
  functions : Nat
  points : Nat
  maxDeriv : Nat
  jets : Array (Jet α)

namespace DerivativeTable

/-- The number of values kept per function and point. -/
def pointStride (t : DerivativeTable α) : Nat := t.maxDeriv + 1

/-- The derivative of order `k` of function `f` at point `q`. -/
@[inline] def get (t : DerivativeTable α) (f q k : Nat) : α :=
  match t.jets[q]? with
  | some jet => jet.get f k
  | none => Scalar.zero

/-- A table of zeros; the derivative order must not be negative. -/
def zeros (functions points : Nat) (maxDeriv : Int) : Except Error (DerivativeTable α) := do
  require (decide (0 ≤ maxDeriv)) (.knot .tableNegativeOrder)
  pure ⟨functions, points, maxDeriv.toNat, #[]⟩

end DerivativeTable

namespace KnotVector

/-- How far beyond the ends of the domain a point is still accepted: a few rounding errors of the
length of the domain. -/
def tolerance (kv : KnotVector α) : α :=
  Scalar.one / Scalar.ofNat (Nat.pow 2 52) * Scalar.ofNat 64 *
    Scalar.max Scalar.one (Scalar.abs (kv.upper - kv.lower))

/-- The nonzero functions at a point, with derivatives up to the smaller of `maxDeriv` and the degree;
all higher derivatives vanish. -/
def jetAt (kv : KnotVector α) (maxDeriv : Nat) (u : α) : Jet α :=
  let span := kv.findSpan u
  ⟨span - kv.degree, spanDerivatives ⟨kv.knots, kv.degree, span, u⟩ (min maxDeriv kv.degree)⟩

/-- **Values and derivatives up to `maxDeriv` of all functions at `points`.** A point outside the
domain, up to the tolerance, is refused; `pointText` writes it. -/
def evaluateDerivatives [ScalarText α] (kv : KnotVector α) (points : List α) (maxDeriv : Int)
    (pointText : α → String := ScalarText.places) : Except Error (DerivativeTable α) := do
  require (decide (0 ≤ maxDeriv)) (.knot .negativeOrder)
  let low := kv.lower - kv.tolerance
  let high := kv.upper + kv.tolerance
  let jets ← points.mapM fun u => do
    require (Scalar.le low u && Scalar.le u high) (.knot (.outsideDomain (pointText u)))
    pure (kv.jetAt maxDeriv.toNat u)
  pure ⟨kv.dofs, points.length, maxDeriv.toNat, jets.toArray⟩

end KnotVector

end Galerkin
