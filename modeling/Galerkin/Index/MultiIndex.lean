/-! # Tensor-product indices

A multi-index is a list of indices, one per axis; extents, starts and stops are lists of the same
length. The last axis varies fastest.

* **`product`** — the number of cells of a box with given extents;
* **`linearIndex`** — the number of a cell, by Horner's rule over the extents;
* **`multiIndex`** — the cell with a given number, by repeated division;
* **`advance`** — the lexicographic successor inside a box, with carry;
* **`walk`** — the cells visited by advancing from the start of a box until it is exhausted.

The operations are stated over any index arithmetic `ι`. Over 64-bit words they wrap around as words
do, over natural numbers they are exact. -/

namespace Galerkin.MultiIndex

variable {ι : Type} [Add ι] [Mul ι]

/-- The product of all extents, from the first axis on. -/
def product [OfNat ι 1] (extents : List ι) : ι :=
  extents.foldl (· * ·) 1

/-- A running product of words is the word of the running product. -/
theorem foldl_mul_ofNat (extents : List Nat) (n : Nat) :
    (extents.map UInt64.ofNat).foldl (· * ·) (UInt64.ofNat n) =
      UInt64.ofNat (extents.foldl (· * ·) n) := by
  induction extents generalizing n with
  | nil => rfl
  | cons e extents ih =>
    rw [List.map_cons, List.foldl_cons, ← UInt64.ofNat_mul, ih]
    rfl

/-- **Words wrap around as the exact product does** modulo the number of words. -/
theorem product_ofNat (extents : List Nat) :
    product (extents.map UInt64.ofNat) = UInt64.ofNat (product extents) :=
  foldl_mul_ofNat extents 1

/-- Horner's rule: each axis multiplies the number so far by its extent and adds its index. -/
def linearIndexFrom (number : ι) : List ι → List ι → ι
  | i :: index, e :: extents => linearIndexFrom (number * e + i) index extents
  | _, _ => number

/-- **The number of a cell.** The index is not checked against the extents. -/
def linearIndex [OfNat ι 0] (index extents : List ι) : ι :=
  linearIndexFrom 0 index extents

/-- The digits of a number in the radices `extents`, last axis first taken off, together with the
quotient that is left. -/
def splitDigits [Div ι] [Mod ι] (number : ι) : List ι → ι × List ι
  | [] => (number, [])
  | e :: extents =>
    let (quotient, digits) := splitDigits number extents
    (quotient / e, quotient % e :: digits)

/-- **The cell with a given number.** -/
def multiIndex [Div ι] [Mod ι] (number : ι) (extents : List ι) : List ι :=
  (splitDigits number extents).2

/-- **Lexicographic successor inside the box `[start, stop)`.** The last axis is incremented first;
an axis that reaches its stop goes back to its start and carries to the axis before it. The flag is
false when the box is exhausted, and then every axis is at its start. -/
def advance [OfNat ι 1] [LT ι] [DecidableLT ι] :
    (index start stop : List ι) → Bool × List ι
  | i :: index, s :: start, e :: stop =>
    match advance index start stop with
    | (true, rest) => (true, i :: rest)
    | (false, rest) => if i + 1 < e then (true, (i + 1) :: rest) else (false, s :: rest)
  | _, _, _ => (false, [])

/-- The cells visited from `index` on, at most `fuel` of them: the cell itself, then its successors
until the box is exhausted. -/
def walkFrom [OfNat ι 1] [LT ι] [DecidableLT ι] (start stop : List ι) :
    (fuel : Nat) → (index : List ι) → List (List ι)
  | 0, _ => []
  | fuel + 1, index =>
    match advance index start stop with
    | (true, next) => index :: walkFrom start stop fuel next
    | (false, _) => [index]

/-- The number of cells a walk from `start` visits: at least one per axis, since the start itself is
visited before the box is looked at. -/
def walkLength (start stop : List Nat) : Nat :=
  product (List.zipWith (fun s e => max 1 (e - s)) start stop)

/-- **The cells visited by the loop that handles a cell and then advances,** from the start of the
box until it is exhausted. -/
def walk (start stop : List Nat) : List (List Nat) :=
  walkFrom start stop (walkLength start stop) start

end Galerkin.MultiIndex
