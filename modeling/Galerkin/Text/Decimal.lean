/-! # Decimal text of floating-point numbers

A finite double is exactly `mantissa * 2 ^ exponent`, so its decimal text is a matter of rounding a
quotient of natural numbers. This file holds

* **`FloatParts`** — a double taken apart into sign, mantissa and exponent;
* **`roundHalfEven num den`** — the natural number nearest to `num / den`, ties to even;
* **`significand digits num den`** — the leading decimal digits of a positive quotient together with
  the decimal exponent of the first one;
* **`generalText`** — a fixed number of significant digits, in positional notation for moderate
  exponents and in scientific notation otherwise, without trailing zeros;
* **`fixedText`** — a fixed number of decimal places. -/

namespace Galerkin

/-! ## (1) A double taken apart -/

/-- The parts of a double: `finite negative mantissa exponent` is `±mantissa * 2 ^ exponent`. -/
inductive FloatParts where
  | notANumber
  | infinite (negative : Bool)
  | finite (negative : Bool) (mantissa : Nat) (exponent : Int)
  deriving Repr, DecidableEq

/-- Reads sign, exponent and fraction fields off the 64-bit pattern; an exponent field of zero marks
a subnormal number, which has no implicit leading bit. -/
def FloatParts.ofFloat (x : Float) : FloatParts :=
  let bits : Nat := x.toBits.toNat
  let negative := bits / Nat.pow 2 63 == 1
  let field : Nat := bits / Nat.pow 2 52 % Nat.pow 2 11
  let fraction : Nat := bits % Nat.pow 2 52
  if field = 2047 then
    if fraction = 0 then .infinite negative else .notANumber
  else if field = 0 then .finite negative fraction (-1074)
  else .finite negative (fraction + Nat.pow 2 52) ((field : Int) - 1075)

/-! ## (2) Rounding a quotient -/

/-- **Nearest natural number to `num / den`,** the even one of two that are equally near. -/
def roundHalfEven (num den : Nat) : Nat :=
  let quotient := num / den
  let remainder := num % den
  if 2 * remainder < den then quotient
  else if den < 2 * remainder then quotient + 1
  else if quotient % 2 = 0 then quotient else quotient + 1

/-- `mantissa * 2 ^ exponent` as a quotient of natural numbers. -/
def dyadicFraction (mantissa : Nat) (exponent : Int) : Nat × Nat :=
  if 0 ≤ exponent then (mantissa * Nat.pow 2 exponent.toNat, 1)
  else (mantissa, Nat.pow 2 (-exponent).toNat)

/-- The quotient `num / den` multiplied by `10 ^ shift`. -/
def shiftDecimal (num den : Nat) (shift : Int) : Nat × Nat :=
  if 0 ≤ shift then (num * Nat.pow 10 shift.toNat, den)
  else (num, den * Nat.pow 10 (-shift).toNat)

/-- The decimal digits of a natural number, most significant first. -/
def digitChars (n : Nat) : List Char :=
  Nat.toDigits 10 n

/-- The exponent of the leading decimal digit of `num / den`, for positive `num` and `den`. Digit
counts leave two candidates, and one comparison decides between them. -/
def decimalExponent (num den : Nat) : Int :=
  let guess := ((digitChars num).length : Int) - (digitChars den).length
  let (scaledNum, scaledDen) := shiftDecimal num den (-guess)
  if scaledNum < scaledDen then guess - 1 else guess

/-- **Leading digits of a positive quotient.** Returns a number of exactly `digits` digits and the
exponent of its first one; when rounding reaches the next power of ten, the exponent grows by one. -/
def significand (digits num den : Nat) : Nat × Int :=
  let exponent := decimalExponent num den
  let (scaledNum, scaledDen) := shiftDecimal num den ((digits : Int) - 1 - exponent)
  let rounded := roundHalfEven scaledNum scaledDen
  if rounded = Nat.pow 10 digits then (Nat.pow 10 (digits - 1), exponent + 1)
  else (rounded, exponent)

/-! ## (3) Layouts -/

/-- Drops the zeros at the end of a digit list. -/
def dropTrailingZeros (digits : List Char) : List Char :=
  (digits.reverse.dropWhile (· == '0')).reverse

/-- An integer part and decimal places; the point is written only before a nonempty fraction. -/
def joinPoint (whole fraction : List Char) : List Char :=
  if fraction.isEmpty then whole else whole ++ '.' :: fraction

/-- A decimal exponent with its sign and at least two digits. -/
def exponentChars (exponent : Int) : List Char :=
  let digits := digitChars exponent.natAbs
  (if exponent < 0 then '-' else '+') ::
    (if digits.length < 2 then '0' :: digits else digits)

/-- **Layout by exponent.** From `10 ^ -4` up to the number of digits kept, the number is written
positionally, otherwise with one digit before the point and an exponent. -/
def generalChars (precision : Nat) (digits : Nat) (exponent : Int) : List Char :=
  let chars := digitChars digits
  if exponent < -4 ∨ (precision : Int) ≤ exponent then
    joinPoint (chars.take 1) (dropTrailingZeros (chars.drop 1)) ++ 'e' :: exponentChars exponent
  else if 0 ≤ exponent then
    joinPoint (chars.take (exponent.toNat + 1)) (dropTrailingZeros (chars.drop (exponent.toNat + 1)))
  else
    joinPoint ['0'] (List.replicate (-exponent - 1).toNat '0' ++ dropTrailingZeros chars)

/-- Puts a minus sign before the text of a negative number. -/
def signed (negative : Bool) (chars : List Char) : String :=
  String.ofList (if negative then '-' :: chars else chars)

/-- **General text** with `precision` significant digits (at least one). Zero keeps its sign, an
invalid number has none. -/
def generalText (precision : Nat) (x : Float) : String :=
  match FloatParts.ofFloat x with
  | .notANumber => "nan"
  | .infinite negative => signed negative "inf".toList
  | .finite negative mantissa exponent =>
    if mantissa = 0 then signed negative ['0']
    else
      let (num, den) := dyadicFraction mantissa exponent
      let (digits, exp10) := significand precision num den
      signed negative (generalChars precision digits exp10)

/-- **Fixed text** with exactly `places` decimal places. -/
def fixedText (places : Nat) (x : Float) : String :=
  match FloatParts.ofFloat x with
  | .notANumber => "nan"
  | .infinite negative => signed negative "inf".toList
  | .finite negative mantissa exponent =>
    let (num, den) := dyadicFraction mantissa exponent
    let digits := digitChars (roundHalfEven (num * Nat.pow 10 places) den)
    let padded := List.replicate (places + 1 - digits.length) '0' ++ digits
    let split := padded.length - places
    signed negative (joinPoint (padded.take split) (padded.drop split))

end Galerkin
