import Galerkin.Scalar
import Galerkin.Text.Decimal

/-! # Text of double-precision scalars

Expressions and listings show six significant digits, messages six decimal places. Answers that have
to read back exactly use seventeen significant digits (`exactText`), the least count that tells any
two doubles apart. -/

namespace Galerkin

instance : ScalarText Float where
  brief := generalText 6
  places := fixedText 6
  computedPlaces x := (if x.isNaN then "-" else "") ++ fixedText 6 x

/-- Seventeen significant digits, enough to tell any two doubles apart. -/
def exactText (x : Float) : String := generalText 17 x

end Galerkin
