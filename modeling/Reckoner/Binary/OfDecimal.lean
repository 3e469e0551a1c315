import Reckoner.Binary.Value
import Reckoner.Decimal.Literal

/-!
# Binary numbers from decimals

A decimal number goes to the nearest binary one. Powers of ten beyond every finite value, or below half the least positive one, are never computed: since ten lies between `2 ^ 3` and `2 ^ 4`, the bits of the coefficient and three bits for each power of ten already decide.
-/

namespace Reckoner.Binary

variable {f : Format}

def ofDecimal (f : Format) (negative : Bool) (d : Decimal) : Binary f :=
  if d.coefficient = 0 then zero negative
  else
    let power := d.exponent.natAbs
    if 0 ≤ d.exponent then
      if Nat.pow 2 f.exponentBits ≤ 3 * power then infinity negative
      else rounded negative (d.coefficient * Nat.pow 10 power * f.one) 1
    else
      if d.coefficient.log2 + 2 + f.scale ≤ 3 * power then zero negative
      else rounded negative (d.coefficient * f.one) (Nat.pow 10 power)

def ofLiteral (f : Format) : Literal → Binary f
  | .finite negative magnitude => ofDecimal f negative magnitude
  | .infinite negative => infinity negative
  | .nan => nan

end Reckoner.Binary
