import Reckoner.Binary.Arithmetic

/-!
# Floor and remainder of binary numbers

The floor of a quotient is worked out from the remainder: the dividend less its remainder is divided, which gives a number next to a whole one, and that is brought to the whole number.
-/

namespace Reckoner.Binary

variable {f : Format}

/-- What is left of the dividend when the divisor is taken away from it as often as possible. It has the sign of the dividend. -/
def remainder : Binary f → Binary f → Binary f
  | nan, _ => nan
  | _, nan => nan
  | signed negative rank h, signed _ divisor _ =>
    if rank = f.infinity ∨ divisor = 0 then nan
    else if divisor = f.infinity then signed negative rank h
    else rounded negative (f.units rank % f.units divisor) 1

def floor : Binary f → Binary f
  | nan => nan
  | signed negative rank h =>
    if rank = 0 ∨ rank = f.infinity then signed negative rank h
    else ofInt ((signedUnits f negative rank).fdiv f.one)

def exceedsHalf : Binary f → Bool
  | nan => false
  | signed negative rank _ => !negative && decide (f.one < 2 * f.units rank)

/-- The floor of the quotient of two numbers, the divisor being other than zero. A quotient of zero keeps its sign. -/
def floorQuotient (a b : Binary f) : Binary f :=
  let r := remainder a b
  let whole := (a - r) / b
  let quotient := if !r.isZero && r.isNegative != b.isNegative then whole - ofInt 1 else whole
  if quotient.isZero then zero (a / b).isNegative
  else
    let low := quotient.floor
    if exceedsHalf (quotient - low) then low + ofInt 1 else low

end Reckoner.Binary
