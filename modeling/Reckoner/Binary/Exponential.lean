import Reckoner.Binary.FixedPoint
import Reckoner.Binary.Value

/-!
# Exponential and logarithm of binary numbers

Both go through the logarithm in fixed point, worked out to about three hundred bits. The exponential of such a logarithm is brought to 128 bits and then rounded to the format.
-/

namespace Reckoner.Binary

variable {f : Format}

/-- The bits of a magnitude before it is rounded to a format. -/
def expandedBits : Nat := 128

/-- The logarithm of a positive magnitude given in units, as a signed number of steps. -/
def lnMagnitude (f : Format) (units : Nat) : Int :=
  let top := units.log2
  ((top : Int) - f.scale) * FixedPoint.lnTwo + FixedPoint.ln units (Nat.pow 2 top)

/-- The number with the given sign whose magnitude has the given logarithm. -/
def ofLn (negative : Bool) (ln : Int) : Binary f :=
  let binade := ln / FixedPoint.lnTwo
  if (f.scale : Int) < binade then infinity negative
  else if binade < -(f.scale + 2 : Int) then zero negative
  else
    let rest := (ln - binade * FixedPoint.lnTwo).toNat
    let mantissa := divHalfEven (FixedPoint.exp rest) (Nat.pow 2 (FixedPoint.fractionBits - expandedBits))
    let shift := binade - expandedBits + f.scale
    if 0 ≤ shift then rounded negative (mantissa * Nat.pow 2 shift.toNat) 1
    else rounded negative mantissa (Nat.pow 2 (-shift).toNat)

def exp : Binary f → Binary f
  | nan => nan
  | signed negative rank _ =>
    if rank = f.infinity then if negative then zero false else infinity false
    else
      let steps : Int := f.units rank * FixedPoint.one / f.one
      ofLn false (if negative then -steps else steps)

def ln : Binary f → Binary f
  | nan => nan
  | signed negative rank _ =>
    if rank = 0 then infinity true
    else if negative then nan
    else if rank = f.infinity then infinity false
    else
      let steps := lnMagnitude f (f.units rank)
      rounded (steps < 0) (steps.natAbs * f.one) FixedPoint.one

end Reckoner.Binary
