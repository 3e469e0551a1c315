import Reckoner.Binary.Exponential

/-!
# Powers of binary numbers

The power of a positive base is the exponential of the exponent times the logarithm of the base. It is worked out to about two hundred bits, brought to 128 and then rounded to the format. A power that the format, or a half step of it, holds exactly is met exactly by the 128 bits, and no other comes near enough to a half step to be rounded to the wrong side. The remaining cases follow the usual rules: any number to the power zero is one, and so is one to any power, even where the other operand is not a number; a negative base has a power only for whole exponents.
-/

namespace Reckoner.Binary

variable {f : Format}

/-- The power of a positive magnitude, given in units, to a finite exponent, given as a signed number of units. -/
def powMagnitude (negative : Bool) (base : Nat) (exponent : Int) : Binary f :=
  ofLn negative (lnMagnitude f base * exponent / f.one)

def isWhole (f : Format) (rank : Nat) : Bool := f.units rank % f.one == 0

/-- Whether a rank stands for an odd number. Infinity counts as an even one, being a power of two. -/
def isOdd (f : Format) (rank : Nat) : Bool := f.units rank % (2 * f.one) == f.one

def pow : Binary f → Binary f → Binary f
  | nan, nan => nan
  | nan, signed _ rank _ => if rank = 0 then ofInt 1 else nan
  | signed negative rank _, nan => if negative = false ∧ f.units rank = f.one then ofInt 1 else nan
  | signed negativeB rankB _, signed negativeE rankE _ =>
    let base := f.units rankB
    let negative := negativeB && isOdd f rankE
    if rankE = 0 ∨ (negativeB = false ∧ base = f.one) then ofInt 1
    else if rankB = 0 then
      if negativeE then infinity negative else zero negative
    else if rankB = f.infinity then
      if negativeE then zero negative else infinity negative
    else if rankE = f.infinity then
      if base = f.one then ofInt 1
      else if decide (base < f.one) == negativeE then infinity false
      else zero false
    else if negativeB ∧ isWhole f rankE = false then nan
    else
      let exponent : Int := f.units rankE
      powMagnitude negative base (if negativeE then -exponent else exponent)

instance : HPow (Binary f) (Binary f) (Binary f) := ⟨pow⟩

end Reckoner.Binary
