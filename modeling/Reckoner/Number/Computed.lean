import Reckoner.Binary.Power
import Reckoner.Number

/-!
# A computed number library

Powers worked out among the wide numbers and rounded again, and texts with the fewest digits that tell a number from its neighbours. A result has no power of ten; the log has one where a number is very large or very small.
-/

namespace Reckoner.Number

def pow (base exponent : Number) : Number :=
  Binary.convert .single ((base.convert .double : Wide) ^ (exponent.convert .double : Wide))

/-- Results are always positional, and whole ones have no point. -/
def resultLayout : Decimal.Layout := ⟨"NaN", false, fun _ _ => true⟩

/-- The log is positional for zero and from one ten-thousandth up to below a million, by the exact value. -/
def logLayout : Decimal.Layout where
  nan := "nan"
  pointZero := true
  isPositional rank _ :=
    let units := Binary.Format.single.units rank
    let one := Binary.Format.single.one
    rank == 0 || (one ≤ units * 10000 && units < 1000000 * one)

instance : Library where
  power := pow
  positional := resultLayout.write
  display := logLayout.write

end Reckoner.Number
