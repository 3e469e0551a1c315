import Reckoner.Binary.Value

/-!
# Arithmetic on binary numbers

Each operation takes the exact result and rounds it once. What has no value, such as the difference of two infinities or zero over zero, is not a number; a finite number over zero is infinite.
-/

namespace Reckoner.Binary

variable {f : Format}

/-- The value of a signed rank as a whole number of units. -/
def signedUnits (f : Format) (negative : Bool) (rank : Nat) : Int :=
  if negative then -(f.units rank : Int) else f.units rank

def neg : Binary f → Binary f
  | nan => nan
  | signed negative rank h => signed (!negative) rank h

/-- A sum of zero is negative only if both terms are. -/
def add : Binary f → Binary f → Binary f
  | nan, _ => nan
  | _, nan => nan
  | signed negativeA rankA hA, signed negativeB rankB hB =>
    if rankA = f.infinity then
      if rankB = f.infinity ∧ negativeA ≠ negativeB then nan else signed negativeA rankA hA
    else if rankB = f.infinity then signed negativeB rankB hB
    else
      let sum := signedUnits f negativeA rankA + signedUnits f negativeB rankB
      if sum = 0 then zero (negativeA && negativeB) else rounded (sum < 0) sum.natAbs 1

def sub (a b : Binary f) : Binary f := add a (neg b)

def mul : Binary f → Binary f → Binary f
  | nan, _ => nan
  | _, nan => nan
  | signed negativeA rankA _, signed negativeB rankB _ =>
    let negative := negativeA ^^ negativeB
    if rankA = f.infinity ∨ rankB = f.infinity then
      if rankA = 0 ∨ rankB = 0 then nan else infinity negative
    else rounded negative (f.units rankA * f.units rankB) f.one

def div : Binary f → Binary f → Binary f
  | nan, _ => nan
  | _, nan => nan
  | signed negativeA rankA _, signed negativeB rankB _ =>
    let negative := negativeA ^^ negativeB
    if rankA = f.infinity then
      if rankB = f.infinity then nan else infinity negative
    else if rankB = f.infinity then zero negative
    else if rankB = 0 then
      if rankA = 0 then nan else infinity negative
    else rounded negative (f.units rankA * f.one) (f.units rankB)

instance : Neg (Binary f) := ⟨neg⟩

instance : Add (Binary f) := ⟨add⟩

instance : Sub (Binary f) := ⟨sub⟩

instance : Mul (Binary f) := ⟨mul⟩

instance : Div (Binary f) := ⟨div⟩

end Reckoner.Binary
