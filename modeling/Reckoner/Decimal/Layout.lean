import Reckoner.Binary.Value
import Reckoner.Decimal.Shortest

/-!
# Decimal layouts

How a decimal is written: positionally, padded with zeros up to the point, or with one digit before the point and a power of ten. A layout collects the remaining choices of an output format, and writes the shortest decimal of a binary number by them.
-/

namespace Reckoner.Decimal

def digits (d : Decimal) : List Char := Nat.toDigits 10 d.coefficient

/-- How many digits stand before the point, less the zeros that stand behind it. -/
def pointPosition (d : Decimal) : Int := d.digits.length + d.exponent

/-- The digits before and behind the point; there is always one before it. -/
def split (d : Decimal) : List Char × List Char :=
  let zeros (n : Nat) : List Char := List.replicate n '0'
  let point := d.pointPosition
  if 0 ≤ d.exponent then (d.digits ++ zeros d.exponent.toNat, [])
  else if 0 < point then (d.digits.take point.toNat, d.digits.drop point.toNat)
  else (['0'], zeros (-point).toNat ++ d.digits)

/-- The number without a power of ten. A whole number gets a point and a zero only if asked to. -/
def positional (pointZero : Bool) (d : Decimal) : String :=
  let (whole, fraction) := d.split
  let fraction := if fraction = [] ∧ pointZero then ['0'] else fraction
  String.ofList (if fraction = [] then whole else whole ++ '.' :: fraction)

/-- The number with one digit before the point and a signed power of ten of at least two digits. -/
def scientific (d : Decimal) : String :=
  let exponent := d.pointPosition - 1
  let power := Nat.toDigits 10 exponent.natAbs
  let mantissa := match d.digits with
    | [] => []
    | [lead] => [lead]
    | lead :: rest => lead :: '.' :: rest
  String.ofList (mantissa ++ 'e' :: (if exponent < 0 then '-' else '+') :: (if power.length < 2 then '0' :: power else power))

/-- The choices of an output format. -/
structure Layout where
  /-- How no number is written. -/
  nan : String
  /-- Whether a whole number in positional form gets a point and a zero. -/
  pointZero : Bool
  /-- Whether a rank with the given shortest decimal is written positionally. -/
  isPositional : Nat → Decimal → Bool

def Layout.write {f : Binary.Format} (layout : Layout) : Binary f → String
  | .nan => layout.nan
  | .signed negative rank _ =>
    let magnitude :=
      if rank = f.infinity then "inf"
      else
        let d := shortest f rank
        if layout.isPositional rank d then d.positional layout.pointZero else d.scientific
    if negative then "-" ++ magnitude else magnitude

end Reckoner.Decimal
