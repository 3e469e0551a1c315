import Reckoner.Binary.FixedPoint
import Reckoner.Binary.Value

/-!
# Circular functions of binary numbers

Sine, cosine and the angle of a point. A sine is that of a rest of less than a quarter turn, or the cosine of such a rest; since an angle may be as large as the format allows, the quarter turn that is taken away from it again and again needs as many bits more as the format has binades above one. Angles come from Euler's series for the inverse tangent, whose terms fall at least by half where the tangent is at most one.
-/

namespace Reckoner

namespace FixedPoint

/-- The terms `term`, `term · square · 2k / (2k + 1)` and so on for increasing `k`, summed, in steps of which `one` make one. -/
def arcTerms (one square : Nat) : (terms : Nat) → (term k : Nat) → Nat
  | 0, _, _ => 0
  | terms + 1, term, k =>
    term + arcTerms one square terms (term * square / one * (2 * k) / (2 * k + 1)) (k + 1)

/-- The angle whose tangent is `y / x`, at most one, with the given number of bits behind the point. -/
def arc (bits y x : Nat) : Nat :=
  let one := Nat.pow 2 bits
  let square := x * x + y * y
  arcTerms one (y * y * one / square) bits (x * y * one / square) 1

def quarterTurn (bits : Nat) : Nat := 2 * arc bits 1 1

/-- The angle of a point of the first quadrant other than the origin. -/
def angle (y x : Nat) : Nat :=
  if y ≤ x then arc fractionBits y x else quarterTurn fractionBits - arc fractionBits x y

/-- The terms `term`, `-term · square / ((k + 1) (k + 2))` and so on, summed. -/
def waveTerms (square : Nat) : (terms : Nat) → (term k : Nat) → Nat
  | 0, _, _ => 0
  | terms + 1, term, k => term - waveTerms square terms (term * square / one / ((k + 1) * (k + 2))) (k + 2)

/-- The sine of an angle of at most a quarter turn. -/
def sin (x : Nat) : Nat := waveTerms (x * x / one) (fractionBits / 8) x 1

def cos (x : Nat) : Nat := waveTerms (x * x / one) (fractionBits / 8) one 0

end FixedPoint

namespace Binary

variable {f : Format}

/-- The quarter turns in a finite angle, and the rest in steps. -/
def quarters (f : Format) (rank : Nat) : Nat × Nat :=
  let quarter := FixedPoint.quarterTurn (FixedPoint.fractionBits + f.scale)
  let angle := f.units rank * FixedPoint.one
  (angle / quarter, angle % quarter / f.one)

def sinQuarters (negative : Bool) (quarters rest : Nat) : Binary f :=
  let height := if quarters % 2 = 0 then FixedPoint.sin rest else FixedPoint.cos rest
  rounded (negative ^^ decide (2 ≤ quarters % 4)) (height * f.one) FixedPoint.one

/-- The sine. That of a very small angle is nearest to the angle itself. -/
def sin : Binary f → Binary f
  | nan => nan
  | signed negative rank h =>
    if rank = f.infinity then nan
    else if f.units rank * f.binade ≤ f.one then signed negative rank h
    else
      let (quarters, rest) := quarters f rank
      sinQuarters negative quarters rest

def cos : Binary f → Binary f
  | nan => nan
  | signed _ rank _ =>
    if rank = f.infinity then nan
    else
      let (quarters, rest) := quarters f rank
      sinQuarters false (quarters + 1) rest

/-- How far out a coordinate lies, if only the direction matters. A finite coordinate is nothing beside an infinite one. -/
def reach (f : Format) (rank other : Nat) : Nat :=
  if rank = f.infinity ∨ other = f.infinity then if rank = f.infinity then 1 else 0 else f.units rank

/-- The angle of the point with the coordinates `x` and `y`, between minus and plus half a turn. A zero counts as lying on the side of its sign, and a very small angle is nearest to its tangent. -/
def angle : (y x : Binary f) → Binary f
  | nan, _ => nan
  | _, nan => nan
  | signed negativeY rankY _, signed negativeX rankX _ =>
    let y := reach f rankY rankX
    let x := reach f rankX rankY
    if negativeX = false ∧ (y = 0 ∨ y * f.binade * f.binade ≤ x) then
      if y = 0 then zero negativeY else rounded negativeY (y * f.one) x
    else
      let acute := if y = 0 then 0 else FixedPoint.angle y x
      let steps := if negativeX then 2 * FixedPoint.quarterTurn FixedPoint.fractionBits - acute else acute
      rounded negativeY (steps * f.one) FixedPoint.one

end Binary

end Reckoner
