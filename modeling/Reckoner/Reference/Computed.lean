import Reckoner.Binary.Circular
import Reckoner.Binary.Hypotenuse
import Reckoner.Binary.Power
import Reckoner.Reference.Complex

/-!
# A computed mathematical library

A quotient is worked out by scaling with the ratio of the divisor's smaller part to its larger one. A power with a small whole exponent is a product of repeated squares, any other goes through the distance from the origin and the angle.
-/

namespace Reckoner.Reference

namespace Complex

def one : Complex := ofReal (Binary.ofInt 1)

/-- Whether one magnitude is at most another. Nothing compares with what is not a number. -/
def atMost : Wide → Wide → Bool
  | .signed _ rankA _, .signed _ rankB _ => decide (rankA ≤ rankB)
  | _, _ => false

def quotient (a b : Complex) : Complex :=
  if atMost b.im b.re then
    let ratio := b.im / b.re
    let divisor := b.re + b.im * ratio
    ⟨(a.re + a.im * ratio) / divisor, (a.im - a.re * ratio) / divisor⟩
  else if atMost b.re b.im then
    let ratio := b.re / b.im
    let divisor := b.re * ratio + b.im
    ⟨(a.re * ratio + a.im) / divisor, (a.im * ratio - a.re) / divisor⟩
  else ⟨.nan, .nan⟩

/-- The product of a number with the power of a square, by the binary digits of the exponent. -/
def mulPow (product square : Complex) (n : Nat) : Complex :=
  if h : n = 0 then product
  else mulPow (if n % 2 = 1 then product.mul square else product) (square.mul square) (n / 2)
  termination_by n
  decreasing_by omega

/-- The power with a whole exponent, unless it would be the inverse of zero. -/
def powWhole? (a : Complex) (n : Int) : Option Complex :=
  let power := mulPow one a n.natAbs
  if 0 < n then some power else if power.isZero then none else some (one.quotient power)

/-- The power by distance and angle, unless zero has none or the angle is infinite. -/
def powPolar? (a b : Complex) : Option Complex :=
  if a.isZero then
    if b.im.isZero && !b.re.isNegative then some (ofReal (Binary.zero false)) else none
  else
    let distance := Binary.hypotenuse a.re a.im
    let angle := Binary.angle a.im a.re
    let (length, phase) :=
      if b.im.isZero then (distance ^ b.re, angle * b.re)
      else (distance ^ b.re / Binary.exp (angle * b.im), angle * b.re + b.im * Binary.ln distance)
    if phase.isInfinite then none else some ⟨length * Binary.cos phase, length * Binary.sin phase⟩

/-- A whole number of at most one hundred, as the exponent of repeated squares. -/
def wholeExponent? (b : Complex) : Option Int :=
  match b.re with
  | .nan => none
  | .signed negative rank _ =>
    let units := Binary.Format.double.units rank
    let one := Binary.Format.double.one
    if b.im.isZero && Binary.isWhole .double rank && units ≤ 100 * one then
      some (if negative then -(units / one : Nat) else (units / one : Nat))
    else none

def power? (a b : Complex) : Option Complex :=
  match wholeExponent? b with
  | some n => a.powWhole? n
  | none => a.powPolar? b

end Complex

instance : Library where
  power base exponent := base ^ exponent
  complexQuotient := Complex.quotient
  complexPower? := Complex.power?

end Reckoner.Reference
