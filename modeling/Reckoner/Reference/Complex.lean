import Reckoner.Number
import Reckoner.Reference.Failure

/-!
# Complex numbers

Pairs of wide numbers. Sums and products are worked out part by part. Quotients and powers, and powers of wide numbers, come from a mathematical library that the reference arithmetic is built on and knows nothing about; the arithmetic itself refuses what has no value.
-/

namespace Reckoner.Reference

@[ext] structure Complex where
  re : Wide
  im : Wide
deriving DecidableEq, Repr

/-- What the reference arithmetic takes from a mathematical library. -/
class Library where
  /-- A power that is a wide number, infinite if it is too large. -/
  power : (base exponent : Wide) → Wide
  /-- The quotient by a divisor other than zero. -/
  complexQuotient : (dividend divisor : Complex) → Complex
  /-- A power with infinite parts if it is too large; zero has some powers only. -/
  complexPower? : (base exponent : Complex) → Option Complex

namespace Complex

def ofReal (x : Wide) : Complex := ⟨x, Binary.zero false⟩

def isZero (a : Complex) : Bool := a.re.isZero && a.im.isZero

def isInfinite (a : Complex) : Bool := a.re.isInfinite || a.im.isInfinite

def neg (a : Complex) : Complex := ⟨-a.re, -a.im⟩

def add (a b : Complex) : Complex := ⟨a.re + b.re, a.im + b.im⟩

def sub (a b : Complex) : Complex := ⟨a.re - b.re, a.im - b.im⟩

def mul (a b : Complex) : Complex := ⟨a.re * b.re - a.im * b.im, a.re * b.im + a.im * b.re⟩

def div [Library] (a b : Complex) : Except Failure Complex :=
  if b.isZero then .error .complexDivision else .ok (Library.complexQuotient a b)

def pow [Library] (a b : Complex) : Except Failure Complex :=
  match Library.complexPower? a b with
  | none => .error .zeroComplexPower
  | some c => if c.isInfinite then .error .complexPowerOverflow else .ok c

/-! ### Text -/

/-- The parts of a complex number are written like wide numbers, but whole ones without a point. -/
def layout : Decimal.Layout := { Wide.layout with pointZero := false }

/-- Both parts in brackets, or the imaginary one alone if the other is zero without a sign. -/
def write (a : Complex) : String :=
  let im := layout.write a.im
  if a.re = Binary.zero false then im ++ "j"
  else "(" ++ layout.write a.re ++ (if a.im.isNegative then "" else "+") ++ im ++ "j)"

end Complex

end Reckoner.Reference
