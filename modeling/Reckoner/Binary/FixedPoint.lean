/-!
# Logarithm and exponential in fixed point

Natural numbers that count steps of two to the minus 320, and the two series that a power needs. The logarithm of a number between one and two comes from the series of the inverse hyperbolic tangent, at an argument of at most a third; the exponential of a number below one comes from its power series. Each series is cut where its terms fall below a step.
-/

namespace Reckoner.FixedPoint

def fractionBits : Nat := 320

def one : Nat := Nat.pow 2 fractionBits

/-- The terms `power / order`, `power · square / (order + 2)` and so on, summed. -/
def atanhTerms (square : Nat) : (terms : Nat) → (power order : Nat) → Nat
  | 0, _, _ => 0
  | terms + 1, power, order => power / order + atanhTerms square terms (power * square / one) (order + 2)

/-- The logarithm of `n / d`, which lies between one and two. A term is at most a ninth of the one before. -/
def ln (n d : Nat) : Nat :=
  let z := (n - d) * one / (n + d)
  2 * atanhTerms (z * z / one) (fractionBits / 3 + 2) z 1

def lnTwo : Nat := ln 2 1

def expTerms (x : Nat) : (terms : Nat) → (term order : Nat) → Nat
  | 0, _, _ => 0
  | terms + 1, term, order => term + expTerms x terms (term * x / one / order) (order + 1)

def exp (x : Nat) : Nat := expTerms x (fractionBits / 4) one 1

end Reckoner.FixedPoint
