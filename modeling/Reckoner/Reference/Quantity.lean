import Reckoner.Binary.FloorQuotient
import Reckoner.Reference.Complex

/-!
# Reference arithmetic

The arithmetic that the calculator is compared with: integers stay exact, whatever their size, and a quotient, a power with a negative exponent or a wide operand makes a wide number. Where the calculator would give an infinity this arithmetic reports an error instead. A negative base has powers to fractional exponents too, which are complex, and so is whatever is worked out from them.
-/

namespace Reckoner.Reference

inductive Quantity where
  | whole (n : Int)
  | wide (x : Wide)
  | complex (z : Complex)
deriving DecidableEq, Repr

/-- The wide number nearest to a whole one, unless that would be infinite. -/
def wideOfInt (n : Int) : Except Failure Wide :=
  let x : Wide := Binary.ofInt n
  if x.isInfinite then .error .conversionOverflow else .ok x

/-- The rounded quotient of two whole numbers. A zero quotient is negative if the divisor is. -/
def divideWhole (a b : Int) : Except Failure Quantity :=
  if b = 0 then .error .wholeDivision
  else
    let x : Wide := Binary.rounded ((a < 0) != (b < 0)) (a.natAbs * Binary.Format.double.one) b.natAbs
    if x.isInfinite then .error .quotientOverflow else .ok (.wide x)

def divideWide (a b : Wide) : Except Failure Quantity :=
  if b.isZero then .error .wideDivision else .ok (.wide (a / b))

def floorDivideWide (a b : Wide) : Except Failure Quantity :=
  if b.isZero then .error .wideFloorDivision else .ok (.wide (Binary.floorQuotient a b))

/-- Whether a wide number has a fractional part. Infinity has none, being a power of two. -/
def isFractional : Wide → Bool
  | .nan => false
  | .signed _ rank _ => Binary.Format.double.units rank % Binary.Format.double.one != 0

/-- A power of an integer. Those of zero, one and minus one depend on whether the exponent is zero, odd or even, and need no multiplication however large it is. -/
def powerWhole (m : Int) (n : Nat) : Int :=
  if m.natAbs ≤ 1 then if n = 0 then 1 else if n % 2 = 0 then m * m else m
  else Int.pow m n

theorem powerWhole_eq (m : Int) (n : Nat) : powerWhole m n = Int.pow m n := by
  unfold powerWhole
  split
  case isFalse => rfl
  case isTrue small =>
    have cube : m * m * m = m := by
      obtain rfl | rfl | rfl : m = 0 ∨ m = 1 ∨ m = -1 := by omega
      all_goals rfl
    have pow_zero : Int.pow m 0 = 1 := Int.pow_zero m
    have pow_succ (k : Nat) : Int.pow m (k + 1) = Int.pow m k * m := Int.pow_succ m k
    have parity (k : Nat) : Int.pow m (k + 1) = if k % 2 = 0 then m else m * m := by
      induction k with
      | zero => rw [pow_succ, pow_zero, Int.one_mul, if_pos rfl]
      | succ k ih =>
        rw [pow_succ, ih]
        by_cases even : k % 2 = 0
        · rw [if_pos even, if_neg (by omega)]
        · rw [if_neg even, if_pos (by omega), cube]
    cases n with
    | zero => rw [if_pos rfl, pow_zero]
    | succ k =>
      rw [parity, if_neg (Nat.succ_ne_zero k)]
      by_cases even : k % 2 = 0
      · rw [if_pos even, if_neg (by omega)]
      · rw [if_neg even, if_pos (by omega)]

section

variable [Library]

def powerWide (base exponent : Wide) : Except Failure Quantity :=
  if base.isZero && exponent.isNegative && !exponent.isZero && exponent.isFinite then .error .zeroPower
  else if base.isNegative && !base.isZero && base.isFinite && isFractional exponent then
    (Complex.pow (.ofReal base) (.ofReal exponent)).map .complex
  else
    let x := Library.power base exponent
    if x.isInfinite && base.isFinite && exponent.isFinite then .error .powerOverflow else .ok (.wide x)

end

namespace Quantity

def kind : Quantity → Kind
  | whole _ => .whole
  | wide _ => .wide
  | complex _ => .complex

def toComplex : Quantity → Except Failure Complex
  | whole n => (wideOfInt n).map .ofReal
  | wide x => .ok (.ofReal x)
  | complex z => .ok z

/-- Two operands combined as whole numbers if both are, as complex ones if one of them is, and as wide ones otherwise. -/
def byKind (onWhole : Int → Int → Except Failure Quantity) (onWide : Wide → Wide → Except Failure Quantity)
    (onComplex : Complex → Complex → Except Failure Quantity) : Quantity → Quantity → Except Failure Quantity
  | whole m, whole n => onWhole m n
  | whole m, wide y => do onWide (← wideOfInt m) y
  | wide x, whole n => do onWide x (← wideOfInt n)
  | wide x, wide y => onWide x y
  | a, b => do onComplex (← a.toComplex) (← b.toComplex)

def add : Quantity → Quantity → Except Failure Quantity :=
  byKind (fun m n => .ok (whole (m + n))) (fun x y => .ok (wide (x + y))) (fun z w => .ok (complex (z.add w)))

def sub : Quantity → Quantity → Except Failure Quantity :=
  byKind (fun m n => .ok (whole (m - n))) (fun x y => .ok (wide (x - y))) (fun z w => .ok (complex (z.sub w)))

def mul : Quantity → Quantity → Except Failure Quantity :=
  byKind (fun m n => .ok (whole (m * n))) (fun x y => .ok (wide (x * y))) (fun z w => .ok (complex (z.mul w)))

def div [Library] : Quantity → Quantity → Except Failure Quantity :=
  byKind divideWhole divideWide fun z w => (z.div w).map complex

def floorDiv : Quantity → Quantity → Except Failure Quantity
  | whole m, whole n => if n = 0 then .error .wholeFloorDivision else .ok (whole (m.fdiv n))
  | whole m, wide y => do floorDivideWide (← wideOfInt m) y
  | wide x, whole n => do floorDivideWide x (← wideOfInt n)
  | wide x, wide y => floorDivideWide x y
  | a, b => .error (.unsupported .floorDiv a.kind b.kind)

/-- A power of whole numbers. It is whole unless the exponent is negative. -/
def powWhole [Library] (m n : Int) : Except Failure Quantity :=
  if 0 ≤ n then .ok (whole (powerWhole m n.toNat)) else do powerWide (← wideOfInt m) (← wideOfInt n)

def pow [Library] : Quantity → Quantity → Except Failure Quantity :=
  byKind powWhole powerWide fun z w => (z.pow w).map complex

def apply [Library] : Operator → Quantity → Quantity → Except Failure Quantity
  | .add => add
  | .sub => sub
  | .mul => mul
  | .div => div
  | .floorDiv => floorDiv
  | .pow => pow

def neg : Quantity → Quantity
  | whole n => whole (-n)
  | wide x => wide (-x)
  | complex z => complex z.neg

def withSign (q : Quantity) : Sign → Quantity
  | .plus => q
  | .minus => q.neg

/-- The most digits with which a whole number is written. -/
def digitLimit : Nat := 4300

def write : Quantity → Except Failure String
  | whole n => if n.natAbs < Nat.pow 10 digitLimit then .ok (toString n) else .error (.textOverflow digitLimit)
  | wide x => .ok x.write
  | complex z => .ok z.write

/-- The wide number that is the result of a computation. -/
def result : Quantity → Except Failure Wide
  | whole n => wideOfInt n
  | wide x => .ok x
  | complex _ => .error (.notReal .complex)

end Quantity

end Reckoner.Reference
