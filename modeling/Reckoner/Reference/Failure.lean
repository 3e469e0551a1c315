import Reckoner.Reference.Operator

/-!
# Failures of the reference arithmetic

Why a term has no value, or why its value is no number of the real line.
-/

namespace Reckoner.Reference

inductive Kind where
  | whole
  | wide
  | complex
  | emptyTuple
deriving DecidableEq, Repr

def Kind.name : Kind → String
  | whole => "int"
  | wide => "float"
  | complex => "complex"
  | emptyTuple => "tuple"

inductive Failure where
  | wholeDivision
  | wholeFloorDivision
  | wideDivision
  | wideFloorDivision
  | complexDivision
  | zeroPower
  | zeroComplexPower
  | powerOverflow
  | complexPowerOverflow
  | quotientOverflow
  /-- A whole number is too large to become a wide one. -/
  | conversionOverflow
  /-- A whole number has too many digits to be written. -/
  | textOverflow (limit : Nat)
  /-- A whole number is too large to count repetitions. -/
  | countOverflow
  | unsupported (operator : Operator) (left right : Kind)
  | unsigned (sign : Sign) (kind : Kind)
  | notConcatenable (kind : Kind)
  | notCount (kind : Kind)
  | notCallable (kind : Kind)
  | notIterable (callee : String) (kind : Kind)
  | notMapping (callee : String) (kind : Kind)
  /-- The result is not a real number. -/
  | notReal (kind : Kind)
deriving DecidableEq, Repr

def Failure.message : Failure → String
  | wholeDivision => "division by zero"
  | wholeFloorDivision => "integer division or modulo by zero"
  | wideDivision => "float division by zero"
  | wideFloorDivision => "float floor division by zero"
  | complexDivision => "complex division by zero"
  | zeroPower => "0.0 cannot be raised to a negative power"
  | zeroComplexPower => "0.0 to a negative or complex power"
  | powerOverflow => "(34, 'Numerical result out of range')"
  | complexPowerOverflow => "complex exponentiation"
  | quotientOverflow => "integer division result too large for a float"
  | conversionOverflow => "int too large to convert to float"
  | textOverflow limit =>
    "Exceeds the limit (" ++ toString limit ++
    " digits) for integer string conversion; use sys.set_int_max_str_digits() to increase the limit"
  | countOverflow => "cannot fit 'int' into an index-sized integer"
  | unsupported operator left right =>
    "unsupported operand type(s) for " ++ operator.render ++ ": '" ++ left.name ++ "' and '" ++ right.name ++ "'"
  | unsigned sign kind => "bad operand type for unary " ++ sign.render ++ ": '" ++ kind.name ++ "'"
  | notConcatenable kind => "can only concatenate tuple (not \"" ++ kind.name ++ "\") to tuple"
  | notCount kind => "can't multiply sequence by non-int of type '" ++ kind.name ++ "'"
  | notCallable kind => "'" ++ kind.name ++ "' object is not callable"
  | notIterable callee kind => callee ++ " argument after * must be an iterable, not " ++ kind.name
  | notMapping callee kind => callee ++ " argument after ** must be a mapping, not " ++ kind.name
  | notReal kind => "float() argument must be a string or a real number, not '" ++ kind.name ++ "'"

end Reckoner.Reference
