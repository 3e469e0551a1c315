import Reckoner.Reference.Symbol

/-!
# Misreadings

What is wrong with symbols that are no term. A closing bracket without an opening one, brackets nested too deeply and numbers with zeros in front are faults wherever they stand, and the first of them is reported before any other fault. Otherwise the symbols are followed up to the first that cannot stand at its place, with a stack of the brackets that are open. A number behind a finished operand may be the beginning of a second term, which is followed to its end, for within brackets a comma may have been forgotten there. Running out of symbols while a bracket is open is a fault of that bracket.
-/

namespace Reckoner.Reference

/-- How deep brackets may be nested and how many digits a number may have. -/
structure Limits where
  depth : Option Nat
  digits : Option Nat
deriving DecidableEq, Repr

def Limits.unlimited : Limits := ⟨none, none⟩

def Limits.usual : Limits := ⟨some 200, some 4300⟩

inductive Misreading where
  /-- There is nothing to read. -/
  | empty
  | invalid
  | missingComma
  | unclosedBracket
  | unmatchedBracket
  | tooManyBrackets
  | leadingZeros
  | starred
  | doubleStarred
  | tooManyDigits (limit digits : Nat)
deriving DecidableEq, Repr

namespace Misreading

def description : Misreading → String
  | empty => "invalid syntax"
  | invalid => "invalid syntax"
  | missingComma => "invalid syntax. Perhaps you forgot a comma?"
  | unclosedBracket => "'(' was never closed"
  | unmatchedBracket => "unmatched ')'"
  | tooManyBrackets => "too many nested parentheses"
  | leadingZeros =>
    "leading zeros in decimal integer literals are not permitted; use an 0o prefix for octal integers"
  | starred => "cannot use starred expression here"
  | doubleStarred => "cannot use double starred expression here"
  | tooManyDigits limit digits =>
    "Exceeds the limit (" ++ toString limit ++ " digits) for integer string conversion: value has " ++ toString digits ++
    " digits; use sys.set_int_max_str_digits() to increase the limit - " ++
    "Consider hexadecimal for huge integer literals to avoid decimal conversion limits."

def line : Misreading → Nat
  | empty => 0
  | _ => 1

def message (m : Misreading) : String := m.description ++ " (<string>, line " ++ toString m.line ++ ")"

/-! ### Faults of single symbols -/

/-- The first fault that shows without regard to what stands where, behind so many open brackets. -/
def ofBrackets? (limits : Limits) : (depth : Nat) → List Symbol → Option Misreading
  | _, [] => none
  | _, .padded :: _ => some leadingZeros
  | depth, .opening :: rest =>
    if limits.depth.any (· ≤ depth) then some tooManyBrackets else ofBrackets? limits (depth + 1) rest
  | 0, .closing :: _ => some unmatchedBracket
  | depth + 1, .closing :: rest => ofBrackets? limits depth rest
  | depth, .number _ :: rest => ofBrackets? limits depth rest
  | depth, .operator _ :: rest => ofBrackets? limits depth rest

def ofDigits? (limits : Limits) : Symbol → Option Misreading
  | .number n =>
    match limits.digits with
    | none => none
    | some limit => if n < Nat.pow 10 limit then none else some (tooManyDigits limit (toString n).length)
  | _ => none

/-! ### Faults of place -/

inductive Bracket where
  | term
  /-- The arguments of a call. -/
  | arguments
  /-- A term behind an asterisk, which is at home in a call only. -/
  | starred
  /-- A term behind two asterisks. -/
  | doubleStarred
deriving DecidableEq, Repr

inductive Place where
  /-- An operand follows. -/
  | operand
  /-- Behind an opening bracket. -/
  | opened
  /-- Behind a finished operand. -/
  | finished
deriving DecidableEq, Repr

/-- The place behind a symbol and the brackets open there, if the symbol may stand at a place. -/
def step? : Place → List Bracket → Symbol → Option (Place × List Bracket)
  | .finished, stack, .operator _ => some (.operand, stack)
  | .finished, stack, .opening => some (.opened, .arguments :: stack)
  | .finished, .term :: stack, .closing => some (.finished, stack)
  | .finished, .arguments :: stack, .closing => some (.finished, stack)
  | .finished, _, _ => none
  | _, stack, .number _ => some (.finished, stack)
  | _, stack, .operator .add => some (.operand, stack)
  | _, stack, .operator .sub => some (.operand, stack)
  | _, stack, .opening => some (.opened, .term :: stack)
  | .opened, .term :: stack, .operator .mul => some (.operand, .starred :: stack)
  | .opened, .arguments :: stack, .operator .mul => some (.operand, .arguments :: stack)
  | .opened, .arguments :: stack, .operator .pow => some (.operand, .arguments :: stack)
  | .opened, _ :: stack, .closing => some (.finished, stack)
  | _, _, _ => none

/-- The fault of a second term, given whether it stands in brackets. -/
def ofSecond (limits : Limits) (enclosed : Bool) : Place → List Bracket → List Symbol → Misreading
  | _, stack, [] => if enclosed || stack != [] then unclosedBracket else invalid
  | place, stack, symbol :: rest =>
    match step? place stack symbol with
    | none => if enclosed then missingComma else invalid
    | some (place, stack) =>
      match ofDigits? limits symbol with
      | some fault => fault
      | none => ofSecond limits enclosed place stack rest

def ofPlace (limits : Limits) : Place → List Bracket → List Symbol → Misreading
  | _, stack, [] => if stack = [] then invalid else unclosedBracket
  | place, stack, symbol :: rest =>
    match step? place stack symbol with
    | some (place, stack) =>
      match ofDigits? limits symbol with
      | some fault => fault
      | none => ofPlace limits place stack rest
    | none =>
      match place, stack, symbol with
      | .opened, .term :: stack, .operator .pow => ofPlace limits .operand (.doubleStarred :: stack) rest
      | .finished, .starred :: _, .closing => starred
      | .finished, .doubleStarred :: _, .closing => doubleStarred
      | .finished, stack, .number n => ofSecond limits (stack != []) .operand [] (.number n :: rest)
      | _, _, _ => invalid

/-- The fault of symbols that are no term, none of which is at fault by itself. -/
def ofSymbols (limits : Limits) (symbols : List Symbol) : Misreading :=
  if symbols = [] then empty else ofPlace limits .operand [] symbols

end Misreading

end Reckoner.Reference
