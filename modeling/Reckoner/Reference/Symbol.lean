import Reckoner.Reference.Operator

/-!
# Symbols of the reference arithmetic

Numbers, operators and brackets, with spaces between them. A power is written as two asterisks and the floor of a quotient with two slashes; of two characters that make up an operator neither is an operator by itself. A caret is another spelling of two asterisks.
-/

namespace Reckoner.Reference

inductive Symbol where
  | number (n : Nat)
  /-- A number other than zero with zeros in front. -/
  | padded
  | operator (operator : Operator)
  | opening
  | closing
deriving DecidableEq, Repr

namespace Symbol

/-- The symbol of a character other than a digit, by itself. -/
def ofChar? : Char → Option Symbol
  | '+' => some (operator .add)
  | '-' => some (operator .sub)
  | '*' => some (operator .mul)
  | '/' => some (operator .div)
  | '(' => some opening
  | ')' => some closing
  | _ => none

def withDigit : Option Symbol → Nat → Symbol
  | none, digit => number digit
  | some (number 0), digit => if digit = 0 then number 0 else padded
  | some (number n), digit => number (10 * n + digit)
  | some symbol, _ => symbol

/-- The symbols of a text without carets, behind the number that was read last and may go on. -/
def scanFrom : (pending : Option Symbol) → List Char → Option (List Symbol)
  | pending, [] => some pending.toList
  | pending, '*' :: '*' :: rest => (scanFrom none rest).map (pending.toList ++ operator .pow :: ·)
  | pending, '/' :: '/' :: rest => (scanFrom none rest).map (pending.toList ++ operator .floorDiv :: ·)
  | pending, c :: rest =>
    if c.isDigit then scanFrom (some (withDigit pending (c.toNat - 0x30))) rest
    else if c = ' ' then (scanFrom none rest).map (pending.toList ++ ·)
    else
      match ofChar? c with
      | none => none
      | some symbol => (scanFrom none rest).map (pending.toList ++ symbol :: ·)

def spellCarets (cs : List Char) : List Char := cs.flatMap fun c => if c = '^' then ['*', '*'] else [c]

/-- The symbols of a text, unless it holds other characters. -/
def scan? (text : String) : Option (List Symbol) := scanFrom none (spellCarets text.toList)

end Symbol

end Reckoner.Reference
