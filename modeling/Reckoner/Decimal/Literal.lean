import Reckoner.Text.Blank
import Reckoner.Text.DecimalDigit

/-!
# Number literals

How a text is read as a number: white space around it, an optional sign, and either digits with an optional point and exponent or one of the words for infinity and for no number, in any case of letters. Digits of any script count, and a single underscore may stand between two digits. What the text denotes is exact; rounding comes later.
-/

namespace Reckoner

/-- The number `coefficient · 10 ^ exponent`. -/
structure Decimal where
  coefficient : Nat
  exponent : Int
deriving DecidableEq, Repr

inductive Literal where
  | finite (negative : Bool) (magnitude : Decimal)
  | infinite (negative : Bool)
  | nan
deriving DecidableEq, Repr

namespace Literal

/-- The ASCII character a character counts as: a digit of any script as the digit, a space of any script as a space. Nothing else beyond ASCII has a place in a number. -/
def plainChar? (c : Char) : Option Char :=
  if c.toNat < 0x80 then some c
  else if Text.isWideBlank c then some ' '
  else (Text.digitValue? c).map fun d => Char.ofNat (0x30 + d)

/-- The text without its underscores, each of which must stand between two digits. The flag says whether a digit stands before. -/
def joinDigits? : (afterDigit : Bool) → List Char → Option (List Char)
  | _, [] => some []
  | afterDigit, c :: rest =>
    if c = '_' then
      if afterDigit && rest.head?.any Char.isDigit then joinDigits? false rest else none
    else (joinDigits? c.isDigit rest).map (c :: ·)

/-- ASCII white space, the separators `0x1c` to `0x1f` not included. -/
def isPlainBlank (c : Char) : Bool := c == ' ' || (0x09 ≤ c.toNat && c.toNat ≤ 0x0d)

/-- Whether there is a minus sign, and the text after the sign if there is one. -/
def takeSign : List Char → Bool × List Char
  | '-' :: rest => (true, rest)
  | '+' :: rest => (false, rest)
  | cs => (false, cs)

def digitsValue (digits : List Char) : Nat := digits.foldl (fun n c => 10 * n + (c.toNat - 0x30)) 0

/-- The exponent written after a mantissa: nothing at all, or a letter, an optional sign and digits. -/
def exponent? : List Char → Option Int
  | [] => some 0
  | c :: rest =>
    let (negative, digits) := takeSign rest
    if (c = 'e' ∨ c = 'E') ∧ digits ≠ [] ∧ digits.all Char.isDigit then
      some (if negative then -(digitsValue digits : Int) else digitsValue digits)
    else none

/-- The digits behind a point, if a point comes first, and what comes after them. -/
def takeFraction : List Char → List Char × List Char
  | '.' :: rest => (rest.takeWhile Char.isDigit, rest.dropWhile Char.isDigit)
  | cs => ([], cs)

def decimal? (cs : List Char) : Option Decimal :=
  let whole := cs.takeWhile Char.isDigit
  let (fraction, rest) := takeFraction (cs.dropWhile Char.isDigit)
  if whole = [] ∧ fraction = [] then none
  else (exponent? rest).map fun exponent => ⟨digitsValue (whole ++ fraction), exponent - fraction.length⟩

/-- A literal of ASCII characters, without white space and underscores. -/
def ofPlain? (cs : List Char) : Option Literal :=
  let (negative, body) := takeSign cs
  let word := body.map Char.toLower
  if word = "inf".toList ∨ word = "infinity".toList then some (infinite negative)
  else if word = "nan".toList then some nan
  else (decimal? body).map (finite negative)

def read? (text : String) : Option Literal :=
  (text.toList.mapM plainChar?).bind fun plain =>
    (joinDigits? false plain).bind fun joined => ofPlain? (Text.trimBy isPlainBlank joined)

end Literal

end Reckoner
