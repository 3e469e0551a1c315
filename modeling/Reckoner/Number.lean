import Reckoner.Binary.Arithmetic
import Reckoner.Binary.OfDecimal
import Reckoner.Decimal.Layout

/-!
# Numbers

The numbers of the calculator are those of the four-byte format. A literal is read in the eight-byte format first and then rounded again, so a text may come out one step off the nearest number. Sums, differences, products and quotients are those of the format. Powers, and the texts of finite numbers, come from a number library that the calculator is built on and knows nothing about.
-/

namespace Reckoner

abbrev Number := Binary .single

/-- Numbers of the eight-byte format, through which literals pass. -/
abbrev Wide := Binary .double

namespace Number

/-- What the calculator takes from a number library. -/
class Library where
  power : (base exponent : Number) → Number
  /-- A finite number as a result, without a power of ten and without a point behind a whole one. -/
  positional : Number → String
  /-- Any number as the log shows it. -/
  display : Number → String

def one : Number := Binary.ofInt 1

/-- The number a text denotes, rounded twice, if the text is a literal. -/
def read? (text : String) : Option Number :=
  (Literal.read? text).map fun literal => (Binary.ofLiteral .double literal).convert .single

section

variable [Library]

def root (radicand degree : Number) : Number := Library.power radicand (one / degree)

def write (x : Number) : String :=
  match x with
  | .nan => "NaN"
  | .signed negative rank _ =>
    if rank = Binary.Format.single.infinity then if negative then "-inf" else "inf" else Library.positional x

end

end Number

/-- Wide numbers are positional if the leading digit stands from four places behind the point to sixteen before it. -/
def Wide.layout : Decimal.Layout where
  nan := "nan"
  pointZero := true
  isPositional _ d := -4 < d.pointPosition && d.pointPosition ≤ 16

def Wide.write (x : Wide) : String := Wide.layout.write x

end Reckoner
