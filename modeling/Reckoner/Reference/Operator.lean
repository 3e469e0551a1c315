/-!
# Operators of the reference arithmetic

Operators stand between two operands, signs in front of one.
-/

namespace Reckoner.Reference

inductive Operator where
  | add
  | sub
  | mul
  | div
  | floorDiv
  | pow
deriving DecidableEq, Repr

def Operator.render : Operator → String
  | add => "+"
  | sub => "-"
  | mul => "*"
  | div => "/"
  | floorDiv => "//"
  | pow => "** or pow()"

inductive Sign where
  | plus
  | minus
deriving DecidableEq, Repr

def Sign.render : Sign → String
  | plus => "+"
  | minus => "-"

end Reckoner.Reference
