import Reckoner.Reference.Value

/-!
# Reference terms

Arithmetic terms in the usual notation, and their values. A term may also call another one, though no call has a value.
-/

namespace Reckoner.Reference

inductive Term where
  | number (n : Nat)
  | emptyTuple
  | signed (sign : Sign) (term : Term)
  | binary (operator : Operator) (left right : Term)
  /-- A call without arguments. -/
  | call (callee : Term)
  | callWith (callee : Term) (passing : Passing) (argument : Term)
deriving DecidableEq, Repr

/-- The value of a term, operands first and from left to right. -/
def Term.evaluate [Library] : Term → Except Failure Value
  | number n => .ok (.quantity (.whole n))
  | emptyTuple => .ok .emptyTuple
  | signed sign term => do (← term.evaluate).withSign sign
  | binary operator left right => do
    let a ← left.evaluate
    let b ← right.evaluate
    Value.apply operator a b
  | call callee => do throw (.notCallable (← callee.evaluate).kind)
  | callWith callee passing argument => do
    let a ← callee.evaluate
    let b ← argument.evaluate
    throw (a.callFailure passing b)

end Reckoner.Reference
