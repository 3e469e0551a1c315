import Reckoner.Reference.Quantity

/-!
# Values of the reference arithmetic

A pair of brackets with nothing between them is a value too, the empty tuple. It can be joined to itself and repeated, which makes no other value of it, and that is all it can do. No value can be called.
-/

namespace Reckoner.Reference

inductive Value where
  | quantity (q : Quantity)
  | emptyTuple
deriving DecidableEq, Repr

/-- How an argument is handed over in a call: as it is, or taken apart as a sequence or as a mapping. -/
inductive Passing where
  | single
  | sequence
  | mapping
deriving DecidableEq, Repr

namespace Value

def kind : Value → Kind
  | quantity q => q.kind
  | emptyTuple => .emptyTuple

def write : Value → Except Failure String
  | quantity q => q.write
  | emptyTuple => .ok "()"

/-- The empty tuple, repeated. Any whole number of repetitions will do that fits into eight bytes. -/
def repeated : Value → Except Failure Value
  | quantity (.whole n) => if n.bmod (Nat.pow 2 64) = n then .ok emptyTuple else .error .countOverflow
  | count => .error (.notCount count.kind)

def apply [Library] : Operator → Value → Value → Except Failure Value
  | operator, quantity a, quantity b => (Quantity.apply operator a b).map quantity
  | .add, emptyTuple, emptyTuple => .ok emptyTuple
  | .add, emptyTuple, b => .error (.notConcatenable b.kind)
  | .mul, emptyTuple, b => b.repeated
  | .mul, a, emptyTuple => a.repeated
  | operator, a, b => .error (.unsupported operator a.kind b.kind)

def withSign (sign : Sign) : Value → Except Failure Value
  | quantity q => .ok (quantity (q.withSign sign))
  | emptyTuple => .error (.unsigned sign .emptyTuple)

/-- Why a call fails. What is to be taken apart is looked at before what is called. -/
def callFailure (callee : Value) : Passing → (argument : Value) → Failure
  | .single, _ => .notCallable callee.kind
  | .sequence, emptyTuple => .notCallable callee.kind
  | .sequence, quantity q =>
    match callee.write with
    | .error e => e
    | .ok text => .notIterable text q.kind
  | .mapping, argument =>
    match callee.write with
    | .error e => e
    | .ok text => .notMapping text argument.kind

def result : Value → Except Failure Wide
  | quantity q => q.result
  | emptyTuple => .error (.notReal .emptyTuple)

end Value

end Reckoner.Reference
