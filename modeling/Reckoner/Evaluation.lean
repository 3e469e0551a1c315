import Std.Data.ExtTreeMap
import Reckoner.Expr
import Reckoner.Number

/-!
# Evaluation

The value of an expression under an assignment of numbers to names. An atom that reads as a number is that number, whatever has been assigned to its name. Operands are evaluated from left to right and before their operator is looked at, so of several faults the first one in that order is reported.
-/

namespace Reckoner

abbrev Variables := Std.ExtTreeMap String Number

inductive RuntimeError where
  | undefinedVariable (name : String)
  | badOperator (operator : String)
  /-- The left side of an assignment is no atom. -/
  | badTarget (target : Expr)
  | notExpression (value : Misfit)
deriving DecidableEq, Repr

def RuntimeError.message (e : RuntimeError) : String :=
  "Runtime error: " ++ match e with
    | undefinedVariable name => "Undefined variable " ++ name
    | badOperator operator => "Bad operator: " ++ operator
    | badTarget target => "Assigning only works for variables, got " ++ target.render
    | notExpression value => "Unexpected expression type: " ++ value.quoted

section

variable [Number.Library]

/-- What an operator computes. The equals sign and the point bind operands but compute nothing. -/
def operation? (operator : String) : Option (Number → Number → Number) :=
  if operator = "+" then some (· + ·)
  else if operator = "-" then some (· - ·)
  else if operator = "*" then some (· * ·)
  else if operator = "/" then some (· / ·)
  else if operator = "^" then some Number.Library.power
  else if operator = "√" then some Number.root
  else none

end

namespace Expr

def atomValue (text : String) (vars : Variables) : Except RuntimeError Number :=
  match Number.read? text with
  | some x => .ok x
  | none =>
    match vars[text]? with
    | some x => .ok x
    | none => .error (.undefinedVariable text)

def evaluate [Number.Library] (vars : Variables) : Expr → Except RuntimeError Number
  | atom text => atomValue text vars
  | operation operator left right => do
    let a ← left.evaluate vars
    let b ← right.evaluate vars
    match operation? operator with
    | some compute => .ok (compute a b)
    | none => .error (.badOperator operator)
  | misfit value => .error (.notExpression value)

/-- The name and the right side of an assignment, which is an equals sign at the root; nothing for any other expression. -/
def assignment? : Expr → Except RuntimeError (Option (String × Expr))
  | operation operator left right =>
    if operator = "=" then
      match left with
      | atom name => .ok (some (name, right))
      | target => .error (.badTarget target)
    else .ok none
  | _ => .ok none

end Expr

end Reckoner
