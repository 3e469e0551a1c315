import Reckoner.Misfit

/-!
# Expressions

An expression is an atom or an operation on two operands. Its text form puts the operator first and brackets around every operation. An operand may also be something that is no expression at all; such a misfit is carried along and only an evaluation complains about it.
-/

namespace Reckoner

inductive Expr where
  | atom (text : String)
  | operation (operator : String) (left right : Expr)
  | misfit (value : Misfit)
deriving DecidableEq, Repr

namespace Expr

def formName : Expr → String
  | atom _ => "Atom"
  | operation .. => "Operation"
  | misfit value => value.typeName

def render : Expr → String
  | atom text => text
  | operation operator left right => "(" ++ operator ++ " " ++ left.render ++ " " ++ right.render ++ ")"
  | misfit value => value.plain

structure ArityError where
  operator : String
  operands : Nat
deriving DecidableEq, Repr

def ArityError.message (e : ArityError) : String :=
  "Operation " ++ Text.quoted e.operator ++ " takes exactly 2 operands, got " ++ toString e.operands

/-- The operation on a list of operands, if there are two. -/
def ofOperands (operator : String) : List Expr → Except ArityError Expr
  | [left, right] => .ok (operation operator left right)
  | operands => .error ⟨operator, operands.length⟩

end Expr

end Reckoner
