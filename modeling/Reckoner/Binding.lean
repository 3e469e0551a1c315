/-!
# Binding powers

How tightly an operator holds the operand on either side, in tenths so that the numbers stay whole. An operator whose left power is the smaller groups to the left, one whose right power is the smaller groups to the right. The point binds tightest of all, so `3.5` is an operation on `3` and `5`.
-/

namespace Reckoner

structure Binding where
  left : Nat
  right : Nat
deriving DecidableEq, Repr

namespace Binding

def of? (operator : String) : Option Binding :=
  if operator = "=" then some ⟨2, 1⟩
  else if operator = "+" ∨ operator = "-" then some ⟨10, 11⟩
  else if operator = "*" ∨ operator = "/" then some ⟨20, 21⟩
  else if operator = "^" ∨ operator = "√" then some ⟨31, 30⟩
  else if operator = "." then some ⟨40, 41⟩
  else none

end Binding

end Reckoner
