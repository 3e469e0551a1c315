import Reckoner.Reference.Misreading
import Reckoner.Reference.Term.Reader

/-!
# What texts denote

A text denotes the wide number that its term has as a value, converted if it is whole. There is none if the text is no term, or if a step of the computation fails.
-/

namespace Reckoner.Reference

inductive Error where
  | misread (misreading : Misreading)
  | failed (failure : Failure)
deriving DecidableEq, Repr

def Error.message : Error → String
  | misread misreading => misreading.message
  | failed failure => failure.message

/-- The term that symbols make up. Numbers with too many digits show when they are read, so the first of them does in a term. -/
def Term.ofSymbols (limits : Limits) (symbols : List Symbol) : Except Misreading Term :=
  match Misreading.ofBrackets? limits 0 symbols with
  | some misreading => .error misreading
  | none =>
    match ofSymbols? symbols with
    | none => .error (Misreading.ofSymbols limits symbols)
    | some term =>
      match symbols.findSome? (Misreading.ofDigits? limits) with
      | some misreading => .error misreading
      | none => .ok term

def Term.ofText (limits : Limits) (text : String) : Except Misreading Term :=
  match Symbol.scan? text with
  | none => .error .invalid
  | some symbols => ofSymbols limits symbols

variable [Library]

def Term.denotation (term : Term) : Except Failure Wide := do (← term.evaluate).result

def denotation (limits : Limits) (text : String) : Except Error Wide :=
  match Term.ofText limits text with
  | .error misreading => .error (.misread misreading)
  | .ok term => term.denotation.mapError .failed

end Reckoner.Reference
