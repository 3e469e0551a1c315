import Reckoner.Reference.Symbol
import Reckoner.Reference.Term

/-!
# Reading reference terms

Terms are read level by level: sums of products of signed powers of calls. A power binds tighter than a sign on its left and groups to the right, its exponent may have a sign, and all else groups to the left. A bracket behind a finished operand is a call. This grammar shares nothing with the binding powers of the calculator.
-/

namespace Reckoner.Reference.Term

/-- A term and the symbols after it, fewer than there were. -/
abbrev Shorter (symbols : List Symbol) := { r : Term × List Symbol // r.2.length < symbols.length }

abbrev NoLonger (symbols : List Symbol) := { r : Term × List Symbol // r.2.length ≤ symbols.length }

mutual

/-- A number, a sum in brackets, or brackets alone. -/
def readAtom (symbols : List Symbol) : Option (Shorter symbols) :=
  match symbols with
  | .number n :: rest => some ⟨(number n, rest), Nat.lt_succ_self _⟩
  | .opening :: .closing :: rest => some ⟨(emptyTuple, rest), Nat.lt_succ_of_lt (Nat.lt_succ_self _)⟩
  | .opening :: rest =>
    match readEnclosed rest with
    | none => none
    | some ⟨result, shorter⟩ => some ⟨result, Nat.lt_succ_of_lt shorter⟩
  | _ => none
  termination_by 8 * symbols.length
  decreasing_by simp only [List.length_cons]; omega

def readEnclosed (symbols : List Symbol) : Option (Shorter symbols) :=
  match readSum symbols with
  | some ⟨(term, .closing :: after), shorter⟩ => some ⟨(term, after), Nat.lt_of_succ_lt shorter⟩
  | _ => none
  termination_by 8 * symbols.length + 6
  decreasing_by omega

/-- An atom that is called any number of times. -/
def readPrimary (symbols : List Symbol) : Option (Shorter symbols) :=
  match readAtom symbols with
  | none => none
  | some ⟨(atom, after), shorter⟩ =>
    have : after.length < symbols.length := shorter
    match readCalls atom after with
    | none => none
    | some ⟨result, noLonger⟩ => some ⟨result, Nat.lt_of_le_of_lt noLonger shorter⟩
  termination_by 8 * symbols.length + 1
  decreasing_by all_goals omega

def readCalls (callee : Term) (symbols : List Symbol) : Option (NoLonger symbols) :=
  match symbols with
  | .opening :: .closing :: rest =>
    match readCalls (call callee) rest with
    | none => none
    | some ⟨result, noLonger⟩ => some ⟨result, Nat.le_succ_of_le (Nat.le_succ_of_le noLonger)⟩
  | .opening :: .operator .mul :: rest =>
    match readArgument callee .sequence rest with
    | none => none
    | some ⟨result, noLonger⟩ => some ⟨result, Nat.le_succ_of_le (Nat.le_succ_of_le noLonger)⟩
  | .opening :: .operator .pow :: rest =>
    match readArgument callee .mapping rest with
    | none => none
    | some ⟨result, noLonger⟩ => some ⟨result, Nat.le_succ_of_le (Nat.le_succ_of_le noLonger)⟩
  | .opening :: rest =>
    match readArgument callee .single rest with
    | none => none
    | some ⟨result, noLonger⟩ => some ⟨result, Nat.le_succ_of_le noLonger⟩
  | symbols => some ⟨(callee, symbols), Nat.le_refl _⟩
  termination_by 8 * symbols.length
  decreasing_by all_goals simp only [List.length_cons]; omega

def readArgument (callee : Term) (passing : Passing) (symbols : List Symbol) : Option (NoLonger symbols) :=
  match readEnclosed symbols with
  | none => none
  | some ⟨(argument, after), shorter⟩ =>
    have : after.length < symbols.length := shorter
    match readCalls (callWith callee passing argument) after with
    | none => none
    | some ⟨result, noLonger⟩ => some ⟨result, Nat.le_trans noLonger (Nat.le_of_lt shorter)⟩
  termination_by 8 * symbols.length + 7
  decreasing_by all_goals omega

def readPower (symbols : List Symbol) : Option (Shorter symbols) :=
  match readPrimary symbols with
  | none => none
  | some ⟨(base, .operator .pow :: after), shorter⟩ =>
    have : after.length < symbols.length := Nat.lt_of_succ_lt shorter
    match readSigned after with
    | none => none
    | some ⟨(exponent, rest), shorter'⟩ => some ⟨(binary .pow base exponent, rest), Nat.lt_trans shorter' this⟩
  | some result => some result
  termination_by 8 * symbols.length + 2
  decreasing_by all_goals omega

def readSigned (symbols : List Symbol) : Option (Shorter symbols) :=
  match symbols with
  | .operator .sub :: rest =>
    match readSigned rest with
    | none => none
    | some ⟨(term, after), shorter⟩ => some ⟨(signed .minus term, after), Nat.lt_succ_of_lt shorter⟩
  | .operator .add :: rest =>
    match readSigned rest with
    | none => none
    | some ⟨(term, after), shorter⟩ => some ⟨(signed .plus term, after), Nat.lt_succ_of_lt shorter⟩
  | symbols => readPower symbols
  termination_by 8 * symbols.length + 3
  decreasing_by
    · simp only [List.length_cons]; omega
    · simp only [List.length_cons]; omega
    · omega

def readProduct (symbols : List Symbol) : Option (Shorter symbols) :=
  match readSigned symbols with
  | none => none
  | some ⟨(first, after), shorter⟩ =>
    have : after.length < symbols.length := shorter
    match readFactors first after with
    | none => none
    | some ⟨result, noLonger⟩ => some ⟨result, Nat.lt_of_le_of_lt noLonger shorter⟩
  termination_by 8 * symbols.length + 4
  decreasing_by all_goals omega

def readFactors (left : Term) (symbols : List Symbol) : Option (NoLonger symbols) :=
  match symbols with
  | .operator operator :: rest =>
    if operator = .mul ∨ operator = .div ∨ operator = .floorDiv then
      match readSigned rest with
      | none => none
      | some ⟨(right, after), shorter⟩ =>
        have : after.length < rest.length := shorter
        match readFactors (binary operator left right) after with
        | none => none
        | some ⟨result, noLonger⟩ => some ⟨result, Nat.le_trans noLonger (Nat.le_of_lt (Nat.lt_succ_of_lt this))⟩
    else some ⟨(left, .operator operator :: rest), Nat.le_refl _⟩
  | symbols => some ⟨(left, symbols), Nat.le_refl _⟩
  termination_by 8 * symbols.length
  decreasing_by all_goals simp only [List.length_cons]; omega

def readSum (symbols : List Symbol) : Option (Shorter symbols) :=
  match readProduct symbols with
  | none => none
  | some ⟨(first, after), shorter⟩ =>
    have : after.length < symbols.length := shorter
    match readSummands first after with
    | none => none
    | some ⟨result, noLonger⟩ => some ⟨result, Nat.lt_of_le_of_lt noLonger shorter⟩
  termination_by 8 * symbols.length + 5
  decreasing_by all_goals omega

def readSummands (left : Term) (symbols : List Symbol) : Option (NoLonger symbols) :=
  match symbols with
  | .operator operator :: rest =>
    if operator = .add ∨ operator = .sub then
      match readProduct rest with
      | none => none
      | some ⟨(right, after), shorter⟩ =>
        have : after.length < rest.length := shorter
        match readSummands (binary operator left right) after with
        | none => none
        | some ⟨result, noLonger⟩ => some ⟨result, Nat.le_trans noLonger (Nat.le_of_lt (Nat.lt_succ_of_lt this))⟩
    else some ⟨(left, .operator operator :: rest), Nat.le_refl _⟩
  | symbols => some ⟨(left, symbols), Nat.le_refl _⟩
  termination_by 8 * symbols.length
  decreasing_by all_goals simp only [List.length_cons]; omega

end

def ofSymbols? (symbols : List Symbol) : Option Term :=
  match readSum symbols with
  | some ⟨(term, []), _⟩ => some term
  | _ => none

end Reckoner.Reference.Term
