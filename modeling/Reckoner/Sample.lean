/-!
# Sample expressions

Random arithmetic expressions for comparing the calculator with the reference arithmetic. A sample is a number below one hundred, or two samples joined by an operator, each of them in brackets or not. Since brackets are left out at random, the grouping of the text is in general not the grouping of the sample. Samples are drawn from tapes of random outcomes.
-/

namespace Reckoner

inductive Sample where
  | number (n : Nat)
  | joined (left : Sample) (leftBracketed : Bool) (operator : Char) (right : Sample) (rightBracketed : Bool)
deriving DecidableEq, Repr

namespace Sample

def bracket (wanted : Bool) (text : String) : String := if wanted then "(" ++ text ++ ")" else text

def text : Sample → String
  | number n => toString n
  | joined left leftBracketed operator right rightBracketed =>
    bracket leftBracketed left.text ++ " " ++ String.singleton operator ++ " " ++ bracket rightBracketed right.text

def operators : List Char := ['+', '-', '*', '/']

/-! ### Drawing samples -/

/-- Outcomes that are read in order and, once used up, again from the start. -/
structure Tape where
  outcomes : List Nat
  position : Nat := 0
deriving DecidableEq, Repr

/-- The next outcome, which is zero on an empty tape. -/
def Tape.next (tape : Tape) : Nat × Tape :=
  (tape.outcomes.getD (tape.position % tape.outcomes.length) 0, { tape with position := tape.position + 1 })

/-- The sources of chance: rolls of a hundred-sided die, numbers, and choices of an operator. -/
structure Chance where
  rolls : Tape
  numbers : Tape
  choices : Tape
deriving DecidableEq, Repr

def rollBelow (limit : Nat) : StateM Chance Bool := fun chance =>
  let (roll, rolls) := chance.rolls.next
  (decide (roll < limit), { chance with rolls })

def drawNumber : StateM Chance Sample := fun chance =>
  let (n, numbers) := chance.numbers.next
  (number n, { chance with numbers })

def drawOperator : StateM Chance Char := fun chance =>
  let (choice, choices) := chance.choices.next
  (operators.getD choice '+', { chance with choices })

/-- A sample that joins samples at most to the given depth. Above the bottom three rolls in ten end in a number, and an operand gets brackets on two in ten. -/
def draw : (depth : Nat) → StateM Chance Sample
  | 0 => drawNumber
  | depth + 1 => do
    if ← rollBelow 30 then drawNumber
    else
      let left ← draw depth
      let right ← draw depth
      let leftBracketed ← rollBelow 20
      let rightBracketed ← rollBelow 20
      let operator ← drawOperator
      return joined left leftBracketed operator right rightBracketed

end Sample

end Reckoner
