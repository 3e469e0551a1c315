import Reckoner.Binding
import Reckoner.Diagnostic
import Reckoner.Expr

/-!
# Parsing by precedence climbing

An expression is an operand followed by operators that bind at least as tightly as a given minimum; the right operand of each is an expression whose minimum is the operator's right power. An operand is a run of atom tokens or an expression in brackets. Parsing stops at a closing bracket nobody opened, at a stop token and at the end of the list, and what is left over is no flaw.

Every result comes with the proof that tokens were used up, which is what makes the recursion end; its measure is a single number, so that closed instances compute. `parsePrefix`, `parseOperand` and `climb` are the same functions without these proofs, and their equations are the ones to reason with.
-/

namespace Reckoner.Parser

structure Fault where
  flaw : Flaw
  rest : List Token
deriving DecidableEq, Repr

def binding (operator : String) (rest : List Token) : Except Fault Binding :=
  match Binding.of? operator with
  | some powers => .ok powers
  | none => .error ⟨.unknownOperator operator, rest⟩

/-- Whether a token ends an expression that is not inside brackets of its own. -/
def ends (token : Token) : Bool := token.kind == .stop || token == Token.closing

def isAtom (token : Token) : Bool := token.kind == .atom

/-! ### The recursion -/

/-- A tree and the tokens after it, fewer than there were. -/
abbrev Shorter (tokens : List Token) := { r : Expr × List Token // r.2.length < tokens.length }

abbrev NoLonger (tokens : List Token) := { r : Expr × List Token // r.2.length ≤ tokens.length }

mutual

def operandShorter (tokens : List Token) : Except Fault (Shorter tokens) :=
  match tokens with
  | [] => .error ⟨.unexpectedEnd, []⟩
  | token :: rest =>
    if token.kind = .atom then
      .ok ⟨(.atom (Token.spell (token :: rest.takeWhile isAtom)), rest.dropWhile isAtom),
        Nat.lt_succ_of_le (List.dropWhile_suffix isAtom).length_le⟩
    else if token = Token.opening then
      match expressionShorter 0 rest with
      | .error fault => .error fault
      | .ok ⟨(inner, after), shorter⟩ =>
        match after, shorter with
        | [], _ => .error ⟨.unclosedBracket, []⟩
        | next :: after, shorter =>
          if next = Token.closing then .ok ⟨(inner, after), by simp at shorter ⊢; omega⟩
          else .error ⟨.unclosedBracket, next :: after⟩
    else if token.kind = .stop then .error ⟨.unexpectedEnd, token :: rest⟩
    else .error ⟨.operandExpected token, token :: rest⟩
  termination_by 2 * tokens.length
  decreasing_by simp only [List.length_cons]; omega

def expressionShorter (minimum : Nat) (tokens : List Token) : Except Fault (Shorter tokens) :=
  match operandShorter tokens with
  | .error fault => .error fault
  | .ok ⟨(operand, after), shorter⟩ =>
    have : after.length < tokens.length := shorter
    match climbNoLonger minimum operand after with
    | .error fault => .error fault
    | .ok ⟨result, noLonger⟩ => .ok ⟨result, Nat.lt_of_le_of_lt noLonger shorter⟩
  termination_by 2 * tokens.length + 1
  decreasing_by all_goals omega

def climbNoLonger (minimum : Nat) (left : Expr) (tokens : List Token) : Except Fault (NoLonger tokens) :=
  match tokens with
  | [] => .ok ⟨(left, []), Nat.le_refl _⟩
  | token :: rest =>
    if ends token then .ok ⟨(left, token :: rest), Nat.le_refl _⟩
    else if token.kind ≠ .operator then .error ⟨.operatorExpected token, token :: rest⟩
    else
      match binding token.lexeme (token :: rest) with
      | .error fault => .error fault
      | .ok powers =>
        if powers.left < minimum then .ok ⟨(left, token :: rest), Nat.le_refl _⟩
        else
          match expressionShorter powers.right rest with
          | .error fault => .error fault
          | .ok ⟨(right, after), shorter⟩ =>
            have : after.length < rest.length := shorter
            match climbNoLonger minimum (.operation token.lexeme left right) after with
            | .error fault => .error fault
            | .ok ⟨result, noLonger⟩ => .ok ⟨result, Nat.le_trans noLonger (Nat.le_of_lt (Nat.lt_succ_of_lt this))⟩
  termination_by 2 * tokens.length
  decreasing_by all_goals simp only [List.length_cons]; omega

end

/-! ### The same functions without the proofs -/

def parseOperand (tokens : List Token) : Except Fault (Expr × List Token) :=
  (operandShorter tokens).map Subtype.val

/-- An expression at the front of the tokens, of operators whose left power is at least the minimum. -/
def parsePrefix (minimum : Nat) (tokens : List Token) : Except Fault (Expr × List Token) :=
  (expressionShorter minimum tokens).map Subtype.val

/-- The expression that begins with a finished left operand and goes on with the tokens. -/
def climb (minimum : Nat) (left : Expr) (tokens : List Token) : Except Fault (Expr × List Token) :=
  (climbNoLonger minimum left tokens).map Subtype.val

theorem parsePrefix_eq (minimum : Nat) (tokens : List Token) :
    parsePrefix minimum tokens = (parseOperand tokens).bind fun (operand, after) => climb minimum operand after := by
  unfold parsePrefix parseOperand climb
  rw [expressionShorter]
  cases operandShorter tokens with
  | error fault => rfl
  | ok result =>
    obtain ⟨⟨operand, after⟩, shorter⟩ := result
    dsimp only [Except.map, Except.bind]
    cases climbNoLonger minimum operand after <;> rfl

theorem parseOperand_nil : parseOperand [] = .error ⟨.unexpectedEnd, []⟩ := by
  simp [parseOperand, operandShorter, Except.map]

theorem parseOperand_atom {token : Token} (hkind : token.kind = .atom) (rest : List Token) :
    parseOperand (token :: rest) =
      .ok (.atom (Token.spell (token :: rest.takeWhile isAtom)), rest.dropWhile isAtom) := by
  simp [parseOperand, operandShorter, hkind, Except.map]

theorem parseOperand_opening (rest : List Token) :
    parseOperand (Token.opening :: rest) = (parsePrefix 0 rest).bind fun (inner, after) =>
      match after with
      | [] => .error ⟨.unclosedBracket, []⟩
      | next :: after =>
        if next = Token.closing then .ok (inner, after) else .error ⟨.unclosedBracket, next :: after⟩ := by
  unfold parseOperand parsePrefix
  rw [operandShorter]
  rw [if_neg (by decide), if_pos rfl]
  cases expressionShorter 0 rest with
  | error fault => rfl
  | ok result =>
    obtain ⟨⟨inner, after⟩, shorter⟩ := result
    cases after with
    | nil => rfl
    | cons next after =>
      by_cases hnext : next = Token.closing <;> simp [hnext, Except.map, Except.bind]

theorem parseOperand_stop {token : Token} (hkind : token.kind = .stop) (rest : List Token) :
    parseOperand (token :: rest) = .error ⟨.unexpectedEnd, token :: rest⟩ := by
  have hopening : token ≠ Token.opening := by rintro rfl; exact absurd hkind (by decide)
  simp [parseOperand, operandShorter, hkind, hopening, Except.map]

theorem parseOperand_operator {token : Token} (hkind : token.kind = .operator) (hopening : token ≠ Token.opening)
    (rest : List Token) : parseOperand (token :: rest) = .error ⟨.operandExpected token, token :: rest⟩ := by
  simp [parseOperand, operandShorter, hkind, hopening, Except.map]

theorem climb_nil (minimum : Nat) (left : Expr) : climb minimum left [] = .ok (left, []) := by
  simp [climb, climbNoLonger, Except.map]

theorem climb_ends {token : Token} (hends : ends token = true) (minimum : Nat) (left : Expr) (rest : List Token) :
    climb minimum left (token :: rest) = .ok (left, token :: rest) := by
  simp [climb, climbNoLonger, hends, Except.map]

theorem climb_atom {token : Token} (hkind : token.kind = .atom) (minimum : Nat) (left : Expr) (rest : List Token) :
    climb minimum left (token :: rest) = .error ⟨.operatorExpected token, token :: rest⟩ := by
  have hends : ends token = false := by
    rcases token with ⟨kind, lexeme⟩
    subst hkind
    simp [ends, Token.closing]
  simp [climb, climbNoLonger, hends, hkind, Except.map]

theorem climb_operator {token : Token} (hkind : token.kind = .operator) (hclosing : token ≠ Token.closing)
    (minimum : Nat) (left : Expr) (rest : List Token) :
    climb minimum left (token :: rest) = (binding token.lexeme (token :: rest)).bind fun powers =>
      if powers.left < minimum then .ok (left, token :: rest)
      else (parsePrefix powers.right rest).bind fun (right, after) =>
        climb minimum (.operation token.lexeme left right) after := by
  have hends : ends token = false := by simp [ends, hkind, hclosing]
  unfold climb parsePrefix
  rw [climbNoLonger]
  rw [if_neg (by simp [hends]), if_neg (by simp [hkind])]
  cases binding token.lexeme (token :: rest) with
  | error fault => rfl
  | ok powers =>
    dsimp only [Except.bind]
    split
    · rfl
    · cases expressionShorter powers.right rest with
      | error fault => rfl
      | ok result =>
        obtain ⟨⟨right, after⟩, shorter⟩ := result
        dsimp only [Except.map, Except.bind]
        cases climbNoLonger minimum (.operation token.lexeme left right) after <;> rfl

/-! ### Whole token lists -/

structure Parsed where
  tree : Expr
  trailing : List Token
deriving DecidableEq, Repr

def Fault.diagnostic (fault : Fault) (tokens : List Token) : Diagnostic :=
  ⟨fault.flaw, tokens, (tokens.length : Int) - fault.rest.length⟩

def parseTokens (tokens : List Token) : Except Diagnostic Parsed :=
  match parsePrefix 0 tokens with
  | .error fault => .error (fault.diagnostic tokens)
  | .ok (tree, trailing) => .ok ⟨tree, trailing⟩

def parse (text : String) : Except Diagnostic Parsed := parseTokens (Token.scan text)

end Reckoner.Parser
