import Reckoner.Text.Quoted
import Reckoner.Token

/-!
# Diagnostics

What can be wrong with a token list, and the three lines that say so: the flaw, the tokens written without spacing, and a caret under the place. The caret stands after as many spaces as the lexemes before that place have characters, so it points at the right character whatever the lexemes are.
-/

namespace Reckoner

inductive Flaw where
  | unexpectedEnd
  | operandExpected (found : Token)
  | operatorExpected (found : Token)
  | unknownOperator (lexeme : String)
  | unclosedBracket
deriving DecidableEq, Repr

def Flaw.message : Flaw → String
  | unexpectedEnd => "Unexpected end of expression"
  | operandExpected found => "Operand expected, found " ++ found.kind.name ++ " " ++ Text.quoted found.lexeme
  | operatorExpected found => "Operator expected, found " ++ found.kind.name ++ " " ++ Text.quoted found.lexeme
  | unknownOperator lexeme => "Unknown operator " ++ Text.quoted lexeme
  | unclosedBracket => "Unclosed bracket, ')' expected"

namespace Diagnostic

/-- The tokens before an index. An index below zero counts from the end, and one beyond either end is moved to it. -/
def before (tokens : List Token) (index : Int) : List Token :=
  tokens.take (if index < 0 then (tokens.length + index).toNat else index.toNat)

def caretLine (tokens : List Token) (index : Int) : String :=
  String.ofList (List.replicate (Token.spell (before tokens index)).length ' ') ++ "^"

def render (headline : String) (tokens : List Token) (index : Int) : String :=
  "Parser error: " ++ headline ++ "\n" ++ Token.spell tokens ++ "\n" ++ caretLine tokens index

end Diagnostic

structure Diagnostic where
  flaw : Flaw
  tokens : List Token
  index : Int
deriving DecidableEq, Repr

def Diagnostic.message (d : Diagnostic) : String := Diagnostic.render d.flaw.message d.tokens d.index

end Reckoner
