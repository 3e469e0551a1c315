/-!
# Tokens

A line of input is cut into one token per character. Letters and digits are atom characters, all else is an operator character, and five spacing characters are dropped, wherever they stand. Longer names and numbers arise only in the parser, which glues neighbouring atom characters. Tokens built by other means may carry any lexeme and may be stop tokens.
-/

namespace Reckoner

inductive Token.Kind where
  | atom
  | operator
  | stop
deriving DecidableEq, Repr

def Token.Kind.name : Token.Kind → String
  | .atom => "ATOM"
  | .operator => "OPERATOR"
  | .stop => "END"

structure Token where
  kind : Token.Kind
  lexeme : String
deriving DecidableEq, Repr

namespace Token

def opening : Token := ⟨.operator, "("⟩

def closing : Token := ⟨.operator, ")"⟩

/-- The token a cursor shows once its list is used up. -/
def sentinel : Token := ⟨.stop, ""⟩

def render (token : Token) : String := "<" ++ token.kind.name ++ ">" ++ token.lexeme

def renderAll (tokens : List Token) : String := " ".intercalate (tokens.map render)

/-- The characters that separate nothing and mean nothing: they are dropped before any token is made. -/
def isSpacing (c : Char) : Bool := c == ' ' || c == '\t' || c == '\n' || c == '\r' || c == '\x0c'

/-- The token of a character: only ASCII letters and digits are atom characters. -/
def ofChar (c : Char) : Token := ⟨if c.isAlphanum then .atom else .operator, String.singleton c⟩

/-- The tokens of a text, one for each character that is not spacing. -/
def scan (text : String) : List Token := (text.toList.filter fun c => !isSpacing c).map ofChar

/-- The lexemes of the tokens, written without anything between them. -/
def spell (tokens : List Token) : String := String.join (tokens.map lexeme)

theorem toList_spell (tokens : List Token) : (spell tokens).toList = tokens.flatMap fun token => token.lexeme.toList := by
  simp [spell, List.flatMap_map]

end Token

end Reckoner
