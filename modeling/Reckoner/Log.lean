import Reckoner.Evaluation
import Reckoner.Expr.Parser

/-!
# The log

What the calculator reports about its work: the tokens of a line, what was left over after the expression, the tree, and each number assigned. A line that does not parse is only reported as tokens.
-/

namespace Reckoner

inductive LogEntry where
  | tokenized (text : String) (tokens : List Token)
  | ignored (trailing : Nat) (text : String)
  | parsed (text : String) (tree : Expr)
  | assigned (name : String) (value : Number)
deriving DecidableEq

def LogEntry.message [Number.Library] : LogEntry → String
  | tokenized text tokens => "Tokenized " ++ Text.quoted text ++ " into " ++ Token.renderAll tokens
  | ignored trailing text => "Ignoring " ++ toString trailing ++ " trailing token(s) in " ++ Text.quoted text
  | parsed text tree => "Parsed " ++ Text.quoted text ++ " as " ++ tree.render
  | assigned name value => "Assigned " ++ name ++ " = " ++ Number.Library.display value

/-- The outcome of parsing a text, and what the log says about it. -/
structure Reading where
  outcome : Except Diagnostic Expr
  log : List LogEntry

def Reading.ofTokens (tokens : List Token) : Reading :=
  match Parser.parseTokens tokens with
  | .error diagnostic => ⟨.error diagnostic, []⟩
  | .ok ⟨tree, trailing⟩ =>
    let plain := Token.spell tokens
    let leftOver := if trailing = [] then [] else [LogEntry.ignored trailing.length plain]
    ⟨.ok tree, leftOver ++ [.parsed plain tree]⟩

def Reading.ofText (text : String) : Reading :=
  let tokens := Token.scan text
  let reading := ofTokens tokens
  { reading with log := .tokenized text tokens :: reading.log }

end Reckoner
