import Reckoner.Text.DecimalDigit
import Reckoner.Text.Quoted

/-!
# Command-line arguments

What a single argument is, looked at by itself: an option with or without text attached to it, an option nobody knows, the divider `--`, or a plain word. Options have a short and a long name; a long name may be cut short as long as only one option fits, and has text attached after an equals sign, a short name with or without one.
-/

namespace Reckoner.CommandLine

inductive Flag where
  | help
  | prompt
  | debug
  | expression
deriving DecidableEq, Repr

namespace Flag

/-- The options, in the order in which messages list them. -/
def all : List Flag := [help, prompt, debug, expression]

def letter : Flag → Char
  | help => 'h'
  | prompt => 'p'
  | debug => 'd'
  | expression => 'e'

def word : Flag → String
  | help => "help"
  | prompt => "prompt"
  | debug => "debug"
  | expression => "expression"

def takesValue : Flag → Bool
  | help | debug => false
  | prompt | expression => true

def render (flag : Flag) : String := "-" ++ String.singleton flag.letter ++ "/--" ++ flag.word

def ofLetter? (c : Char) : Option Flag := all.find? fun flag => flag.letter == c

def ofWord? (cs : List Char) : Option Flag := all.find? fun flag => flag.word.toList == cs

end Flag

inductive Spelling where
  | short
  | long
deriving DecidableEq, Repr

inductive Argument where
  | word (text : String)
  | divider
  | unknown (text : String)
  /-- An option, and the text attached to its name if there is any, without an equals sign in between. -/
  | option (flag : Flag) (spelling : Spelling) (attached : Option (List Char))
deriving DecidableEq, Repr

inductive UsageError where
  | ambiguous (argument : String) (candidates : List Flag)
  | valueExpected (flag : Flag)
  | valueIgnored (flag : Flag) (value : String)
  | unrecognized (arguments : List String)
deriving DecidableEq, Repr

def UsageError.message : UsageError → String
  | ambiguous argument candidates =>
    "ambiguous option: " ++ argument ++ " could match " ++ ", ".intercalate (candidates.map fun flag => "--" ++ flag.word)
  | valueExpected flag => "argument " ++ flag.render ++ ": expected one argument"
  | valueIgnored flag value => "argument " ++ flag.render ++ ": ignored explicit argument " ++ Text.quoted value
  | unrecognized arguments => "unrecognized arguments: " ++ " ".intercalate arguments

namespace Argument

def cutEquals (cs : List Char) : List Char × Option (List Char) :=
  match cs.dropWhile (· != '=') with
  | [] => (cs, none)
  | _ :: value => (cs.takeWhile (· != '='), some value)

def isDigit (c : Char) : Bool := (Text.digitValue? c).isSome

/-- Digits with an optional point among or before them, after the minus sign. Such an argument is a word. A line feed at the end does not count. -/
def isNumber (cs : List Char) : Bool :=
  let body := if cs.getLast? = some '\n' then cs.dropLast else cs
  match body.dropWhile isDigit with
  | [] => body != []
  | c :: fraction => c == '.' && fraction != [] && fraction.all isDigit

def ofStray (text : String) (afterMinus : List Char) : Argument :=
  if isNumber afterMinus || afterMinus.contains ' ' then word text else unknown text

def ofLong (text : String) (body : List Char) : Except UsageError Argument :=
  let (name, attached) := cutEquals body
  match Flag.ofWord? name with
  | some flag => .ok (option flag .long attached)
  | none =>
    match Flag.all.filter fun flag => name.isPrefixOf flag.word.toList with
    | [] => .ok (ofStray text ('-' :: body))
    | [flag] => .ok (option flag .long attached)
    | candidates => .error (.ambiguous text candidates)

def ofShort (text : String) (letter : Char) (rest : List Char) : Argument :=
  match Flag.ofLetter? letter with
  | none => ofStray text (letter :: rest)
  | some flag =>
    match rest with
    | [] => option flag .short none
    | '=' :: attached => option flag .short (some attached)
    | attached => option flag .short (some attached)

def ofText (text : String) : Except UsageError Argument :=
  match text.toList with
  | '-' :: '-' :: body => if body = [] then .ok divider else ofLong text body
  | '-' :: letter :: rest => .ok (ofShort text letter rest)
  | _ => .ok (word text)

/-- What the arguments are. Everything behind the first divider is a word. -/
def ofTexts : List String → Except UsageError (List Argument)
  | [] => .ok []
  | text :: rest => do
    match ← ofText text with
    | divider => .ok (divider :: rest.map word)
    | argument => .ok (argument :: (← ofTexts rest))

end Argument

end Reckoner.CommandLine
