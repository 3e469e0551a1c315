import Reckoner.CommandLine.Argument

/-!
# Options

What the arguments of the command line ask for. Short options may share one argument: behind one that takes no value each letter names a further option, and the first that takes one gets the rest of the argument, or else the next argument, as its value. A request for help is granted as soon as it is met. Words that belong to no option, and options nobody knows, are collected and refused at the end.
-/

namespace Reckoner.CommandLine

structure Options where
  prompt : String := ">> "
  debug : Bool := false
  /-- The expressions to run, `none` for one that has no text. -/
  expressions : List (Option String) := []
deriving DecidableEq, Repr

inductive Request where
  | help
  | session (options : Options)
deriving DecidableEq, Repr

inductive GroupEnd where
  | complete
  /-- The last option still needs its value, which is the next argument. -/
  | wanting (flag : Flag)
  | valued (flag : Flag) (value : String)
deriving DecidableEq, Repr

/-- The options in one argument: those without a value, and how the argument ends. -/
structure Group where
  plain : List Flag
  last : GroupEnd
deriving DecidableEq, Repr

namespace Group

def cons (flag : Flag) (group : Group) : Group := ⟨flag :: group.plain, group.last⟩

def bare (flag : Flag) : Group := if flag.takesValue then ⟨[], .wanting flag⟩ else ⟨[flag], .complete⟩

/-- An option with a text that can only be its value. -/
def withValue (flag : Flag) (value : List Char) : Except UsageError Group :=
  if flag.takesValue then .ok ⟨[], .valued flag (String.ofList value)⟩
  else .error (.valueIgnored flag (String.ofList value))

/-- A short option and the characters behind it. Behind an option without a value each is the letter of a further option. -/
def ofLetters (flag : Flag) : List Char → Except UsageError Group
  | [] => .ok (bare flag)
  | c :: rest =>
    match flag.takesValue, Flag.ofLetter? c with
    | false, some next => (ofLetters next rest).map (cons flag)
    | _, _ => withValue flag (c :: rest)

/-- The options of an argument that begins with one. Letters can only follow a short name, and nothing behind an equals sign is an empty value. -/
def ofOption (flag : Flag) : Spelling → Option (List Char) → Except UsageError Group
  | _, none => .ok (bare flag)
  | .short, some (c :: rest) => ofLetters flag (c :: rest)
  | _, some value => withValue flag value

end Group

namespace Options

/-- The text of a value. Two minus signs stand for no value. -/
def textOf? (value : String) : Option String := if value = "--" then none else some value

/-- The prompt that is shown. No value is shown as an empty list. -/
def promptOf (value : String) : String := (textOf? value).getD "[]"

/-- The options with one more value. The last prompt counts, and every expression. -/
def put (options : Options) (flag : Flag) (value : String) : Options :=
  match flag with
  | .prompt => { options with prompt := promptOf value }
  | .expression => { options with expressions := options.expressions ++ [textOf? value] }
  | .help | .debug => options

/-- The options with those flags of a group that take no value, or nothing if help was asked for. -/
def raise? (options : Options) (flags : List Flag) : Option Options :=
  if .help ∈ flags then none
  else some (if .debug ∈ flags then { options with debug := true } else options)

end Options

/-- What the arguments ask for, given the options so far and the refused arguments so far. -/
def requestFrom (options : Options) (refused : List String) : List Argument → Except UsageError Request
  | [] => if refused = [] then .ok (.session options) else .error (.unrecognized refused)
  | .word text :: rest => requestFrom options (refused ++ [text]) rest
  | .divider :: rest => requestFrom options (refused ++ ["--"]) rest
  | .unknown text :: rest => requestFrom options (refused ++ [text]) rest
  | .option flag spelling attached :: rest =>
    match Group.ofOption flag spelling attached with
    | .error e => .error e
    | .ok group =>
      match group.last, rest with
      | .wanting last, .word value :: rest =>
        match options.raise? group.plain with
        | none => .ok .help
        | some options => requestFrom (options.put last value) refused rest
      | .wanting last, _ => .error (.valueExpected last)
      | .complete, rest =>
        match options.raise? group.plain with
        | none => .ok .help
        | some options => requestFrom options refused rest
      | .valued last value, rest =>
        match options.raise? group.plain with
        | none => .ok .help
        | some options => requestFrom (options.put last value) refused rest

def request (arguments : List String) : Except UsageError Request :=
  (Argument.ofTexts arguments).bind (requestFrom {} [])

end Reckoner.CommandLine
