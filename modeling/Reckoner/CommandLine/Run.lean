import Reckoner.CommandLine.Options
import Reckoner.Session

/-!
# Running a command line

The lines of a session come from the command line, or else from the standard input with a prompt before each. The log is written to the standard error stream in debug mode only. A command line that makes no sense is answered there with its usage. An expression that has no text cannot be run: a session that comes to one breaks off there.
-/

namespace Reckoner.CommandLine

def usage : String := "usage: pratt-calc [-h] [-p PROMPT] [-d] [-e EXPRESSION]\n"

def helpText : String :=
  usage ++
  "\n" ++
  "Interactive calculator with variables\n" ++
  "\n" ++
  "options:\n" ++
  "  -h, --help            show this help message and exit\n" ++
  "  -p PROMPT, --prompt PROMPT\n" ++
  "                        input prompt (default='>> ')\n" ++
  "  -d, --debug           log tokens and print the parsed tree of each line\n" ++
  "  -e EXPRESSION, --expression EXPRESSION\n" ++
  "                        evaluate the line and exit instead of reading stdin,\n" ++
  "                        may be repeated\n"

inductive Ending where
  | exit (code : Nat)
  /-- The session came to an expression without a text. -/
  | brokenOff
deriving DecidableEq, Repr

/-- What a run of the program writes, and how it ends. -/
structure Outcome where
  stdout : String
  stderr : String
  ending : Ending
deriving DecidableEq, Repr

def Outcome.ofUsageError (e : UsageError) : Outcome :=
  ⟨"", usage ++ "pratt-calc: error: " ++ e.message ++ "\n", .exit 2⟩

namespace Options

/-- The texts of the expressions in front of the first that has none. -/
def lines (options : Options) : List String := (options.expressions.takeWhile Option.isSome).filterMap id

/-- A session over the expressions breaks off at the first without a text, unless a line before it says `exit`. -/
def ending (options : Options) : Ending :=
  if none ∈ options.expressions ∧ ∀ text ∈ options.lines, Session.kindOf text ≠ .exit then .brokenOff else .exit 0

end Options

variable [Number.Library]

def session (options : Options) (input : String) : Session.Transcript :=
  if options.expressions = [] then Session.run (some options.prompt) options.debug (Session.inputLines input) ∅
  else Session.run none options.debug options.lines ∅

def run (arguments : List String) (input : String) : Outcome :=
  match request arguments with
  | .error e => .ofUsageError e
  | .ok .help => ⟨helpText, "", .exit 0⟩
  | .ok (.session options) =>
    let transcript := session options input
    ⟨transcript.output, transcript.errors options.debug, options.ending⟩

end Reckoner.CommandLine
