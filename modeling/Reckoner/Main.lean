import Reckoner.CommandLine.Run
import Reckoner.Number.Computed

/-!
# The program

The command line reads lines as they come and answers each before it takes the next. What it writes is what `CommandLine.run` writes for the whole input at once.
-/

namespace Reckoner

def emit (debug : Bool) (t : Session.Transcript) : IO Unit := do
  let stdout ← IO.getStdout
  stdout.putStr t.output
  stdout.flush
  (← IO.getStderr).putStr (t.errors debug)

def exitCode : CommandLine.Ending → UInt32
  | .exit code => UInt32.ofNat code
  | .brokenOff => 1

partial def converse (options : CommandLine.Options) (vars : Variables) : IO Unit := do
  let stdout ← IO.getStdout
  stdout.putStr options.prompt
  stdout.flush
  let line ← (← IO.getStdin).getLine
  match (Session.inputLines line).head? with
  | none => return
  | some text =>
    match Session.kindOf text with
    | .exit => return
    | .blank => converse options vars
    | .code =>
      let transcript := Session.runCode options.debug text vars
      emit options.debug transcript
      converse options transcript.vars

end Reckoner

open Reckoner in
def main (arguments : List String) : IO UInt32 := do
  match CommandLine.request arguments with
  | .ok (.session options) =>
    if options.expressions = [] then converse options ∅
    else emit options.debug (CommandLine.session options "")
    return exitCode options.ending
  | _ =>
    let outcome := CommandLine.run arguments ""
    (← IO.getStdout).putStr outcome.stdout
    (← IO.getStderr).putStr outcome.stderr
    return exitCode outcome.ending
