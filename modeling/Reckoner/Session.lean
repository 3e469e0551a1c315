import Reckoner.Line
import Reckoner.Text.Blank

/-!
# Sessions

A session runs lines one after another under variables that start empty or as given, prints each value or error, and goes on after an error. Blank lines are skipped, and a line that says `exit` ends the session. A session may show a prompt before it takes each line, also before it finds that there is none left. In debug mode the tree of each line that parses is printed before its result; the line is then read twice, which the log shows.
-/

namespace Reckoner.Session

variable [Number.Library]

/-- What a session, or a part of one, has printed, logged and left in the variables. Printed pieces bring their own line ends. -/
structure Transcript where
  printed : List String
  log : List LogEntry
  vars : Variables

namespace Transcript

def output (t : Transcript) : String := String.join t.printed

def logText (t : Transcript) : String := String.join (t.log.map fun entry => entry.message ++ "\n")

/-- What goes to the standard error stream: the log while logging is on, else nothing. -/
def errors (logging : Bool) (t : Transcript) : String := if logging then t.logText else ""

def append (first later : Transcript) : Transcript :=
  ⟨first.printed ++ later.printed, first.log ++ later.log, later.vars⟩

end Transcript

inductive LineKind where
  | exit
  | blank
  | code
deriving DecidableEq, Repr

def kindOf (text : String) : LineKind :=
  let stripped := Text.strip text
  if stripped = "exit" then .exit else if stripped = "" then .blank else .code

/-- What is printed for the result of a line: nothing for an assignment. -/
def printResult : Except LineError (Option Number) → List String
  | .error e => [e.message ++ "\n"]
  | .ok none => []
  | .ok (some value) => [value.write ++ "\n"]

/-- What debug mode adds in front of a line: the tree and the log of a first reading. A line that does not parse fails in that reading and has no second one. -/
def debugPreface (reading : Reading) (vars : Variables) : Transcript :=
  match reading.outcome with
  | .error _ => ⟨[], [], vars⟩
  | .ok tree => ⟨[tree.render ++ "\n"], reading.log, vars⟩

def runCode (debug : Bool) (text : String) (vars : Variables) : Transcript :=
  let reading := Reading.ofText text
  let line := Line.ofReading reading vars
  let plain : Transcript := ⟨printResult line.result, line.log, line.vars⟩
  if debug then (debugPreface reading vars).append plain else plain

/-- A session over the given lines, with a prompt before each if there is one. -/
def run (prompt? : Option String) (debug : Bool) : List String → Variables → Transcript
  | [], vars => ⟨prompt?.toList, [], vars⟩
  | text :: rest, vars =>
    let prompted : Transcript := ⟨prompt?.toList, [], vars⟩
    match kindOf text with
    | .exit => prompted
    | .blank => prompted.append (run prompt? debug rest vars)
    | .code =>
      let first := runCode debug text vars
      prompted.append (first.append (run prompt? debug rest first.vars))

/-- The lines of a text, which end at line feeds. The last one may do without. -/
def splitLines : List Char → List (List Char)
  | [] => []
  | c :: rest =>
    if c = '\n' then [] :: splitLines rest
    else
      match splitLines rest with
      | [] => [[c]]
      | line :: later => (c :: line) :: later

def inputLines (input : String) : List String := (splitLines input.toList).map String.ofList

end Reckoner.Session
