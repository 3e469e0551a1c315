import Reckoner.Log

/-!
# Lines

One line of input is an assignment or an expression to evaluate. The variables change only when an assignment is complete, and then only at its name; a line that fails anywhere leaves them as they are.
-/

namespace Reckoner

inductive LineError where
  | diagnostic (d : Diagnostic)
  | runtime (e : RuntimeError)
deriving DecidableEq, Repr

def LineError.message : LineError → String
  | diagnostic d => d.message
  | runtime e => e.message

/-- What became of a line: a value, nothing if it was an assignment, or an error. -/
structure Line where
  result : Except LineError (Option Number)
  vars : Variables
  log : List LogEntry

namespace Line

variable [Number.Library]

def ofTree (tree : Expr) (vars : Variables) : Line :=
  match tree.assignment? with
  | .error e => ⟨.error (.runtime e), vars, []⟩
  | .ok (some (name, right)) =>
    match right.evaluate vars with
    | .error e => ⟨.error (.runtime e), vars, []⟩
    | .ok value => ⟨.ok none, vars.insert name value, [.assigned name value]⟩
  | .ok none =>
    match tree.evaluate vars with
    | .error e => ⟨.error (.runtime e), vars, []⟩
    | .ok value => ⟨.ok (some value), vars, []⟩

def ofReading (reading : Reading) (vars : Variables) : Line :=
  match reading.outcome with
  | .error d => ⟨.error (.diagnostic d), vars, reading.log⟩
  | .ok tree =>
    let line := ofTree tree vars
    { line with log := reading.log ++ line.log }

def run (text : String) (vars : Variables) : Line := ofReading (.ofText text) vars

/-- The results of several lines, each run under the variables the one before left. -/
def runAll : List String → Variables → List Line
  | [], _ => []
  | text :: rest, vars =>
    let line := run text vars
    line :: runAll rest line.vars

end Line

end Reckoner
