import Reckoner.Proofs.Session.Entries

/-!
# Sessions as they happen

A session seen from outside, one step after another: texts go to the standard output, log entries to the standard error stream if logging is on when they come up, and in debug mode a line is first read for its tree and then once more to be executed. Whatever the order of these steps, the two streams end as the transcript of the session says.
-/

namespace Reckoner.Session

/-- What has been written to the two output streams, and the variables. -/
structure Streams where
  stdout : String
  stderr : String
  vars : Variables

namespace Streams

variable [Number.Library] {logging debug : Bool} {text : String} {s : Streams} {t first later : Transcript}

/-! ### Steps -/

def print (s : Streams) (text : String) : Streams := { s with stdout := s.stdout ++ text }

def log (logging : Bool) (s : Streams) (entry : LogEntry) : Streams :=
  if logging then { s with stderr := s.stderr ++ (entry.message ++ "\n") } else s

def read (logging : Bool) (s : Streams) (text : String) : Except Diagnostic Expr × Streams :=
  ((Reading.ofText text).outcome, (Reading.ofText text).log.foldl (log logging) s)

def execute (logging : Bool) (s : Streams) (text : String) : Except LineError (Option Number) × Streams :=
  match s.read logging text with
  | (.error d, s) => (.error (.diagnostic d), s)
  | (.ok tree, s) =>
    let line := Line.ofTree tree s.vars
    (line.result, line.log.foldl (log logging) { s with vars := line.vars })

def answer (logging : Bool) (s : Streams) (text : String) : Streams :=
  let (result, s) := s.execute logging text
  (printResult result).foldl print s

/-- Answers a line of code. In debug mode it is read beforehand and its tree printed; if that fails, the error is all the answer. -/
def runCode (logging debug : Bool) (s : Streams) (text : String) : Streams :=
  if debug then
    match s.read logging text with
    | (.error d, s) => s.print (d.message ++ "\n")
    | (.ok tree, s) => (s.print (tree.render ++ "\n")).answer logging text
  else s.answer logging text

def run (logging debug : Bool) (s : Streams) : List String → Streams
  | [] => s
  | text :: rest =>
    match kindOf text with
    | .exit => s
    | .blank => s.run logging debug rest
    | .code => (s.runCode logging debug text).run logging debug rest

/-! ### Steps and transcripts -/

def add (logging : Bool) (s : Streams) (t : Transcript) : Streams :=
  ⟨s.stdout ++ t.output, s.stderr ++ t.errors logging, t.vars⟩

theorem add_mk (texts : List String) (entries : List LogEntry) (vars : Variables) :
    s.add logging ⟨texts, entries, vars⟩ = ⟨s.stdout ++ String.join texts,
      s.stderr ++ if logging then String.join (entries.map fun entry => entry.message ++ "\n") else "", vars⟩ := rfl

theorem add_quiet : s.add logging (.quiet s.vars) = s := by
  cases logging <;> simp [Transcript.quiet, add_mk]

theorem add_append : s.add logging (first.append later) = (s.add logging first).add logging later := by
  cases logging <;> simp [add, Transcript.errors, String.append_assoc]

theorem print_eq (logging : Bool) : s.print text = s.add logging ⟨[text], [], s.vars⟩ := by
  cases logging <;> simp [print, add_mk]

theorem log_eq {entry : LogEntry} : s.log logging entry = s.add logging ⟨[], [entry], s.vars⟩ := by
  cases logging <;> simp [log, add_mk]

theorem foldl_print (logging : Bool) (texts : List String) :
    texts.foldl print s = s.add logging ⟨texts, [], s.vars⟩ := by
  induction texts generalizing s with
  | nil => exact add_quiet.symm
  | cons text rest ih =>
    rw [List.foldl_cons, ih, print_eq logging, ← add_append]
    rfl

theorem foldl_log (entries : List LogEntry) : entries.foldl (log logging) s = s.add logging ⟨[], entries, s.vars⟩ := by
  induction entries generalizing s with
  | nil => exact add_quiet.symm
  | cons entry rest ih =>
    rw [List.foldl_cons, ih, log_eq, ← add_append]
    rfl

theorem read_eq : s.read logging text =
    ((Reading.ofText text).outcome, s.add logging ⟨[], (Reading.ofText text).log, s.vars⟩) := by
  rw [read, foldl_log]

theorem execute_eq : s.execute logging text = ((Line.run text s.vars).result,
    s.add logging ⟨[], (Line.run text s.vars).log, (Line.run text s.vars).vars⟩) := by
  rw [execute, read_eq]
  cases hparse : Parser.parse text with
  | error d => rw [Line.run_of_error hparse, Reading.outcome_of_error hparse]
  | ok parsed =>
    obtain ⟨tree, rest⟩ := parsed
    rw [Line.run_of_ok hparse, Reading.outcome_of_ok hparse]
    dsimp only
    rw [foldl_log]
    cases logging <;> simp [add_mk, String.append_assoc]

theorem answer_eq : s.answer logging text = s.add logging (Session.runCode false text s.vars) := by
  rw [answer, execute_eq, runCode_false]
  dsimp only
  rw [foldl_print logging, ← add_append]
  simp [Transcript.append, add_mk]

theorem runCode_eq : s.runCode logging debug text = s.add logging (Session.runCode debug text s.vars) := by
  cases debug with
  | false => exact answer_eq
  | true =>
    rw [runCode, if_pos rfl, read_eq, runCode_true, debugPreface]
    cases hparse : Parser.parse text with
    | error d =>
      rw [Reading.outcome_of_error hparse, runCode_false, Line.run_of_error hparse]
      dsimp only
      rw [print_eq logging, ← add_append]
      simp [Transcript.append, add_mk, printResult, LineError.message]
    | ok parsed =>
      obtain ⟨tree, rest⟩ := parsed
      rw [Reading.outcome_of_ok hparse]
      dsimp only
      rw [answer_eq, print_eq logging, ← add_append, ← add_append]
      rfl

/-- While a session runs, its streams are written as its transcript says. -/
theorem run_eq (lines : List String) : s.run logging debug lines = s.add logging (Session.run none debug lines s.vars) := by
  induction lines generalizing s with
  | nil => exact add_quiet.symm
  | cons text rest ih =>
    rw [run]
    cases hkind : kindOf text with
    | exit => rw [run_exit hkind, add_quiet]
    | blank => rw [run_cons (by simp [hkind]), entry_blank hkind, Transcript.quiet_append, Transcript.quiet_vars, ih]
    | code =>
      dsimp only
      rw [run_cons (by simp [hkind]), entry_code hkind, add_append, ih, runCode_eq]
      rfl

end Streams

end Reckoner.Session
