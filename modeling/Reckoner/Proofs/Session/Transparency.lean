import Reckoner.Proofs.Session.Streams
import Mathlib.Data.List.Forall2

/-!
# Debug mode and the log are transparent

Neither the log nor debug mode changes what a session computes. The log only decides what the standard error stream gets. Debug mode puts the tree of each line that parses in front of what the line prints, and the log of its reading in front of what it logs; a line that does not parse is read once in either mode. All this is said of single lines first and then of sessions entry by entry.
-/

namespace Reckoner.Session

open Transcript

variable {text : String} {lines : List String} {vars : Variables}

/-! ### Single lines -/

/-- The tree of a line of code that parses, and nothing for other lines. -/
def treeText (text : String) : String :=
  match kindOf text, Parser.parse text with
  | .code, .ok ⟨tree, _⟩ => tree.render ++ "\n"
  | _, _ => ""

def treeLog (text : String) : List LogEntry :=
  match kindOf text, Parser.parse text with
  | .code, .ok ⟨tree, rest⟩ => Reading.block text tree rest
  | _, _ => []

theorem treeText_of_error {d : Diagnostic} (h : Parser.parse text = .error d) : treeText text = "" := by
  rw [treeText, h]
  cases kindOf text <;> rfl

theorem treeLog_of_error {d : Diagnostic} (h : Parser.parse text = .error d) : treeLog text = [] := by
  rw [treeLog, h]
  cases kindOf text <;> rfl

theorem treeText_of_kind (h : kindOf text ≠ .code) : treeText text = "" := by
  cases hkind : kindOf text with
  | code => exact absurd hkind h
  | exit => rw [treeText, hkind]
  | blank => rw [treeText, hkind]

theorem treeLog_of_kind (h : kindOf text ≠ .code) : treeLog text = [] := by
  cases hkind : kindOf text with
  | code => exact absurd hkind h
  | exit => rw [treeLog, hkind]
  | blank => rw [treeLog, hkind]

section

variable [Number.Library]

/-- Debug mode adds the tree and the log of its reading in front of a line. -/
theorem entry_true (text : String) (vars : Variables) :
    (entry true text vars).output = treeText text ++ (entry false text vars).output ∧
      (entry true text vars).log = treeLog text ++ (entry false text vars).log ∧
      (entry true text vars).vars = (entry false text vars).vars := by
  by_cases hkind : kindOf text = .code
  · rw [entry_code hkind, entry_code hkind, runCode_true, debugPreface, output_append, append_log, append_vars]
    cases hparse : Parser.parse text with
    | error d =>
      rw [Reading.outcome_of_error hparse, treeText_of_error hparse, treeLog_of_error hparse]
      exact ⟨by simp [output], by simp, rfl⟩
    | ok parsed =>
      obtain ⟨tree, rest⟩ := parsed
      rw [Reading.outcome_of_ok hparse, Reading.log_of_ok hparse, treeText, treeLog, hkind, hparse]
      exact ⟨by simp [output], rfl, rfl⟩
  · rw [treeText_of_kind hkind, treeLog_of_kind hkind, entry_of_ne_code hkind, entry_of_ne_code hkind]
    exact ⟨by simp, by simp, rfl⟩

end

/-- What a line logs without debug mode: the entries about its reading, and perhaps one about an assignment. -/
inductive Logs (text : String) : List LogEntry → Prop
  | blank : kindOf text = .blank → Logs text []
  | unread {d : Diagnostic} : kindOf text = .code → Parser.parse text = .error d →
    Logs text [.tokenized text (Token.scan text)]
  | read {tree : Expr} {rest : List Token} {assigned : List LogEntry} : kindOf text = .code →
    Parser.parse text = .ok ⟨tree, rest⟩ → assigned = [] ∨ (∃ name value, assigned = [.assigned name value]) →
    Logs text (Reading.block text tree rest ++ assigned)

theorem Logs.unassigned {tree : Expr} {rest : List Token} (hkind : kindOf text = .code)
    (hparse : Parser.parse text = .ok ⟨tree, rest⟩) : Logs text (Reading.block text tree rest) := by
  have h := Logs.read hkind hparse (.inl rfl)
  rwa [List.append_nil] at h

theorem logs_entry [Number.Library] (h : kindOf text ≠ .exit) : Logs text (entry false text vars).log := by
  cases hkind : kindOf text with
  | exit => exact absurd hkind h
  | blank =>
    rw [entry_blank hkind]
    exact .blank hkind
  | code =>
    rw [entry_code hkind, runCode_false]
    have hends := Line.run_ends text vars
    generalize Line.run text vars = line at hends
    cases hends with
    | unread hparse =>
      dsimp only
      rw [Reading.log_of_error hparse]
      exact .unread hkind hparse
    | untargeted _ hparse =>
      dsimp only
      rw [Reading.log_of_ok hparse]
      exact .unassigned hkind hparse
    | failed hparse _ =>
      dsimp only
      rw [Reading.log_of_ok hparse]
      exact .unassigned hkind hparse
    | evaluated hparse _ _ =>
      dsimp only
      rw [Reading.log_of_ok hparse]
      exact .unassigned hkind hparse
    | assigned hparse _ =>
      dsimp only
      rw [Reading.log_of_ok hparse]
      exact .read hkind hparse (.inr ⟨_, _, rfl⟩)

/-! ### Whole sessions -/

/-- The lines of a session up to the exit line. -/
def live (lines : List String) : List String := lines.takeWhile fun text => kindOf text ≠ .exit

theorem live_exit {rest : List String} (h : kindOf text = .exit) : live (text :: rest) = [] := by
  simp [live, h]

theorem live_cons {rest : List String} (h : kindOf text ≠ .exit) : live (text :: rest) = text :: live rest := by
  simp [live, h]

section

variable [Number.Library]

theorem vars_run_true (lines : List String) (vars : Variables) :
    (run none true lines vars).vars = (run none false lines vars).vars := by
  induction lines generalizing vars with
  | nil => rfl
  | cons text rest ih =>
    by_cases hexit : kindOf text = .exit
    · rw [run_exit hexit, run_exit hexit]
    · rw [vars_run_cons hexit, vars_run_cons hexit, (entry_true text vars).2.2, ih]

theorem entries_true (lines : List String) (vars : Variables) :
    (entries true lines vars).map output =
        List.zipWith (fun text plain => treeText text ++ plain.output) (live lines) (entries false lines vars) ∧
      (entries true lines vars).map Transcript.log =
        List.zipWith (fun text plain => treeLog text ++ plain.log) (live lines) (entries false lines vars) := by
  induction lines generalizing vars with
  | nil => exact ⟨rfl, rfl⟩
  | cons text rest ih =>
    by_cases hexit : kindOf text = .exit
    · rw [entries_exit hexit, entries_exit hexit, live_exit hexit]
      exact ⟨rfl, rfl⟩
    · obtain ⟨houtput, hlog, hvars⟩ := entry_true text vars
      obtain ⟨houtputs, hlogs⟩ := ih (entry false text vars).vars
      rw [entries_cons hexit, entries_cons hexit, live_cons hexit, hvars]
      simp only [List.map_cons, List.zipWith_cons_cons, houtput, hlog, houtputs, hlogs]
      exact ⟨trivial, trivial⟩

theorem logs_entries (lines : List String) (vars : Variables) :
    List.Forall₂ (fun text plain => Logs text plain.log) (live lines) (entries false lines vars) := by
  induction lines generalizing vars with
  | nil => exact .nil
  | cons text rest ih =>
    by_cases hexit : kindOf text = .exit
    · rw [entries_exit hexit, live_exit hexit]
      exact .nil
    · rw [entries_cons hexit, live_cons hexit]
      exact .cons (logs_entry hexit) (ih _)

/-- What a session prints and stores does not depend on the log, which writes nothing while it is off. Debug mode does not change the variables, and it prints the tree of each line that parses, and logs the reading of it, once more in front of what the line prints and logs anyway. -/
theorem run_transparent (lines : List String) (vars : Variables) :
    (∀ logging debug, Streams.run logging debug ⟨"", "", vars⟩ lines =
      ⟨(run none debug lines vars).output, if logging then (run none debug lines vars).logText else "",
        (run none debug lines vars).vars⟩) ∧
    (run none true lines vars).vars = (run none false lines vars).vars ∧
    ((run none false lines vars).output = String.join ((entries false lines vars).map output) ∧
      (run none true lines vars).output = String.join
        (List.zipWith (fun text plain => treeText text ++ plain.output) (live lines) (entries false lines vars))) ∧
    ((run none false lines vars).log = ((entries false lines vars).map Transcript.log).flatten ∧
      (run none true lines vars).log = List.flatten
        (List.zipWith (fun text plain => treeLog text ++ plain.log) (live lines) (entries false lines vars)) ∧
      List.Forall₂ (fun text plain => Logs text plain.log) (live lines) (entries false lines vars)) := by
  obtain ⟨houtputs, hlogs⟩ := entries_true lines vars
  obtain ⟨hplainOutput, hplainLog⟩ := run_eq_foldr_entries false lines vars
  obtain ⟨hdebugOutput, hdebugLog⟩ := run_eq_foldr_entries true lines vars
  refine ⟨?_, vars_run_true lines vars, ⟨hplainOutput, ?_⟩, ?_, ?_, logs_entries lines vars⟩
  · intro logging debug
    rw [Streams.run_eq]
    simp [Streams.add, Transcript.errors]
  · rw [hdebugOutput, houtputs]
  · rw [hplainLog, List.flatMap_def]
  · rw [hdebugLog, List.flatMap_def, hlogs]

end

end Reckoner.Session
