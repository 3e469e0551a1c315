import Reckoner.Proofs.Evaluation.Lines
import Reckoner.Session

/-!
# Sessions line by line

A session is a list of entries, one for each line before the first that says `exit`: what the line prints and logs, and the variables after it. An entry depends on the lines before it through the variables only. The equations of `run` and `entries` are all that the theory of sessions uses of their definitions.
-/

namespace Reckoner.Session

variable {prompt? : Option String} {debug : Bool} {text : String} {first later lines rest : List String}
  {vars : Variables}

/-! ### Transcripts -/

namespace Transcript

variable {t first later : Transcript}

def quiet (vars : Variables) : Transcript := ⟨[], [], vars⟩

@[simp] theorem quiet_vars : (quiet vars).vars = vars := rfl

@[simp] theorem quiet_append : (quiet vars).append t = t := rfl

@[simp] theorem append_vars : (first.append later).vars = later.vars := rfl

@[simp] theorem append_log : (first.append later).log = first.log ++ later.log := rfl

theorem append_assoc {last : Transcript} : (first.append later).append last = first.append (later.append last) := by
  simp [append]

@[simp] theorem output_append : (first.append later).output = first.output ++ later.output := String.join_append

@[simp] theorem logText_append [Number.Library] : (first.append later).logText = first.logText ++ later.logText := by
  simp [logText, append]

end Transcript

open Transcript

/-! ### Lines of code -/

/-- Trimming takes nothing but spacing from a text that has no other blank characters. -/
theorem filter_strip (hkept : ∀ c ∈ text.toList, Token.isSpacing c = false → Text.isBlank c = false) :
    (Text.strip text).toList.filter (fun c => !Token.isSpacing c) =
      text.toList.filter (fun c => !Token.isSpacing c) := by
  obtain ⟨before, after, hparts, hbefore, hafter⟩ := Text.exists_trimBy Text.isBlank text.toList
  have hspacing : ∀ c ∈ text.toList, Text.isBlank c = true → Token.isSpacing c = true := by
    intro c hmem hblank
    cases hcase : Token.isSpacing c with
    | true => rfl
    | false =>
      rw [hkept c hmem hcase] at hblank
      cases hblank
  have hbeforeNone : before.filter (fun c => !Token.isSpacing c) = [] := List.filter_eq_nil_iff.mpr fun c hc => by
    simp [hspacing c (by rw [hparts]; simp [hc]) (hbefore c hc)]
  have hafterNone : after.filter (fun c => !Token.isSpacing c) = [] := List.filter_eq_nil_iff.mpr fun c hc => by
    simp [hspacing c (by rw [hparts]; simp [hc]) (hafter c hc)]
  rw [Text.strip, String.toList_ofList]
  generalize Text.trimBy Text.isBlank text.toList = inner at hparts ⊢
  rw [hparts, List.filter_append, List.filter_append, hbeforeNone, hafterNone, List.nil_append, List.append_nil]

theorem kindOf_code (hkept : ∀ c ∈ text.toList, Token.isSpacing c = false → Text.isBlank c = false)
    (hne : text.toList.filter (fun c => !Token.isSpacing c) ≠ [])
    (hexit : text.toList.filter (fun c => !Token.isSpacing c) ≠ "exit".toList) : kindOf text = .code := by
  have hstrip := filter_strip hkept
  have hnotExit : Text.strip text ≠ "exit" := by
    intro hequal
    rw [hequal] at hstrip
    exact hexit hstrip.symm
  have hnotEmpty : Text.strip text ≠ "" := by
    intro hequal
    rw [hequal] at hstrip
    exact hne hstrip.symm
  rw [kindOf, if_neg hnotExit, if_neg hnotEmpty]

/-! ### Single lines -/

variable [Number.Library]

/-- What a line adds to a session that it does not end. -/
def entry (debug : Bool) (text : String) (vars : Variables) : Transcript :=
  match kindOf text with
  | .code => runCode debug text vars
  | _ => quiet vars

theorem entry_code (h : kindOf text = .code) : entry debug text vars = runCode debug text vars := by
  rw [entry, h]

theorem entry_of_ne_code (h : kindOf text ≠ .code) : entry debug text vars = quiet vars := by
  rw [entry]
  cases hkind : kindOf text with
  | code => exact absurd hkind h
  | exit => rfl
  | blank => rfl

theorem entry_blank (h : kindOf text = .blank) : entry debug text vars = quiet vars :=
  entry_of_ne_code (by simp [h])

theorem runCode_false : runCode false text vars =
    ⟨printResult (Line.run text vars).result, (Line.run text vars).log, (Line.run text vars).vars⟩ := rfl

theorem runCode_true : runCode true text vars =
    (debugPreface (Reading.ofText text) vars).append (runCode false text vars) := rfl

theorem entry_vars (h : kindOf text = .code) : (entry debug text vars).vars = (Line.run text vars).vars := by
  rw [entry_code h]
  cases debug <;> rfl

/-! ### Whole sessions -/

theorem run_nil : run none debug [] vars = quiet vars := rfl

theorem run_exit (h : kindOf text = .exit) : run none debug (text :: rest) vars = quiet vars := by
  rw [run, h]
  rfl

theorem run_cons (h : kindOf text ≠ .exit) : run none debug (text :: rest) vars =
    (entry debug text vars).append (run none debug rest (entry debug text vars).vars) := by
  rw [run, entry]
  cases hkind : kindOf text with
  | exit => exact absurd hkind h
  | blank => rfl
  | code => rfl

theorem vars_run_cons (h : kindOf text ≠ .exit) : (run none debug (text :: rest) vars).vars =
    (run none debug rest (entry debug text vars).vars).vars := by
  rw [run_cons h, append_vars]

def entries (debug : Bool) : List String → Variables → List Transcript
  | [], _ => []
  | text :: rest, vars =>
    if kindOf text = .exit then [] else entry debug text vars :: entries debug rest (entry debug text vars).vars

theorem entries_exit (h : kindOf text = .exit) : entries debug (text :: rest) vars = [] := if_pos h

theorem entries_cons (h : kindOf text ≠ .exit) : entries debug (text :: rest) vars =
    entry debug text vars :: entries debug rest (entry debug text vars).vars := if_neg h

/-- A session prints and logs what its entries do, one after another. -/
theorem run_eq_foldr_entries (debug : Bool) (lines : List String) (vars : Variables) :
    (run none debug lines vars).output = String.join ((entries debug lines vars).map output) ∧
      (run none debug lines vars).log = (entries debug lines vars).flatMap Transcript.log := by
  induction lines generalizing vars with
  | nil => exact ⟨rfl, rfl⟩
  | cons text rest ih =>
    by_cases hexit : kindOf text = .exit
    · rw [run_exit hexit, entries_exit hexit]
      exact ⟨rfl, rfl⟩
    · obtain ⟨houtput, hlog⟩ := ih (entry debug text vars).vars
      rw [run_cons hexit, entries_cons hexit]
      exact ⟨by simp [houtput], by simp [hlog]⟩

end Reckoner.Session
