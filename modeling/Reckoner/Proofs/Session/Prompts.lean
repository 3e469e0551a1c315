import Reckoner.Proofs.Session.Entries

/-!
# Sessions with a prompt

A session that takes its lines from an input shows its prompt before each read, and a read happens for each line up to the one that says `exit`, or else once more at the end of the input. So what it prints is what the session over the same lines prints without a prompt, with the prompt in front of each line's share and once more behind the last. The lines themselves are the stretches of the input between line feeds.
-/

namespace Reckoner.Session

open Transcript

variable {debug : Bool} {prompt text : String} {lines rest : List String} {vars : Variables}

/-! ### Prompts -/

section

variable [Number.Library]

/-- What is printed between a read and the next: what the line just read prints, and nothing behind the last read. -/
def answers (debug : Bool) (lines : List String) (vars : Variables) : List String :=
  (entries debug lines vars).map output ++ [""]

/-- One read for each line up to and including the first that says `exit`, or for each line and the end. -/
theorem length_answers (debug : Bool) (lines : List String) (vars : Variables) :
    (answers debug lines vars).length = lines.findIdx (fun text => kindOf text = .exit) + 1 := by
  rw [answers, List.length_append, List.length_map, List.length_singleton]
  congr 1
  induction lines generalizing vars with
  | nil => rfl
  | cons text rest ih =>
    by_cases hexit : kindOf text = .exit
    · rw [entries_exit hexit, List.findIdx_cons]
      simp [hexit]
    · rw [entries_cons hexit, List.length_cons, ih, List.findIdx_cons]
      simp [hexit]

theorem output_run_none : (run none debug lines vars).output = String.join (answers debug lines vars) := by
  rw [answers, String.join_append, (run_eq_foldr_entries debug lines vars).1]
  simp

theorem run_prompt_cons (h : kindOf text ≠ .exit) : run (some prompt) debug (text :: rest) vars =
    append ⟨[prompt], [], vars⟩
      ((entry debug text vars).append (run (some prompt) debug rest (entry debug text vars).vars)) := by
  rw [run, entry]
  cases hkind : kindOf text with
  | exit => exact absurd hkind h
  | blank => rfl
  | code => rfl

/-- A prompt changes nothing but what is printed, and that only by standing in front of each answer. -/
theorem run_prompt (prompt : String) (debug : Bool) (lines : List String) (vars : Variables) :
    (run (some prompt) debug lines vars).output = String.join ((answers debug lines vars).map (prompt ++ ·)) ∧
      (run (some prompt) debug lines vars).log = (run none debug lines vars).log := by
  induction lines generalizing vars with
  | nil => exact ⟨by simp [run, answers, entries, output], rfl⟩
  | cons text rest ih =>
    by_cases hexit : kindOf text = .exit
    · rw [run_exit hexit, answers, entries_exit hexit, run, hexit]
      exact ⟨by simp [output], rfl⟩
    · obtain ⟨houtput, hlog⟩ := ih (entry debug text vars).vars
      have hanswers : answers debug (text :: rest) vars =
          (entry debug text vars).output :: answers debug rest (entry debug text vars).vars := by
        rw [answers, entries_cons hexit]
        rfl
      rw [run_prompt_cons hexit, run_cons hexit, hanswers]
      constructor
      · rw [output_append, output_append, houtput]
        simp [output, String.append_assoc]
      · rw [append_log, append_log, append_log, hlog, List.nil_append]

end

/-! ### Lines of an input -/

def feed (lines : List String) : String := String.join (lines.map (· ++ "\n"))

theorem splitLines_append {line : List Char} (hline : '\n' ∉ line) (rest : List Char) :
    splitLines (line ++ '\n' :: rest) = line :: splitLines rest := by
  induction line with
  | nil => simp [splitLines]
  | cons c line ih =>
    have hc : '\n' ≠ c := List.ne_of_not_mem_cons hline
    rw [List.cons_append, splitLines, if_neg hc.symm, ih (List.not_mem_of_not_mem_cons hline)]

theorem splitLines_of_notMem {line : List Char} (hne : line ≠ []) (hline : '\n' ∉ line) : splitLines line = [line] := by
  induction line with
  | nil => exact absurd rfl hne
  | cons c line ih =>
    have hc : '\n' ≠ c := List.ne_of_not_mem_cons hline
    rw [splitLines, if_neg hc.symm]
    cases line with
    | nil => rfl
    | cons d line => rw [ih (List.cons_ne_nil d line) (List.not_mem_of_not_mem_cons hline)]

theorem inputLines_feed_append (hlines : ∀ line ∈ lines, '\n' ∉ line.toList) (more : String) :
    inputLines (feed lines ++ more) = lines ++ inputLines more := by
  induction lines with
  | nil => simp [feed]
  | cons line rest ih =>
    have hline : '\n' ∉ line.toList := hlines line List.mem_cons_self
    have htext : (feed (line :: rest) ++ more).toList = line.toList ++ '\n' :: (feed rest ++ more).toList := by
      simp [feed, String.toList_join]
    rw [inputLines, htext, splitLines_append hline, List.map_cons, String.ofList_toList, List.cons_append,
      ← ih fun other hother => hlines other (List.mem_cons_of_mem line hother)]
    rfl

theorem inputLines_feed (hlines : ∀ line ∈ lines, '\n' ∉ line.toList) : inputLines (feed lines) = lines := by
  have hnone : inputLines "" = [] := rfl
  have hfeed := inputLines_feed_append hlines ""
  rwa [hnone, List.append_nil, String.append_empty] at hfeed

/-- The last line is read the same without a line feed behind it, unless it is empty. -/
theorem inputLines_feed_unterminated {last : String} (hlines : ∀ line ∈ lines, '\n' ∉ line.toList)
    (hlast : '\n' ∉ last.toList) (hne : last ≠ "") : inputLines (feed lines ++ last) = lines ++ [last] := by
  have hsingle : inputLines last = [last] := by
    rw [inputLines, splitLines_of_notMem (by simpa using hne) hlast]
    simp
  rw [inputLines_feed_append hlines, hsingle]

end Reckoner.Session
