import Mathlib.Data.List.TakeWhile
import Reckoner.Proofs.Parsing.Spacing
import Reckoner.Proofs.Session.ReadBack

/-!
# Spacing in sessions

A session looks at a line twice: it trims the line to see whether it is blank or says `exit`, and it reads the line. Trimming takes away more kinds of characters than reading leaves out, but only at the two ends. Hence a line without tokens is always blank, and whether a line is blank does not depend on its spacing; whether it says `exit` does, since `ex it` does not. So what a session answers shows the spacing of a line only where it decides whether the line says `exit`; the log, which quotes every line, shows it always.
-/

namespace Reckoner.Session

open Transcript

variable {debug : Bool} {text other : String} {lines respaced : List String} {vars : Variables}

/-! ### Blank lines -/

theorem strip_eq_empty_iff : Text.strip text = "" ↔ ∀ c ∈ text.toList, Text.isBlank c = true := by
  have hnil : Text.strip text = "" ↔ Text.trimBy Text.isBlank text.toList = [] := by
    rw [Text.strip, ← String.toList_eq_nil_iff, String.toList_ofList]
  rw [hnil]
  constructor
  · intro htrim
    obtain ⟨before, after, hparts, hbefore, hafter⟩ := Text.exists_trimBy Text.isBlank text.toList
    rw [htrim, List.append_nil] at hparts
    intro c hc
    rw [hparts, List.mem_append] at hc
    exact hc.elim (hbefore c) (hafter c)
  · intro hblank
    have hnothing : text.toList.dropWhile Text.isBlank = [] := List.dropWhile_eq_nil_iff.mpr hblank
    rw [Text.trimBy, hnothing]
    rfl

/-- A line is blank if whatever is no spacing in it is blank anyway. -/
theorem strip_eq_empty_iff_solid : Text.strip text = "" ↔
    ∀ c ∈ text.toList.filter fun c => !Token.isSpacing c, Text.isBlank c = true := by
  rw [strip_eq_empty_iff]
  constructor
  · intro hblank c hc
    exact hblank c (List.mem_of_mem_filter hc)
  · intro hsolid c hc
    cases hspacing : Token.isSpacing c with
    | true => exact isBlank_of_isSpacing hspacing
    | false => exact hsolid c (List.mem_filter.mpr ⟨hc, by simp [hspacing]⟩)

theorem kindOf_eq_exit_iff : kindOf text = .exit ↔ Text.strip text = "exit" := by
  rw [kindOf]
  by_cases hexit : Text.strip text = "exit"
  · simp [hexit]
  · by_cases hempty : Text.strip text = "" <;> simp [hexit, hempty]

theorem kindOf_eq_blank_iff : kindOf text = .blank ↔ Text.strip text = "" := by
  rw [kindOf]
  by_cases hexit : Text.strip text = "exit"
  · simp [hexit]
  · by_cases hempty : Text.strip text = "" <;> simp [hexit, hempty]

theorem kindOf_of_scan_eq_nil (h : Token.scan text = []) : kindOf text = .blank := by
  have hnothing : (text.toList.filter fun c => !Token.isSpacing c) = [] := List.map_eq_nil_iff.mp h
  rw [kindOf_eq_blank_iff, strip_eq_empty_iff_solid, hnothing]
  simp

/-! ### Single lines -/

/-- Two lines that differ in spacing only, and not in whether they say `exit`. -/
structure Respaced (text other : String) : Prop where
  chars : Token.Respaced text.toList other.toList
  exit_iff : Text.strip text = "exit" ↔ Text.strip other = "exit"

theorem respaced_iff : Respaced text other ↔
    ((text.toList.filter fun c => !Token.isSpacing c) = other.toList.filter fun c => !Token.isSpacing c) ∧
      (Text.strip text = "exit" ↔ Text.strip other = "exit") := by
  rw [← Token.respaced_iff]
  exact ⟨fun h => ⟨h.chars, h.exit_iff⟩, fun h => ⟨h.1, h.2⟩⟩

theorem Respaced.kindOf_eq (h : Respaced text other) : kindOf text = kindOf other := by
  have hexit : kindOf text = .exit ↔ kindOf other = .exit := by
    rw [kindOf_eq_exit_iff, kindOf_eq_exit_iff]
    exact h.exit_iff
  have hblank : kindOf text = .blank ↔ kindOf other = .blank := by
    rw [kindOf_eq_blank_iff, kindOf_eq_blank_iff, strip_eq_empty_iff_solid, strip_eq_empty_iff_solid,
      h.chars.filter_eq]
  revert hexit hblank
  cases kindOf text <;> cases kindOf other <;> simp

section

variable [Number.Library]

/-- What becomes of a line, apart from the log, is up to its tokens. -/
theorem runCode_congr (h : Token.scan text = Token.scan other) (debug : Bool) (vars : Variables) :
    (runCode debug text vars).printed = (runCode debug other vars).printed ∧
      (runCode debug text vars).vars = (runCode debug other vars).vars := by
  have houtcome : (Reading.ofText text).outcome = (Reading.ofText other).outcome := by
    change (Reading.ofTokens (Token.scan text)).outcome = (Reading.ofTokens (Token.scan other)).outcome
    rw [h]
  have hline : (Line.run text vars).result = (Line.run other vars).result ∧
      (Line.run text vars).vars = (Line.run other vars).vars := by
    rw [Line.run, Line.run, Line.ofReading, Line.ofReading, houtcome]
    cases (Reading.ofText other).outcome <;> exact ⟨rfl, rfl⟩
  cases debug with
  | false =>
    rw [runCode_false, runCode_false]
    exact ⟨congrArg printResult hline.1, hline.2⟩
  | true =>
    have hpreface : (debugPreface (Reading.ofText text) vars).printed =
        (debugPreface (Reading.ofText other) vars).printed := by
      rw [debugPreface, debugPreface, houtcome]
      cases (Reading.ofText other).outcome <;> rfl
    rw [runCode_true, runCode_true, runCode_false, runCode_false]
    simp only [append, hpreface, hline.1, hline.2, and_self]

theorem Respaced.entry_eq (h : Respaced text other) (debug : Bool) (vars : Variables) :
    (entry debug text vars).output = (entry debug other vars).output ∧
      (entry debug text vars).vars = (entry debug other vars).vars := by
  by_cases hkind : kindOf text = .code
  · obtain ⟨hprinted, hvars⟩ := runCode_congr h.chars.scan_eq debug vars
    rw [entry_code hkind, entry_code (h.kindOf_eq ▸ hkind)]
    exact ⟨congrArg String.join hprinted, hvars⟩
  · rw [entry_of_ne_code hkind, entry_of_ne_code (h.kindOf_eq ▸ hkind)]
    exact ⟨rfl, rfl⟩

end

/-! ### The tokens of a session -/

theorem tokens_of_mem_block {source : String} {tokens rest : List Token} {tree : Expr}
    (h : .tokenized source tokens ∈ Reading.block text tree rest) : tokens = Token.scan text := by
  have hmem : .tokenized source tokens ∈ [LogEntry.tokenized text (Token.scan text)] := by
    by_cases hrest : rest = [] <;> simpa [Reading.block, hrest] using h
  cases List.mem_singleton.mp hmem
  rfl

theorem tokens_of_mem_treeLog {source : String} {tokens : List Token} (h : .tokenized source tokens ∈ treeLog text) :
    tokens = Token.scan text := by
  rw [treeLog] at h
  split at h
  · exact tokens_of_mem_block h
  · cases h

section

variable [Number.Library]

theorem tokens_of_mem_plainLog {source : String} {tokens : List Token} (hkind : kindOf text = .code)
    (h : .tokenized source tokens ∈ (entry false text vars).log) : tokens = Token.scan text := by
  have hlogs : Logs text (entry false text vars).log := logs_entry (by simp [hkind])
  generalize (entry false text vars).log = log at h hlogs
  cases hlogs with
  | blank _ => cases h
  | unread _ _ =>
    cases List.mem_singleton.mp h
    rfl
  | read _ _ hassigned =>
    rcases List.mem_append.mp h with hblock | hmem
    · exact tokens_of_mem_block hblock
    · rcases hassigned with rfl | ⟨name, value, rfl⟩
      · cases hmem
      · cases List.mem_singleton.mp hmem

theorem tokens_of_mem_log {source : String} {tokens : List Token}
    (h : .tokenized source tokens ∈ (entry debug text vars).log) : kindOf text = .code ∧ tokens = Token.scan text := by
  have hkind : kindOf text = .code := by
    by_contra hother
    rw [entry_of_ne_code hother] at h
    cases h
  refine ⟨hkind, ?_⟩
  cases debug with
  | false => exact tokens_of_mem_plainLog hkind h
  | true =>
    rw [(entry_true text vars).2.1] at h
    exact (List.mem_append.mp h).elim tokens_of_mem_treeLog (tokens_of_mem_plainLog hkind)

theorem tokens_ne_nil_of_mem_log {source : String} {tokens : List Token}
    (h : .tokenized source tokens ∈ (entry debug text vars).log) : tokens ≠ [] := by
  obtain ⟨hkind, rfl⟩ := tokens_of_mem_log h
  intro hnil
  rw [kindOf_of_scan_eq_nil hnil] at hkind
  cases hkind

theorem tokens_ne_nil_of_mem_log_run {source : String} {tokens : List Token}
    (h : .tokenized source tokens ∈ (run none debug lines vars).log) : tokens ≠ [] := by
  induction lines generalizing vars with
  | nil => cases h
  | cons text rest ih =>
    by_cases hexit : kindOf text = .exit
    · rw [run_exit hexit] at h
      cases h
    · rw [run_cons hexit, append_log] at h
      exact (List.mem_append.mp h).elim tokens_ne_nil_of_mem_log ih

/-! ### Whole sessions -/

theorem run_of_respaced (h : List.Forall₂ Respaced lines respaced) (debug : Bool) (vars : Variables) :
    (run none debug respaced vars).output = (run none debug lines vars).output ∧
      (run none debug respaced vars).vars = (run none debug lines vars).vars := by
  induction h generalizing vars with
  | nil => exact ⟨rfl, rfl⟩
  | @cons text other lines respaced hrespaced _ ih =>
    by_cases hexit : kindOf text = .exit
    · rw [run_exit hexit, run_exit (hrespaced.kindOf_eq ▸ hexit)]
      exact ⟨rfl, rfl⟩
    · obtain ⟨houtput, hvars⟩ := hrespaced.entry_eq debug vars
      obtain ⟨houtputs, hvarsThere⟩ := ih (entry debug other vars).vars
      rw [run_cons hexit, run_cons (hrespaced.kindOf_eq ▸ hexit), output_append, output_append, append_vars, append_vars,
        houtput, hvars, houtputs, hvarsThere]
      exact ⟨rfl, rfl⟩

/-- Spacing put into or taken out of the lines of a session, anywhere, changes neither what it prints nor the variables, as long as each line says `exit` in either form or in neither. A line without tokens is blank, so a session never parses an empty token list. -/
theorem run_respaced :
    (∀ lines respaced, List.Forall₂ Respaced lines respaced → ∀ debug vars,
      (run none debug respaced vars).output = (run none debug lines vars).output ∧
        (run none debug respaced vars).vars = (run none debug lines vars).vars) ∧
    (∀ text, Token.scan text = [] → kindOf text = .blank ∧
      ∀ debug rest vars, run none debug (text :: rest) vars = run none debug rest vars) ∧
    ∀ debug lines vars source tokens, .tokenized source tokens ∈ (run none debug lines vars).log → tokens ≠ [] := by
  refine ⟨fun lines respaced => run_of_respaced, ?_, fun debug lines vars source tokens => tokens_ne_nil_of_mem_log_run⟩
  intro text hscan
  have hblank := kindOf_of_scan_eq_nil hscan
  refine ⟨hblank, fun debug rest vars => ?_⟩
  rw [run_cons (by simp [hblank]), entry_blank hblank, quiet_append, quiet_vars]

end

theorem run_respaced_inside_words :
    List.Forall₂ Respaced ["ab = 12", "2 * (ab", "", "ex it", "exit ", "5"]
      ["a b=1 2\t", " 2*( a b", "\x0c ", "e x i t", "\nexit", "5\n"] ∧
    (run none true ["a b=1 2\t", " 2*( a b", "\x0c ", "e x i t", "\nexit", "5\n"] ∅).output =
        (run none true ["ab = 12", "2 * (ab", "", "ex it", "exit ", "5"] ∅).output ∧
      Token.scan " \t" = [] ∧ kindOf " \t" = .blank ∧
      .tokenized "5\n" [⟨.atom, "5"⟩] ∈ (run none true ["\t", "5\n"] ∅).log ∧ [⟨.atom, "5"⟩] ≠ ([] : List Token) := by
  have hlines : List.Forall₂ Respaced ["ab = 12", "2 * (ab", "", "ex it", "exit ", "5"]
      ["a b=1 2\t", " 2*( a b", "\x0c ", "e x i t", "\nexit", "5\n"] := by
    simp only [List.forall₂_cons, List.forall₂_nil_left_iff, respaced_iff, and_true]
    decide +kernel
  have hscan : Token.scan " \t" = [] := by decide
  have hlog : .tokenized "5\n" [⟨.atom, "5"⟩] ∈ (run none true ["\t", "5\n"] ∅).log := by decide +kernel
  exact ⟨hlines, (run_respaced.1 _ _ hlines true ∅).1, hscan, (run_respaced.2.1 _ hscan).1, hlog,
    run_respaced.2.2 _ _ _ _ _ hlog⟩

end Reckoner.Session
