import Mathlib.Data.List.TakeWhile
import Reckoner.CommandLine.Run
import Reckoner.Number.Computed
import Reckoner.Proofs.Session.Prompts

/-!
# Lines as arguments and lines as input

The lines of a session may be given as arguments or fed to the standard input, and the answers are the same. What the arguments ask for is read off once for an option with a value attached to its long name; from there on both paths are sessions over the same lines, one of them with a prompt.
-/

namespace Reckoner.CommandLine

open Session

variable {debug : Bool} {prompt value : String} {lines texts refused : List String} {arguments : List Argument}
  {options : Options} {flag : Flag} {spelling : Spelling} {attached : Option (List Char)}

/-! ### What the arguments ask for -/

theorem ofText_long (flag : Flag) (value : String) :
    Argument.ofText ("--" ++ flag.word ++ "=" ++ value) = .ok (.option flag .long (some value.toList)) := by
  have htext : ("--" ++ flag.word ++ "=" ++ value).toList = '-' :: '-' :: (flag.word.toList ++ '=' :: value.toList) := by
    simp
  have hcut : Argument.cutEquals (flag.word.toList ++ '=' :: value.toList) = (flag.word.toList, some value.toList) := by
    cases flag <;> rfl
  have hword : Flag.ofWord? flag.word.toList = some flag := by cases flag <;> decide
  rw [Argument.ofText, htext]
  change (if flag.word.toList ++ '=' :: value.toList = [] then _ else Argument.ofLong _ _) = _
  rw [if_neg (by simp), Argument.ofLong, hcut]
  dsimp only
  rw [hword]

theorem ofTexts_cons {text : String} (htext : Argument.ofText text = .ok (.option flag spelling attached))
    (htexts : Argument.ofTexts texts = .ok arguments) :
    Argument.ofTexts (text :: texts) = .ok (.option flag spelling attached :: arguments) := by
  rw [Argument.ofTexts, htext, htexts]
  rfl

theorem requestFrom_long (hvalue : flag.takesValue = true) : requestFrom options refused
    (.option flag .long (some value.toList) :: arguments) = requestFrom (options.put flag value) refused arguments := by
  have hgroup : Group.ofOption flag .long (some value.toList) = .ok ⟨[], .valued flag value⟩ := by
    simp [Group.ofOption, Group.withValue, hvalue]
  rw [requestFrom, hgroup]
  rfl

def debugFlags (debug : Bool) : List String := if debug then ["-d"] else []

/-- Options with a value behind the long name come into force one after another. -/
theorem request_long (debug : Bool) (given : List (Flag × String))
    (hvalues : ∀ pair ∈ given, pair.1.takesValue = true) :
    request (debugFlags debug ++ given.map fun (flag, value) => "--" ++ flag.word ++ "=" ++ value) =
      .ok (.session (given.foldl (fun options (flag, value) => options.put flag value) { debug })) := by
  have htexts : Argument.ofTexts (given.map fun (flag, value) => "--" ++ flag.word ++ "=" ++ value) =
      .ok (given.map fun (flag, value) => .option flag .long (some value.toList)) := by
    clear hvalues
    induction given with
    | nil => rfl
    | cons pair rest ih => exact ofTexts_cons (ofText_long pair.1 pair.2) ih
  have hoptions : ∀ options : Options, requestFrom options []
      (given.map fun (flag, value) => .option flag .long (some value.toList)) =
        .ok (.session (given.foldl (fun options (flag, value) => options.put flag value) options)) := by
    clear htexts
    induction given with
    | nil => exact fun options => rfl
    | cons pair rest ih =>
      intro options
      rw [List.map_cons, requestFrom_long (hvalues pair List.mem_cons_self),
        ih fun other hother => hvalues other (List.mem_cons_of_mem pair hother)]
      rfl
  cases debug with
  | false =>
    rw [request, debugFlags, if_neg (by simp), List.nil_append, htexts]
    exact hoptions _
  | true =>
    have hflag : Argument.ofText "-d" = .ok (.option .debug .short none) := rfl
    rw [request, debugFlags, if_pos rfl, List.singleton_append, ofTexts_cons hflag htexts]
    exact hoptions _

theorem foldl_put_expression (lines : List String) (options : Options) :
    (lines.map fun line => (Flag.expression, line)).foldl (fun options (flag, value) => options.put flag value) options =
      { options with expressions := options.expressions ++ lines.map Options.textOf? } := by
  induction lines generalizing options with
  | nil => simp
  | cons line rest ih =>
    rw [List.map_cons, List.foldl_cons, ih]
    simp [Options.put]

/-! ### Runs -/

def expressionArgument (line : String) : String := "--expression=" ++ line

def promptArgument (prompt : String) : String := "--prompt=" ++ prompt

theorem request_expressions (debug : Bool) (lines : List String) :
    request (debugFlags debug ++ lines.map expressionArgument) =
      .ok (.session { debug, expressions := lines.map Options.textOf? }) := by
  have hrequest := request_long debug (lines.map fun line => (Flag.expression, line)) (by simp [Flag.takesValue])
  rw [foldl_put_expression, List.nil_append] at hrequest
  rw [← hrequest, List.map_map]
  rfl

theorem request_prompt (debug : Bool) (prompt : String) :
    request (debugFlags debug ++ [promptArgument prompt]) =
      .ok (.session { debug, prompt := Options.promptOf prompt }) :=
  request_long debug [(Flag.prompt, prompt)] (by simp [Flag.takesValue])

section

variable [Number.Library]

theorem run_expressions (debug : Bool) (hne : lines ≠ []) (htexts : "--" ∉ lines) (input : String) :
    run (debugFlags debug ++ lines.map expressionArgument) input =
      ⟨(Session.run none debug lines ∅).output, (Session.run none debug lines ∅).errors debug, .exit 0⟩ := by
  have hexpressions : lines.map Options.textOf? = lines.map some := by
    apply List.map_congr_left
    intro line hline
    refine if_neg ?_
    rintro rfl
    exact htexts hline
  have hlines : Options.lines { debug, expressions := lines.map some } = lines := by
    have hall : (lines.map some).takeWhile Option.isSome = lines.map some :=
      List.takeWhile_eq_self_iff.mpr (by simp)
    rw [Options.lines, hall, List.filterMap_map]
    exact List.filterMap_some
  have hending : Options.ending { debug, expressions := lines.map some } = .exit 0 := by
    rw [Options.ending, if_neg (by simp)]
  rw [run, request_expressions, hexpressions]
  simp only [session, hlines, hending, List.map_eq_nil_iff, if_neg hne]

theorem run_prompt_of_ne (debug : Bool) (hprompt : prompt ≠ "--") (input : String) :
    run (debugFlags debug ++ [promptArgument prompt]) input =
      ⟨String.join ((answers debug (inputLines input) ∅).map (prompt ++ ·)),
        (Session.run none debug (inputLines input) ∅).errors debug, .exit 0⟩ := by
  obtain ⟨houtput, hlog⟩ := run_prompt prompt debug (inputLines input) ∅
  have hshown : Options.promptOf prompt = prompt := by
    rw [Options.promptOf, Options.textOf?, if_neg hprompt]
    rfl
  have hending : Options.ending { debug, prompt } = .exit 0 := rfl
  rw [run, request_prompt, hshown]
  simp only [session, hending, if_pos, houtput, Transcript.errors, Transcript.logText, hlog]

/-- The same lines give the same answers as arguments and as input, with and without debug mode. A prompt stands in front of each answer, that is in front of as many as there are reads, and has no other effect. A line feed behind the last line makes no difference unless that line is empty. Two minus signs can be given neither as an expression nor as a prompt, since an option takes them for no value. -/
theorem run_input_paths_agree (debug : Bool) (hne : lines ≠ []) (hlines : ∀ line ∈ lines, '\n' ∉ line.toList) :
    ("--" ∉ lines → ∀ input, run (debugFlags debug ++ lines.map expressionArgument) input =
      run (debugFlags debug ++ [promptArgument ""]) (feed lines)) ∧
    (answers debug lines ∅).length = lines.findIdx (fun text => kindOf text = .exit) + 1 ∧
    (∀ prompt, prompt ≠ "--" → run (debugFlags debug ++ [promptArgument prompt]) (feed lines) =
      { run (debugFlags debug ++ [promptArgument ""]) (feed lines) with
        stdout := String.join ((answers debug lines ∅).map (prompt ++ ·)) }) ∧
    (lines.getLast hne ≠ "" → ∀ arguments,
      run arguments (feed lines.dropLast ++ lines.getLast hne) = run arguments (feed lines)) := by
  have hempty : "" ≠ "--" := by decide
  have hfeed := inputLines_feed hlines
  refine ⟨fun htexts input => ?_, length_answers debug lines ∅, fun prompt hprompt => ?_, fun hlast arguments => ?_⟩
  · rw [run_expressions debug hne htexts, run_prompt_of_ne debug hempty, hfeed, output_run_none]
    simp
  · rw [run_prompt_of_ne debug hprompt, run_prompt_of_ne debug hempty, hfeed]
  · have hsame : inputLines (feed lines.dropLast ++ lines.getLast hne) = inputLines (feed lines) := by
      rw [hfeed, inputLines_feed_unterminated (fun line hline => hlines line ((List.dropLast_sublist lines).subset hline))
        (hlines _ (List.getLast_mem hne)) hlast, List.dropLast_concat_getLast]
    unfold run session
    rw [hsame]

end

theorem run_input_paths_agree_exit_between :
    (["x = 2", "", "1 +", " exit", "x"] : List String) ≠ [] ∧
      (∀ line ∈ ["x = 2", "", "1 +", " exit", "x"], '\n' ∉ line.toList) ∧
      run ["-d", "--expression=x = 2", "--expression=", "--expression=1 +", "--expression= exit", "--expression=x"] "" =
        run ["-d", "--prompt="] "x = 2\n\n1 +\n exit\nx\n" ∧
      run ["-d", "--prompt=> "] "x = 2\n\n1 +\n exit\nx\n" =
        { run ["-d", "--prompt="] "x = 2\n\n1 +\n exit\nx\n" with
          stdout := String.join ((answers true ["x = 2", "", "1 +", " exit", "x"] ∅).map ("> " ++ ·)) } := by
  have hlines : ∀ line ∈ ["x = 2", "", "1 +", " exit", "x"], '\n' ∉ line.toList := by decide
  obtain ⟨hsame, -, hprompts, -⟩ := run_input_paths_agree true (by simp) hlines
  exact ⟨by simp, hlines, hsame (by decide) "", hprompts "> " (by decide)⟩

/-- Given as a prompt two minus signs are shown as an empty list, and given as an expression they end the run, while as a line of the input they are code. -/
theorem two_minus_signs_are_no_value :
    (run ["--prompt=--"] "4\n").stdout ≠ String.join ((answers false ["4"] ∅).map ("--" ++ ·)) ∧
      run ["--expression=--"] "" ≠ run ["--prompt="] "--\n" := by
  decide +kernel

end Reckoner.CommandLine
