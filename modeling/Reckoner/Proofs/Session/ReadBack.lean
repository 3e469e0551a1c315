import Reckoner.Number.Computed
import Reckoner.Proofs.Parsing.Spelling
import Reckoner.Proofs.Session.Isolation
import Reckoner.Proofs.Session.Transparency

/-!
# Reading variables back

The variables of a session are the assignments its lines complete, the last one to each name counting. The names are words, since the target of an assignment is an atom whatever brackets and spacing stand around it. A line that spells a name is read as that atom, and so answers with the value, unless the name reads as a number or is the command that ends the session.
-/

namespace Reckoner.Session

open Transcript

variable {debug : Bool} {text key : String} {lines rest later : List String} {vars : Variables} {value : Number}

/-! ### Assignments -/

/-- The name and the value that a line of code assigns, if it completes an assignment. -/
def assignment? [Number.Library] (text : String) (vars : Variables) : Option (String × Number) :=
  match kindOf text, Parser.parse text with
  | .code, .ok ⟨.operation operator (.atom name) right, _⟩ =>
    if operator = "=" then (right.evaluate vars).toOption.map fun value => (name, value) else none
  | _, _ => none

def assignments [Number.Library] : List String → Variables → List (String × Number)
  | [], _ => []
  | text :: rest, vars =>
    if kindOf text = .exit then []
    else
      match assignment? text vars with
      | none => assignments rest vars
      | some (name, value) => (name, value) :: assignments rest (vars.insert name value)

example : (assignments ["(a b) = 8", "a b", "5 = 7", "c = d", "ab = 5", " exit", "x = 0"] ∅).map Prod.fst =
    ["ab", "5", "ab"] := by decide +kernel

section

variable [Number.Library]

theorem assignment?_eq_some_iff {name : String} : assignment? text vars = some (name, value) ↔
    kindOf text = .code ∧ ∃ right rest, Parser.parse text = .ok ⟨.operation "=" (.atom name) right, rest⟩ ∧
      right.evaluate vars = .ok value := by
  constructor
  · intro h
    unfold assignment? at h
    split at h
    · rename_i operator found right rest hkind hparse
      split_ifs at h with hequals
      obtain ⟨computed, hvalue, hpair⟩ := Option.map_eq_some_iff.mp h
      obtain ⟨rfl, rfl⟩ := Prod.mk.inj hpair
      subst hequals
      refine ⟨hkind, right, rest, hparse, ?_⟩
      cases hright : right.evaluate vars with
      | error e => rw [hright] at hvalue; cases hvalue
      | ok other => rw [hright] at hvalue; exact congrArg _ (Option.some.inj hvalue)
    · cases h
  · rintro ⟨hkind, right, rest, hparse, hvalue⟩
    simp [assignment?, hkind, hparse, hvalue, Except.toOption]

theorem entry_vars_eq (debug : Bool) (text : String) (vars : Variables) : (entry debug text vars).vars =
    match assignment? text vars with
    | none => vars
    | some (name, value) => vars.insert name value := by
  cases hassignment : assignment? text vars with
  | none =>
    rcases entry_vars_cases debug text vars with hsame | ⟨name, hassigns⟩
    · exact hsame
    · obtain ⟨right, rest, value, hparse, hvalue, -⟩ := hassigns.stores
      rw [assignment?_eq_some_iff.mpr ⟨hassigns.kind, right, rest, hparse, hvalue⟩] at hassignment
      cases hassignment
  | some assigned =>
    obtain ⟨name, value⟩ := assigned
    obtain ⟨hkind, right, rest, hparse, hvalue⟩ := assignment?_eq_some_iff.mp hassignment
    have hline : Line.ofTree (.operation "=" (.atom name) right) vars =
        ⟨.ok none, vars.insert name value, [.assigned name value]⟩ := by
      simp [Line.ofTree, Expr.assignment?, hvalue]
    rw [entry_vars hkind, Line.run_of_ok hparse, hline]

theorem word_of_mem_assignments {name : String} (h : (name, value) ∈ assignments lines vars) :
    name ≠ "" ∧ ∀ c ∈ name.toList, c.isAlphanum = true := by
  induction lines generalizing vars with
  | nil => cases h
  | cons text rest ih =>
    rw [assignments] at h
    split_ifs at h
    · cases h
    · cases hassignment : assignment? text vars with
      | none => rw [hassignment] at h; exact ih h
      | some assigned =>
        obtain ⟨found, computed⟩ := assigned
        rw [hassignment] at h
        rcases List.mem_cons.mp h with hhead | htail
        · obtain ⟨rfl, -⟩ := Prod.mk.inj hhead
          obtain ⟨-, right, rest, hparse, -⟩ := assignment?_eq_some_iff.mp hassignment
          exact (Parser.spellable_of_parse hparse).2.1
        · exact ih htail

theorem vars_run (debug : Bool) (lines : List String) (vars : Variables) : (run none debug lines vars).vars =
    (assignments lines vars).foldl (fun vars (name, value) => vars.insert name value) vars := by
  induction lines generalizing vars with
  | nil => rfl
  | cons text rest ih =>
    rw [assignments]
    split_ifs with hexit
    · rw [run_exit hexit]
      rfl
    · rw [vars_run_cons hexit, ih, entry_vars_eq]
      cases assignment? text vars <;> rfl

omit [Number.Library] in
/-- After several insertions a name has the last value inserted for it, or else the one it had before. -/
theorem getElem?_foldl_insert (assigned : List (String × Number)) (vars : Variables) (key : String) :
    (assigned.foldl (fun vars (name, value) => vars.insert name value) vars)[key]? =
      (assigned.reverse.lookup key).or vars[key]? := by
  induction assigned generalizing vars with
  | nil => rfl
  | cons first rest ih =>
    obtain ⟨name, value⟩ := first
    rw [List.foldl_cons, ih, Variables.getElem?_insert, List.reverse_cons, List.lookup_append, Option.or_assoc]
    congr 1
    by_cases hname : name = key
    · simp [hname]
    · have hbeq : (key == name) = false := by simpa using Ne.symm hname
      simp [List.lookup_cons, hname, hbeq]

theorem lookup_of_mem_vars (h : key ∈ (run none debug lines ∅).vars) :
    ∃ value, (assignments lines ∅).reverse.lookup key = some value ∧
      (run none debug lines ∅).vars[key]? = some value := by
  obtain ⟨value, hvalue⟩ := Option.isSome_iff_exists.mp (Std.ExtTreeMap.mem_iff_isSome_getElem?.mp h)
  have hlookup := getElem?_foldl_insert (assignments lines ∅) ∅ key
  rw [← vars_run debug, hvalue, Std.ExtTreeMap.getElem?_empty, Option.or_none] at hlookup
  exact ⟨value, hlookup.symm, hvalue⟩

theorem word_of_mem_vars (h : key ∈ (run none debug lines ∅).vars) :
    key ≠ "" ∧ ∀ c ∈ key.toList, c.isAlphanum = true := by
  obtain ⟨value, hlookup, -⟩ := lookup_of_mem_vars h
  obtain ⟨later, earlier, hassigned, -⟩ := List.lookup_eq_some_iff.mp hlookup
  have hmem : (key, value) ∈ (assignments lines ∅).reverse := by simp [hassigned]
  exact word_of_mem_assignments (List.mem_reverse.mp hmem)

end

/-! ### Lines that spell a word -/

theorem kindOf_of_word (hne : key ≠ "") (hword : ∀ c ∈ key.toList, c.isAlphanum = true) (hexit : key ≠ "exit")
    (htext : text.toList.filter (fun c => !Token.isSpacing c) = key.toList) : kindOf text = .code := by
  refine kindOf_code (fun c hc hkept => ?_) (htext ▸ fun hnil => hne (String.toList_eq_nil_iff.mp hnil))
    (htext ▸ fun hequal => hexit (String.toList_injective hequal))
  have hspelled : c ∈ key.toList := htext ▸ List.mem_filter.mpr ⟨hc, by simpa using hkept⟩
  exact Text.isBlank_of_isAlphanum (hword c hspelled)

theorem isBlank_of_isSpacing {c : Char} (h : Token.isSpacing c = true) : Text.isBlank c = true := by
  simp only [Token.isSpacing, Bool.or_eq_true, beq_iff_eq] at h
  rcases h with (((rfl | rfl) | rfl) | rfl) | rfl <;> rfl

theorem kindOf_exit {before after : List Char} (hbefore : ∀ c ∈ before, Token.isSpacing c = true)
    (hafter : ∀ c ∈ after, Token.isSpacing c = true) :
    kindOf (String.ofList (before ++ "exit".toList ++ after)) = .exit := by
  have hfirst : ∀ c ∈ "exit".toList.head?, Text.isBlank c = false := by simp [Text.isBlank, Text.isWideBlank]
  have hlast : ∀ c ∈ "exit".toList.getLast?, Text.isBlank c = false := by simp [Text.isBlank, Text.isWideBlank]
  have hstrip : Text.strip (String.ofList (before ++ "exit".toList ++ after)) = "exit" := by
    rw [Text.strip, String.toList_ofList, Text.trimBy_append (fun c hc => isBlank_of_isSpacing (hbefore c hc))
      (fun c hc => isBlank_of_isSpacing (hafter c hc)) (by simp) hfirst hlast, String.ofList_toList]
  rw [kindOf, hstrip]
  rfl

section

variable [Number.Library]

theorem run_of_word (hparse : Parser.parse text = .ok ⟨.atom key, []⟩) (hvalue : vars[key]? = some value) :
    (Line.run text vars).result = .ok (some ((Number.read? key).getD value)) := by
  rw [Line.run_of_ok hparse]
  cases hread : Number.read? key with
  | some x => simp [Line.ofTree, Expr.assignment?, Expr.evaluate, Expr.atomValue, hread]
  | none => simp [Line.ofTree, Expr.assignment?, Expr.evaluate, Expr.atomValue, hread, hvalue]

/-- A line that spells a variable prints its value, or the number that its name reads as, and changes nothing. -/
theorem entry_of_word (debug : Bool) (hne : key ≠ "") (hword : ∀ c ∈ key.toList, c.isAlphanum = true)
    (hexit : key ≠ "exit") (htext : text.toList.filter (fun c => !Token.isSpacing c) = key.toList)
    (hvalue : vars[key]? = some value) :
    (entry debug text vars).output =
        (if debug then key ++ "\n" else "") ++ (((Number.read? key).getD value).write ++ "\n") ∧
      (entry debug text vars).vars = vars := by
  have hkind := kindOf_of_word hne hword hexit htext
  have hparse := Parser.parse_of_word hne hword htext
  have hplain : (entry false text vars).output = ((Number.read? key).getD value).write ++ "\n" := by
    rw [entry_code hkind, runCode_false, run_of_word hparse hvalue]
    simp [output, printResult]
  have htree : treeText text = key ++ "\n" := by
    rw [treeText, hkind, hparse]
    rfl
  constructor
  · cases debug with
    | false => simpa using hplain
    | true => rw [(entry_true text vars).1, htree, hplain, if_pos rfl]
  · have hnone : assignment? text vars = none := by
      unfold assignment?
      rw [hkind, hparse]
    rw [entry_vars_eq, hnone]

/-- The names of the variables are words, each stands for the value most recently assigned to it, and one more line that spells a name, with spacing anywhere, prints that value. A name that reads as a number prints that number in its place, and the name of the exit command ends the session. -/
theorem run_reads_back (debug : Bool) (lines : List String) :
    (∀ key ∈ (run none debug lines ∅).vars, key ≠ "" ∧ ∀ c ∈ key.toList, c.isAlphanum = true) ∧
    ((∀ text ∈ lines, kindOf text ≠ .exit) → ∀ key ∈ (run none debug lines ∅).vars, ∃ value,
      (assignments lines ∅).reverse.lookup key = some value ∧
      (key ≠ "exit" → ∀ text, text.toList.filter (fun c => !Token.isSpacing c) = key.toList →
        (run none debug (lines ++ [text]) ∅).output = (run none debug lines ∅).output ++
          ((if debug then key ++ "\n" else "") ++ (((Number.read? key).getD value).write ++ "\n")) ∧
        (run none debug (lines ++ [text]) ∅).vars = (run none debug lines ∅).vars) ∧
      (key = "exit" → ∀ before after later, (∀ c ∈ before, Token.isSpacing c = true) →
        (∀ c ∈ after, Token.isSpacing c = true) →
        run none debug (lines ++ String.ofList (before ++ key.toList ++ after) :: later) ∅ =
          run none debug lines ∅)) := by
  refine ⟨fun key => word_of_mem_vars, fun hlive key hkey => ?_⟩
  obtain ⟨value, hlookup, hvalue⟩ := lookup_of_mem_vars hkey
  obtain ⟨hne, hword⟩ := word_of_mem_vars hkey
  refine ⟨value, hlookup, fun hexit text htext => ?_, ?_⟩
  · have hkind := kindOf_of_word hne hword hexit htext
    obtain ⟨houtput, hvars⟩ := entry_of_word debug hne hword hexit htext hvalue
    rw [run_append_of_forall hlive, run_cons (by simp [hkind]), run_nil]
    constructor
    · rw [output_append, output_append, houtput]
      simp [quiet, output]
    · rw [append_vars, append_vars, quiet_vars, hvars]
  · rintro rfl before after later hbefore hafter
    rw [run_append_of_forall hlive, run_exit (kindOf_exit hbefore hafter)]
    simp [append, quiet]

end

theorem run_reads_back_reassigned :
    "ab" ∈ (run none true ["(a b) = 8", "ab = 5"] ∅).vars ∧ ∃ value,
      (assignments ["(a b) = 8", "ab = 5"] ∅).reverse.lookup "ab" = some value ∧
      (run none true ["(a b) = 8", "ab = 5", " a\tb"] ∅).output =
        (run none true ["(a b) = 8", "ab = 5"] ∅).output ++
          ("ab\n" ++ (((Number.read? "ab").getD value).write ++ "\n")) := by
  have hmem : "ab" ∈ (run none true ["(a b) = 8", "ab = 5"] ∅).vars := by decide +kernel
  obtain ⟨value, hlookup, hprints, -⟩ :=
    (run_reads_back true ["(a b) = 8", "ab = 5"]).2 (by decide +kernel) "ab" hmem
  exact ⟨hmem, value, hlookup, (hprints (by decide) " a\tb" (by decide)).1⟩

end Reckoner.Session
