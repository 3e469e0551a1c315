import Reckoner.Proofs.Session.Entries

/-!
# Composition and isolation of lines

A session over two lists of lines is a session over the first followed by one over the second, unless the first says `exit`. The variables are all that a line passes on, and only a complete assignment changes them, at its own name. So lines that fail, compute a value or are blank can be left out, and no other line notices.
-/

namespace Reckoner.Session

open Transcript

variable [Number.Library] {debug : Bool} {text : String} {first later lines rest : List String} {vars before after : Variables}

/-! ### Composition -/

theorem run_append_of_forall (hexit : ∀ text ∈ first, kindOf text ≠ .exit) : run none debug (first ++ later) vars =
    (run none debug first vars).append (run none debug later (run none debug first vars).vars) := by
  induction first generalizing vars with
  | nil => rw [List.nil_append, run_nil, quiet_append, quiet_vars]
  | cons text rest ih =>
    have htext : kindOf text ≠ .exit := hexit text List.mem_cons_self
    rw [List.cons_append, run_cons htext, run_cons htext, append_assoc, append_vars,
      ih fun other hother => hexit other (List.mem_cons_of_mem text hother)]

theorem run_append_of_exit (hexit : ∃ text ∈ first, kindOf text = .exit) :
    run none debug (first ++ later) vars = run none debug first vars := by
  induction first generalizing vars with
  | nil => simp at hexit
  | cons text rest ih =>
    rw [List.cons_append]
    by_cases htext : kindOf text = .exit
    · rw [run_exit htext, run_exit htext]
    · have hrest : ∃ text ∈ rest, kindOf text = .exit := by simpa [htext] using hexit
      rw [run_cons htext, run_cons htext, ih hrest]

/-! ### Changes of the variables -/

structure Assigns (text : String) (before : Variables) (name : String) (after : Variables) : Prop where
  kind : kindOf text = .code
  result : (Line.run text before).result = .ok none
  stores : ∃ right rest value, Parser.parse text = .ok ⟨.operation "=" (.atom name) right, rest⟩ ∧
    right.evaluate before = .ok value ∧ after = before.insert name value

theorem Assigns.getElem?_eq {name : String} (h : Assigns text before name after) {key : String} (hkey : key ≠ name) :
    after[key]? = before[key]? := by
  obtain ⟨right, rest, value, -, -, rfl⟩ := h.stores
  rw [Variables.getElem?_insert, if_neg (Ne.symm hkey)]

theorem entry_vars_cases (debug : Bool) (text : String) (before : Variables) :
    (entry debug text before).vars = before ∨ ∃ name, Assigns text before name (entry debug text before).vars := by
  by_cases hkind : kindOf text = .code
  · rw [entry_vars hkind]
    have hends := Line.run_ends text before
    generalize hline : Line.run text before = line at hends
    cases hends with
    | unread _ => exact .inl rfl
    | untargeted _ _ => exact .inl rfl
    | failed _ _ => exact .inl rfl
    | evaluated _ _ _ => exact .inl rfl
    | assigned hparse hvalue =>
      exact .inr ⟨_, hkind, by rw [hline], _, _, _, hparse, hvalue, rfl⟩
  · exact .inl (by rw [entry_of_ne_code hkind, quiet_vars])

theorem entry_vars_of_error {e : LineError} (herror : (Line.run text before).result = .error e) :
    (entry debug text before).vars = before := by
  rcases entry_vars_cases debug text before with hsame | ⟨name, hassigns⟩
  · exact hsame
  · rw [hassigns.result] at herror
    cases herror

/-! ### Lines that can be left out -/

/-- A line that is blank, fails, or is no assignment. -/
inductive Idle (text : String) (vars : Variables) : Prop
  | blank : kindOf text = .blank → Idle text vars
  | fails {e : LineError} : kindOf text = .code → (Line.run text vars).result = .error e → Idle text vars
  | expression {tree : Expr} {rest : List Token} : kindOf text = .code → Parser.parse text = .ok ⟨tree, rest⟩ →
    tree.Plain → Idle text vars

theorem Idle.kindOf_ne_exit (h : Idle text vars) : kindOf text ≠ .exit := by
  cases h with
  | blank hkind => simp [hkind]
  | fails hkind _ => simp [hkind]
  | expression hkind _ _ => simp [hkind]

theorem Idle.entry_vars (h : Idle text vars) : (entry debug text vars).vars = vars := by
  cases h with
  | blank hkind => rw [entry_blank hkind, quiet_vars]
  | fails _ herror => exact entry_vars_of_error herror
  | expression _ hparse hplain =>
    rcases entry_vars_cases debug text vars with hsame | ⟨name, hassigns⟩
    · exact hsame
    · obtain ⟨right, rest, value, hequals, -, -⟩ := hassigns.stores
      obtain ⟨rfl, -⟩ := Parser.Parsed.mk.inj (Except.ok.inj (hparse.symm.trans hequals))
      exact absurd rfl (hplain (.atom name) right)

def without {α : Type} (dropped : Nat → Bool) : List α → List α
  | [] => []
  | x :: rest =>
    if dropped 0 then without (fun i => dropped (i + 1)) rest else x :: without (fun i => dropped (i + 1)) rest

example : without (fun i => i == 1 || i == 3) ["a", "b", "c", "d", "e"] = ["a", "c", "e"] := by decide

/-- Each of the lines at certain positions is idle where it stands, unless an exit line keeps the session from it. -/
def IdleAt (debug : Bool) (dropped : Nat → Bool) (lines : List String) (vars : Variables) : Prop :=
  ∀ i (hi : i < lines.length), dropped i = true → (∀ text ∈ lines.take i, kindOf text ≠ .exit) →
    Idle lines[i] (run none debug (lines.take i) vars).vars

theorem IdleAt.head {dropped : Nat → Bool} (h : IdleAt debug dropped (text :: rest) vars) (hdropped : dropped 0 = true) :
    Idle text vars := h 0 (by simp) hdropped (by simp)

theorem IdleAt.tail {dropped : Nat → Bool} (h : IdleAt debug dropped (text :: rest) vars) (htext : kindOf text ≠ .exit) :
    IdleAt debug (fun i => dropped (i + 1)) rest (entry debug text vars).vars := by
  intro i hi hdropped hlive
  have hidle := h (i + 1) (by simpa using hi) hdropped (by simpa [htext] using hlive)
  rwa [List.take_succ_cons, vars_run_cons htext] at hidle

/-- Lines that are idle where they stand make no difference to the other lines. -/
theorem run_without {dropped : Nat → Bool} (hidle : IdleAt debug dropped lines vars) :
    (run none debug (without dropped lines) vars).vars = (run none debug lines vars).vars ∧
      entries debug (without dropped lines) vars = without dropped (entries debug lines vars) := by
  induction lines generalizing dropped vars with
  | nil => exact ⟨rfl, rfl⟩
  | cons text rest ih =>
    by_cases htext : kindOf text = .exit
    · have hkept : ¬dropped 0 = true := fun hdropped => (hidle.head hdropped).kindOf_ne_exit htext
      rw [without, if_neg hkept, run_exit htext, run_exit htext, entries_exit htext, entries_exit htext]
      exact ⟨rfl, rfl⟩
    · obtain ⟨hvars, hentries⟩ := ih (hidle.tail htext)
      rw [run_cons htext, entries_cons htext, append_vars, without, without]
      by_cases hdropped : dropped 0 = true
      · rw [(hidle.head hdropped).entry_vars] at hvars hentries ⊢
        rw [if_pos hdropped, if_pos hdropped]
        exact ⟨hvars, hentries⟩
      · rw [if_neg hdropped, if_neg hdropped, run_cons htext, entries_cons htext, append_vars, hvars, hentries]
        exact ⟨rfl, rfl⟩

/-! ### Runs of any length -/

theorem run_take_succ {i : Nat} (hi : i < lines.length) :
    (run none debug (lines.take (i + 1)) vars).vars = (run none debug (lines.take i) vars).vars ∨
      (run none debug (lines.take (i + 1)) vars).vars =
        (entry debug lines[i] (run none debug (lines.take i) vars).vars).vars := by
  rw [← List.take_append_getElem hi]
  by_cases hexit : ∃ text ∈ lines.take i, kindOf text = .exit
  · exact .inl (by rw [run_append_of_exit hexit])
  · have hlive : ∀ text ∈ lines.take i, kindOf text ≠ .exit := fun text htext hkind => hexit ⟨text, htext, hkind⟩
    rw [run_append_of_forall hlive, append_vars]
    by_cases htext : kindOf lines[i] = .exit
    · exact .inl (by rw [run_exit htext, quiet_vars])
    · exact .inr (by rw [run_cons htext, append_vars, run_nil, quiet_vars])

/-- Sessions compose, lines behind an exit line have no effect, idle lines can be left out without a difference to any other line, and the variables change only where an assignment is complete, at the name assigned. -/
theorem run_isolates (debug : Bool) (vars : Variables) :
    (∀ first later, (∀ text ∈ first, kindOf text ≠ .exit) → run none debug (first ++ later) vars =
      (run none debug first vars).append (run none debug later (run none debug first vars).vars)) ∧
    (∀ first later, (∃ text ∈ first, kindOf text = .exit) →
      run none debug (first ++ later) vars = run none debug first vars) ∧
    (∀ lines, (run none debug lines vars).output = String.join ((entries debug lines vars).map output) ∧
      ∀ dropped, IdleAt debug dropped lines vars →
        (run none debug (without dropped lines) vars).vars = (run none debug lines vars).vars ∧
        entries debug (without dropped lines) vars = without dropped (entries debug lines vars)) ∧
    ∀ (lines : List String) (i : Nat) (hi : i < lines.length) (before after : Variables),
      before = (run none debug (lines.take i) vars).vars → after = (run none debug (lines.take (i + 1)) vars).vars →
      (after = before ∨ ∃ name, Assigns lines[i] before name after ∧ ∀ key, key ≠ name → after[key]? = before[key]?) ∧
      ((∃ e, (Line.run lines[i] before).result = .error e) → after = before) := by
  refine ⟨fun first later => run_append_of_forall, fun first later => run_append_of_exit,
    fun lines => ⟨(run_eq_foldr_entries debug lines vars).1, fun dropped => run_without⟩, ?_⟩
  rintro lines i hi before after rfl hafter
  rcases run_take_succ hi with hsame | hentry
  · rw [hsame] at hafter
    exact ⟨.inl hafter, fun _ => hafter⟩
  · rw [hentry] at hafter
    subst hafter
    refine ⟨?_, fun ⟨e, herror⟩ => entry_vars_of_error herror⟩
    rcases entry_vars_cases debug lines[i] _ with hsame | ⟨name, hassigns⟩
    · exact .inl hsame
    · exact .inr ⟨name, hassigns, fun key => hassigns.getElem?_eq⟩

end Reckoner.Session
