import Reckoner.Number.Computed
import Reckoner.Proofs.Evaluation.Dependence
import Reckoner.Proofs.Session.Isolation
import Reckoner.Proofs.Session.Transparency

/-!
# Variables that nothing reads

Two runs of a session from different variables show the same as long as no line reads a name at which they differ: every line adds the same in both, and inserts the same, so the runs never come to differ at another name. No line reads a name that is a literal. A line that completes an assignment to a name it does not read makes the runs agree there, whatever the name stood for before.
-/

namespace Reckoner.Session

open Transcript

variable {debug : Bool} {text : String} {lines rest : List String} {vars s₁ s₂ : Variables}

/-- What a transcript lets others see. -/
def Transcript.shown (t : Transcript) : String × List LogEntry := (t.output, t.log)

/-! ### Single lines -/

theorem shown_entry_congr [Number.Library] (hresult : (Line.run text s₁).result = (Line.run text s₂).result)
    (hlog : (Line.run text s₁).log = (Line.run text s₂).log) :
    (entry debug text s₁).shown = (entry debug text s₂).shown := by
  have hplain : (entry false text s₁).shown = (entry false text s₂).shown := by
    by_cases hkind : kindOf text = .code
    · rw [entry_code hkind, entry_code hkind, runCode_false, runCode_false, hresult, hlog]
      rfl
    · rw [entry_of_ne_code hkind, entry_of_ne_code hkind]
      rfl
  cases debug with
  | false => exact hplain
  | true =>
    obtain ⟨houtput, hlog⟩ := Prod.mk.inj hplain
    obtain ⟨houtput₁, hlog₁, -⟩ := entry_true text s₁
    obtain ⟨houtput₂, hlog₂, -⟩ := entry_true text s₂
    rw [shown, shown, houtput₁, hlog₁, houtput₂, hlog₂, houtput, hlog]

/-- The variables after a line in two runs: the same insertion or none in either. -/
inductive SameEffect (text : String) (s₁ s₂ : Variables) : Variables → Variables → Prop
  | assigned {name : String} {value : Number} : Line.writes? text = some name →
    SameEffect text s₁ s₂ (s₁.insert name value) (s₂.insert name value)
  | unchanged : SameEffect text s₁ s₂ s₁ s₂

theorem SameEffect.of_alike {first second : Line} (h : Line.Alike text s₁ s₂ first second) :
    SameEffect text s₁ s₂ first.vars second.vars := by
  cases h with
  | assigned hwrites => exact .assigned hwrites
  | unchanged _ => exact .unchanged

theorem entry_alike [Number.Library] (debug : Bool) (h : ∀ name ∈ Line.reads text, s₁[name]? = s₂[name]?) :
    (entry debug text s₁).shown = (entry debug text s₂).shown ∧
      SameEffect text s₁ s₂ (entry debug text s₁).vars (entry debug text s₂).vars := by
  have halike := Line.run_alike h
  obtain ⟨hresult, hlog⟩ := halike.reports_eq
  refine ⟨shown_entry_congr hresult hlog, ?_⟩
  by_cases hkind : kindOf text = .code
  · rw [entry_vars hkind, entry_vars hkind]
    exact SameEffect.of_alike halike
  · rw [entry_of_ne_code hkind, entry_of_ne_code hkind]
    exact .unchanged

theorem SameEffect.getElem?_eq {after₁ after₂ : Variables} (h : SameEffect text s₁ s₂ after₁ after₂) {key : String}
    (hkey : s₁[key]? = s₂[key]?) : after₁[key]? = after₂[key]? := by
  cases h with
  | assigned _ => rw [Variables.getElem?_insert, Variables.getElem?_insert, hkey]
  | unchanged => exact hkey

/-! ### Whole sessions -/

/-- No line reads a name at which the variables differ. -/
def Unread (lines : List String) (s₁ s₂ : Variables) : Prop :=
  ∀ text ∈ lines, ∀ name ∈ Line.reads text, s₁[name]? = s₂[name]?

section

variable [Number.Library]

/-- Two runs of a session that show the same and go on agreeing wherever they agree. -/
structure RunsAlike (debug : Bool) (lines : List String) (s₁ s₂ : Variables) : Prop where
  shown : (entries debug lines s₁).map shown = (entries debug lines s₂).map shown
  vars : ∀ key : String, s₁[key]? = s₂[key]? →
    (run none debug lines s₁).vars[key]? = (run none debug lines s₂).vars[key]?

theorem run_behind (h : RunsAlike debug rest (entry debug text s₁).vars (entry debug text s₂).vars)
    (hshown : (entry debug text s₁).shown = (entry debug text s₂).shown) :
    (entries debug (text :: rest) s₁).map shown = (entries debug (text :: rest) s₂).map shown ∧
      ∀ key : String, (entry debug text s₁).vars[key]? = (entry debug text s₂).vars[key]? →
        (run none debug (text :: rest) s₁).vars[key]? = (run none debug (text :: rest) s₂).vars[key]? := by
  by_cases hexit : kindOf text = .exit
  · have hquiet (vars : Variables) : entry debug text vars = quiet vars := entry_of_ne_code (by simp [hexit])
    rw [entries_exit hexit, entries_exit hexit, run_exit hexit, run_exit hexit, hquiet, hquiet]
    exact ⟨rfl, fun key hkey => hkey⟩
  · rw [entries_cons hexit, entries_cons hexit, vars_run_cons hexit, vars_run_cons hexit, List.map_cons,
      List.map_cons, hshown, h.shown]
    exact ⟨rfl, h.vars⟩

theorem run_of_unread (debug : Bool) (h : Unread lines s₁ s₂) : RunsAlike debug lines s₁ s₂ := by
  induction lines generalizing s₁ s₂ with
  | nil => exact ⟨rfl, fun key hkey => hkey⟩
  | cons text rest ih =>
    obtain ⟨hshown, heffect⟩ := entry_alike debug (h text List.mem_cons_self)
    have hrest : Unread rest (entry debug text s₁).vars (entry debug text s₂).vars :=
      fun other hother name hname =>
        heffect.getElem?_eq (h other (List.mem_cons_of_mem text hother) name hname)
    obtain ⟨hentries, hvars⟩ := run_behind (ih hrest) hshown
    exact ⟨hentries, fun key hkey => hvars key (heffect.getElem?_eq hkey)⟩

theorem Assigns.writes?_eq {name : String} {after : Variables} (h : Assigns text vars name after) :
    Line.writes? text = some name := by
  obtain ⟨right, rest, value, hparse, -, -⟩ := h.stores
  rw [Line.writes?_of_parse hparse]
  rfl

/-- A line that completes an assignment in one run does so in the other, and then they agree at the name. -/
theorem getElem?_eq_of_assigns {name : String} {after : Variables} (hassigns : Assigns text s₁ name after)
    (h : ∀ name ∈ Line.reads text, s₁[name]? = s₂[name]?) :
    (entry debug text s₁).vars[name]? = (entry debug text s₂).vars[name]? := by
  have halike := Line.run_alike h
  have hresult := hassigns.result
  rw [entry_vars hassigns.kind, entry_vars hassigns.kind]
  generalize Line.run text s₁ = first, Line.run text s₂ = second at halike hresult
  cases halike with
  | assigned hwrites =>
    obtain rfl := Option.some.inj (hwrites.symm.trans hassigns.writes?_eq)
    rw [Variables.getElem?_insert, Variables.getElem?_insert, if_pos rfl, if_pos rfl]
  | unchanged hother => exact absurd hresult hother

/-- Under variables that agree on the names it reads, a line has the same value, or the same error, or makes the same assignment, and leaves all other variables alone. So in a session from a line on, what stood before it for names that are literals, and for the name that the line assigns to, is of no consequence unless the line itself reads it. -/
theorem run_independent_of_unread :
    (∀ text s₁ s₂, (∀ name ∈ Line.reads text, s₁[name]? = s₂[name]?) →
      Line.Alike text s₁ s₂ (Line.run text s₁) (Line.run text s₂)) ∧
    ∀ debug text rest s₁ s₂,
      (∀ name : String, s₁[name]? ≠ s₂[name]? → (Number.read? name).isSome ∨
        (∃ after, Assigns text s₁ name after) ∧ name ∉ Line.reads text) →
      (entries debug (text :: rest) s₁).map shown = (entries debug (text :: rest) s₂).map shown ∧
        ∀ name, Number.read? name = none →
          (run none debug (text :: rest) s₁).vars[name]? = (run none debug (text :: rest) s₂).vars[name]? := by
  refine ⟨fun text s₁ s₂ => Line.run_alike, fun debug text rest s₁ s₂ hdiffer => ?_⟩
  have hreads : ∀ name ∈ Line.reads text, s₁[name]? = s₂[name]? := by
    intro name hname
    by_contra hne
    rcases hdiffer name hne with hliteral | ⟨-, hunread⟩
    · simp [Line.read?_of_mem_reads hname] at hliteral
    · exact hunread hname
  obtain ⟨hshown, heffect⟩ := entry_alike debug hreads
  have hafter : ∀ name, Number.read? name = none →
      (entry debug text s₁).vars[name]? = (entry debug text s₂).vars[name]? := by
    intro name hname
    by_cases hsame : s₁[name]? = s₂[name]?
    · exact heffect.getElem?_eq hsame
    · rcases hdiffer name hsame with hliteral | ⟨⟨after, hassigns⟩, -⟩
      · simp [hname] at hliteral
      · exact getElem?_eq_of_assigns hassigns hreads
  have hunread : Unread rest (entry debug text s₁).vars (entry debug text s₂).vars :=
    fun other _ name hname => hafter name (Line.read?_of_mem_reads hname)
  obtain ⟨hentries, hvars⟩ := run_behind (run_of_unread debug hunread) hshown
  exact ⟨hentries, fun name hname => hvars name (hafter name hname)⟩

end

theorem run_independent_of_literal_and_target :
    (entries true ["y = 5 * 2", "y ^ 5"] (((∅ : Variables).insert "5" Number.one).insert "y" Number.one)).map shown =
      (entries true ["y = 5 * 2", "y ^ 5"] ∅).map shown := by
  have hparse : Parser.parse "y = 5 * 2" =
      .ok ⟨.operation "=" (.atom "y") (.operation "*" (.atom "5") (.atom "2")), []⟩ := by decide +kernel
  have hunread : "y" ∉ Line.reads "y = 5 * 2" := by decide +kernel
  have hfive : (Number.read? "5").isSome := by decide +kernel
  have htwo : (Number.read? "2").isSome := by decide +kernel
  have hassigns (vars : Variables) : ∃ after, Assigns "y = 5 * 2" vars "y" after := by
    obtain ⟨value, hvalue⟩ : ∃ value, (Expr.operation "*" (.atom "5") (.atom "2")).evaluate vars = .ok value :=
      Expr.exists_evaluate_operation_iff.mpr
        ⟨rfl, Expr.exists_atomValue_iff.mpr (.inl hfive), Expr.exists_atomValue_iff.mpr (.inl htwo)⟩
    refine ⟨_, by decide +kernel, ?_, _, _, _, hparse, hvalue, rfl⟩
    rw [Line.run_of_assignment hparse, hvalue]
  apply (run_independent_of_unread.2 true "y = 5 * 2" ["y ^ 5"] _ ∅ _).1
  intro name hdiffer
  rw [Variables.getElem?_insert, Variables.getElem?_insert] at hdiffer
  split_ifs at hdiffer with hy hfiveName
  · subst hy
    exact .inr ⟨hassigns _, hunread⟩
  · subst hfiveName
    exact .inl hfive
  · exact absurd rfl hdiffer

end Reckoner.Session
