import Reckoner.Proofs.Evaluation.Completion

/-!
# What a line reads and writes

A line reads the names among the atoms that it evaluates, and writes the name that it assigns to. Both can be read off its tree. Under variables that agree on the names read, a line ends in the same way, and what it does to the variables is the same: one insertion, or nothing.
-/

namespace Reckoner

variable {s₁ s₂ : Variables} {text : String} {tree : Expr}

namespace Expr

/-- The atoms of a tree that are no literals. -/
def names (tree : Expr) : List String := tree.atoms.filter fun text => (Number.read? text).isNone

def target? : Expr → Option String
  | operation operator (atom name) _ => if operator = "=" then some name else none
  | _ => none

/-- What a line has to evaluate: the right side of an assignment to a name, and all of any other tree. -/
def demanded (tree : Expr) : Expr := if tree.target?.isSome then tree.evaluated else tree

theorem demanded_assignment (name : String) (right : Expr) : (operation "=" (atom name) right).demanded = right := rfl

theorem Plain.demanded_eq (h : tree.Plain) : tree.demanded = tree := by
  rw [demanded, h.evaluated_eq, ite_self]

theorem atomValue_congr (h : Number.read? text = none → s₁[text]? = s₂[text]?) :
    atomValue text s₁ = atomValue text s₂ := by
  unfold atomValue
  cases hread : Number.read? text with
  | some x => rfl
  | none => rw [h hread]

theorem evaluate_congr [Number.Library] (h : ∀ name ∈ tree.names, s₁[name]? = s₂[name]?) : tree.evaluate s₁ = tree.evaluate s₂ := by
  induction tree with
  | atom text =>
    apply atomValue_congr
    intro hread
    exact h text (by simp [names, atoms, hread])
  | operation operator left right ihLeft ihRight =>
    have hnames : (operation operator left right).names = left.names ++ right.names := List.filter_append ..
    rw [hnames] at h
    rw [evaluate, evaluate, ihLeft fun name hname => h name (List.mem_append_left _ hname),
      ihRight fun name hname => h name (List.mem_append_right _ hname)]
  | misfit value => rfl

end Expr

namespace Line

def reads (text : String) : List String :=
  match Parser.parse text with
  | .ok parsed => parsed.tree.demanded.names
  | .error _ => []

def writes? (text : String) : Option String :=
  match Parser.parse text with
  | .ok parsed => parsed.tree.target?
  | .error _ => none

theorem reads_of_parse {rest : List Token} (h : Parser.parse text = .ok ⟨tree, rest⟩) :
    reads text = tree.demanded.names := by
  rw [reads, h]

theorem writes?_of_parse {rest : List Token} (h : Parser.parse text = .ok ⟨tree, rest⟩) :
    writes? text = tree.target? := by
  rw [writes?, h]

theorem read?_of_mem_reads {name : String} (h : name ∈ reads text) : Number.read? name = none := by
  unfold reads at h
  split at h
  · simpa [Expr.names] using (List.mem_filter.mp h).2
  · cases h

/-- A line run under two assignments of variables ends in the same way, and has the same effect on the variables. -/
inductive Alike (text : String) (s₁ s₂ : Variables) : Line → Line → Prop
  | assigned {name : String} {value : Number} {log : List LogEntry} : writes? text = some name →
    Alike text s₁ s₂ ⟨.ok none, s₁.insert name value, log⟩ ⟨.ok none, s₂.insert name value, log⟩
  | unchanged {result : Except LineError (Option Number)} {log : List LogEntry} : result ≠ .ok none →
    Alike text s₁ s₂ ⟨result, s₁, log⟩ ⟨result, s₂, log⟩

theorem Alike.reports_eq {first second : Line} (h : Alike text s₁ s₂ first second) :
    first.result = second.result ∧ first.log = second.log := by
  cases h with
  | assigned _ => exact ⟨rfl, rfl⟩
  | unchanged _ => exact ⟨rfl, rfl⟩

theorem answer_ne (outcome : Except RuntimeError Number) : answer outcome ≠ .ok none := by
  cases outcome <;> simp [answer]

theorem run_alike [Number.Library] (h : ∀ name ∈ reads text, s₁[name]? = s₂[name]?) :
    Alike text s₁ s₂ (run text s₁) (run text s₂) := by
  cases hparse : Parser.parse text with
  | error d =>
    rw [run_of_error hparse, run_of_error hparse]
    exact .unchanged (by simp)
  | ok parsed =>
    obtain ⟨tree, rest⟩ := parsed
    rw [reads_of_parse hparse] at h
    rcases tree.plain_or_equals with hplain | ⟨target, right, rfl⟩
    · rw [hplain.demanded_eq] at h
      rw [run_of_plain hparse hplain, run_of_plain hparse hplain, Expr.evaluate_congr h]
      exact .unchanged (answer_ne _)
    · by_cases hname : ∃ name, target = .atom name
      · obtain ⟨name, rfl⟩ := hname
        rw [Expr.demanded_assignment] at h
        rw [run_of_assignment hparse, run_of_assignment hparse, Expr.evaluate_congr h]
        cases right.evaluate s₂ with
        | error e => exact .unchanged (by simp)
        | ok value => exact .assigned (by rw [writes?_of_parse hparse]; rfl)
      · rw [run_of_untargeted hparse (not_exists.mp hname), run_of_untargeted hparse (not_exists.mp hname)]
        exact .unchanged (by simp)

end Line

end Reckoner
