import Reckoner.Line

/-!
# What can become of a line

A line ends in one of five ways, and `Line.run_ends` says all there is to say about each: what was read and evaluated, the result, the variables and the log. Everything proved about lines, and about sessions made of them, starts from these five ways; none of it opens the definition of a line again.
-/

namespace Reckoner

variable {text : String} {vars : Variables} {tree : Expr} {rest : List Token}

theorem Variables.getElem?_insert (vars : Variables) (name key : String) (value : Number) :
    (vars.insert name value)[key]? = if name = key then some value else vars[key]? := by
  simp [Std.ExtTreeMap.getElem?_insert]

/-! ### Reading -/

theorem Reading.outcome_of_error {d : Diagnostic} (h : Parser.parse text = .error d) :
    (Reading.ofText text).outcome = .error d := by
  rw [Parser.parse] at h
  simp only [Reading.ofText, Reading.ofTokens, h]

theorem Reading.log_of_error {d : Diagnostic} (h : Parser.parse text = .error d) :
    (Reading.ofText text).log = [.tokenized text (Token.scan text)] := by
  rw [Parser.parse] at h
  simp only [Reading.ofText, Reading.ofTokens, h]

theorem Reading.outcome_of_ok (h : Parser.parse text = .ok ⟨tree, rest⟩) :
    (Reading.ofText text).outcome = .ok tree := by
  rw [Parser.parse] at h
  simp only [Reading.ofText, Reading.ofTokens, h]

def Reading.block (text : String) (tree : Expr) (rest : List Token) : List LogEntry :=
  let plain := Token.spell (Token.scan text)
  let leftOver := if rest = [] then [] else [LogEntry.ignored rest.length plain]
  .tokenized text (Token.scan text) :: leftOver ++ [.parsed plain tree]

theorem Reading.log_of_ok (h : Parser.parse text = .ok ⟨tree, rest⟩) :
    (Reading.ofText text).log = Reading.block text tree rest := by
  rw [Parser.parse] at h
  simp only [Reading.ofText, Reading.ofTokens, h, Reading.block, List.cons_append]

namespace Expr

/-- The part of a tree that a line evaluates: all of it, but of an assignment the right side. -/
def evaluated : Expr → Expr
  | operation operator left right => if operator = "=" then right else operation operator left right
  | tree => tree

@[simp] theorem evaluated_equals (left right : Expr) : (operation "=" left right).evaluated = right := rfl

def Plain (tree : Expr) : Prop := ∀ left right, tree ≠ operation "=" left right

theorem plain_or_equals (tree : Expr) : tree.Plain ∨ ∃ left right, tree = operation "=" left right := by
  by_cases hequals : ∃ left right, tree = operation "=" left right
  · exact .inr hequals
  · exact .inl fun left right htree => hequals ⟨left, right, htree⟩

theorem Plain.evaluated_eq (h : tree.Plain) : tree.evaluated = tree := by
  cases tree with
  | operation operator left right =>
    refine if_neg fun hequals => ?_
    rw [hequals] at h
    exact h left right rfl
  | atom text => rfl
  | misfit value => rfl

theorem Plain.assignment?_eq (h : tree.Plain) : tree.assignment? = .ok none := by
  cases tree with
  | operation operator left right =>
    refine if_neg fun hequals => ?_
    rw [hequals] at h
    exact h left right rfl
  | atom text => rfl
  | misfit value => rfl

theorem assignment?_of_target {target right : Expr} (h : ∀ name, target ≠ atom name) :
    (operation "=" target right).assignment? = .error (.badTarget target) := by
  cases target with
  | atom name => exact absurd rfl (h name)
  | operation operator left right => rfl
  | misfit value => rfl

end Expr

namespace Line

variable [Number.Library]

/-- The ways a line can end, with what it was read as. -/
inductive Ends (text : String) (vars : Variables) : Line → Prop
  /-- The text does not parse. -/
  | unread {d : Diagnostic} : Parser.parse text = .error d →
    Ends text vars ⟨.error (.diagnostic d), vars, (Reading.ofText text).log⟩
  /-- The text is an assignment to what is no name. -/
  | untargeted {target right : Expr} {rest : List Token} : (∀ name, target ≠ .atom name) →
    Parser.parse text = .ok ⟨.operation "=" target right, rest⟩ →
    Ends text vars ⟨.error (.runtime (.badTarget target)), vars, (Reading.ofText text).log⟩
  /-- The evaluation fails, also that of the right side of an assignment. -/
  | failed {tree : Expr} {rest : List Token} {e : RuntimeError} : Parser.parse text = .ok ⟨tree, rest⟩ →
    tree.evaluated.evaluate vars = .error e →
    Ends text vars ⟨.error (.runtime e), vars, (Reading.ofText text).log⟩
  /-- An assignment is complete. -/
  | assigned {name : String} {right : Expr} {rest : List Token} {value : Number} :
    Parser.parse text = .ok ⟨.operation "=" (.atom name) right, rest⟩ → right.evaluate vars = .ok value →
    Ends text vars ⟨.ok none, vars.insert name value, (Reading.ofText text).log ++ [.assigned name value]⟩
  /-- An expression has a value. -/
  | evaluated {tree : Expr} {rest : List Token} {value : Number} : Parser.parse text = .ok ⟨tree, rest⟩ →
    tree.Plain → tree.evaluate vars = .ok value →
    Ends text vars ⟨.ok (some value), vars, (Reading.ofText text).log⟩

theorem run_of_error {d : Diagnostic} (h : Parser.parse text = .error d) :
    run text vars = ⟨.error (.diagnostic d), vars, (Reading.ofText text).log⟩ := by
  rw [run, ofReading, Reading.outcome_of_error h]

theorem run_of_ok (h : Parser.parse text = .ok ⟨tree, rest⟩) :
    run text vars = ⟨(ofTree tree vars).result, (ofTree tree vars).vars,
      (Reading.ofText text).log ++ (ofTree tree vars).log⟩ := by
  rw [run, ofReading, Reading.outcome_of_ok h]

def answer : Except RuntimeError Number → Except LineError (Option Number)
  | .ok value => .ok (some value)
  | .error e => .error (.runtime e)

theorem run_of_plain (h : Parser.parse text = .ok ⟨tree, rest⟩) (hplain : tree.Plain) :
    run text vars = ⟨answer (tree.evaluate vars), vars, (Reading.ofText text).log⟩ := by
  rw [run_of_ok h]
  cases hvalue : tree.evaluate vars <;> simp [ofTree, hplain.assignment?_eq, hvalue, answer]

theorem run_of_untargeted {target right : Expr} (h : Parser.parse text = .ok ⟨.operation "=" target right, rest⟩)
    (htarget : ∀ name, target ≠ .atom name) :
    run text vars = ⟨.error (.runtime (.badTarget target)), vars, (Reading.ofText text).log⟩ := by
  rw [run_of_ok h]
  simp [ofTree, Expr.assignment?_of_target htarget]

theorem run_of_assignment {name : String} {right : Expr}
    (h : Parser.parse text = .ok ⟨.operation "=" (.atom name) right, rest⟩) :
    run text vars = match right.evaluate vars with
      | .ok value => ⟨.ok none, vars.insert name value, (Reading.ofText text).log ++ [.assigned name value]⟩
      | .error e => ⟨.error (.runtime e), vars, (Reading.ofText text).log⟩ := by
  rw [run_of_ok h]
  cases hvalue : right.evaluate vars <;> simp [ofTree, Expr.assignment?, hvalue]

theorem run_ends (text : String) (vars : Variables) : Ends text vars (run text vars) := by
  cases hparse : Parser.parse text with
  | error d =>
    rw [run_of_error hparse]
    exact .unread hparse
  | ok parsed =>
    obtain ⟨tree, rest⟩ := parsed
    rcases tree.plain_or_equals with hplain | ⟨target, right, rfl⟩
    · rw [run_of_plain hparse hplain]
      cases hvalue : tree.evaluate vars with
      | error e => exact .failed hparse (by rwa [hplain.evaluated_eq])
      | ok value => exact .evaluated hparse hplain hvalue
    · by_cases hname : ∃ name, target = .atom name
      · obtain ⟨name, rfl⟩ := hname
        rw [run_of_assignment hparse]
        cases hvalue : right.evaluate vars with
        | error e => exact .failed hparse hvalue
        | ok value => exact .assigned hparse hvalue
      · rw [run_of_untargeted hparse (not_exists.mp hname)]
        exact .untargeted (not_exists.mp hname) hparse

end Line

end Reckoner
