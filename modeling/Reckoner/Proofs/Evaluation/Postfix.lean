import Reckoner.Proofs.Evaluation.Completion

/-!
# Evaluation on a stack

A tree read in postorder, operands before operators and left before right, is a program for a stack machine. An atom pushes its number, and an operator replaces the two topmost numbers by what it computes. The machine does what evaluation does, whatever lies below on the stack and whatever program follows. So the error that evaluation ends with is that of the first bad node in postorder, and a bad operator is noticed only when all that stands below it is good.
-/

namespace Reckoner

variable [Number.Library] {vars : Variables} {tree : Expr} {e : RuntimeError}

inductive Node where
  | atom (text : String)
  | operator (lexeme : String)
  | misfit (value : Misfit)
deriving DecidableEq, Repr

/-- What is wrong with a node, whatever stands around it. -/
def Node.fault? (vars : Variables) : Node → Option RuntimeError
  | atom text => if (Number.read? text).isSome ∨ text ∈ vars then none else some (.undefinedVariable text)
  | operator lexeme => if (operation? lexeme).isSome then none else some (.badOperator lexeme)
  | misfit value => some (.notExpression value)

namespace Expr

def node : Expr → Node
  | atom text => .atom text
  | operation operator _ _ => .operator operator
  | misfit value => .misfit value

def subtrees : Expr → List Expr
  | operation operator left right => left.subtrees ++ right.subtrees ++ [operation operator left right]
  | leaf => [leaf]

/-- The nodes of a tree, operands before operators and left before right. -/
def postorder (tree : Expr) : List Node := tree.subtrees.map node

omit [Number.Library] in
theorem postorder_operation (operator : String) (left right : Expr) :
    (operation operator left right).postorder = left.postorder ++ right.postorder ++ [.operator operator] := by
  simp [postorder, subtrees, node]

end Expr

namespace Postfix

/-! ### The machine -/

inductive Halt where
  | fault (e : RuntimeError)
  /-- An operator found fewer than two numbers. -/
  | underflow
deriving DecidableEq, Repr

def step (vars : Variables) (stack : List Number) : Node → Except Halt (List Number)
  | .atom text =>
    match (Number.read? text).or vars[text]? with
    | some x => .ok (x :: stack)
    | none => .error (.fault (.undefinedVariable text))
  | .operator lexeme =>
    match stack with
    | b :: a :: below =>
      match operation? lexeme with
      | some compute => .ok (compute a b :: below)
      | none => .error (.fault (.badOperator lexeme))
    | _ => .error .underflow
  | .misfit value => .error (.fault (.notExpression value))

def run (vars : Variables) : List Node → List Number → Except Halt (List Number)
  | [], stack => .ok stack
  | node :: program, stack => (step vars stack node).bind (run vars program)

/-- The stack after an evaluation that found it as given. -/
def settle (stack : List Number) : Except RuntimeError Number → Except Halt (List Number)
  | .ok x => .ok (x :: stack)
  | .error e => .error (.fault e)

theorem run_append (program later : List Node) (stack : List Number) :
    run vars (program ++ later) stack = (run vars program stack).bind (run vars later) := by
  induction program generalizing stack with
  | nil => rfl
  | cons node program ih =>
    rw [List.cons_append, run, run]
    cases step vars stack node with
    | error halt => rfl
    | ok after => exact ih after

theorem run_singleton (node : Node) (stack : List Number) : run vars [node] stack = step vars stack node := by
  rw [run]
  cases step vars stack node <;> rfl

theorem step_atom (text : String) (stack : List Number) :
    step vars stack (.atom text) = settle stack (Expr.atomValue text vars) := by
  unfold Expr.atomValue
  cases hread : Number.read? text with
  | some x => simp [step, hread, settle]
  | none => cases hvalue : vars[text]? <;> simp [step, hread, hvalue, settle]

/-- On the values of its operands an operator does what evaluation does with them. -/
theorem step_operator {operator : String} {left right : Expr} {a b : Number} (hleft : left.evaluate vars = .ok a)
    (hright : right.evaluate vars = .ok b) (stack : List Number) :
    step vars (b :: a :: stack) (.operator operator) =
      settle stack ((Expr.operation operator left right).evaluate vars) := by
  rw [Expr.evaluate_operation_of_ok hleft hright]
  cases hcompute : operation? operator <;> simp [step, hcompute, settle]

theorem run_postorder (tree : Expr) (stack : List Number) :
    run vars tree.postorder stack = settle stack (tree.evaluate vars) := by
  induction tree generalizing stack with
  | atom text => exact (run_singleton _ stack).trans (step_atom text stack)
  | operation operator left right ihLeft ihRight =>
    rw [Expr.postorder_operation, run_append, run_append, ihLeft]
    cases hleft : left.evaluate vars with
    | error e => rw [Expr.evaluate_operation_of_left hleft]; rfl
    | ok a =>
      have hrightRun := ihRight (a :: stack)
      cases hright : right.evaluate vars with
      | error e =>
        rw [hright] at hrightRun
        rw [Expr.evaluate_operation_of_right hleft hright]
        simp [settle, Except.bind, hrightRun]
      | ok b =>
        rw [hright] at hrightRun
        rw [← step_operator hleft hright, ← run_singleton]
        simp [settle, Except.bind, hrightRun]
  | misfit value => rfl

/-! ### The first bad node -/

theorem fault?_atom (text : String) : Node.fault? vars (.atom text) =
    match Expr.atomValue text vars with
    | .ok _ => none
    | .error e => some e := by
  by_cases hdefined : Expr.Defined vars text
  · obtain ⟨x, hx⟩ := Expr.exists_atomValue_iff.mpr hdefined
    rw [hx]
    exact if_pos hdefined
  · cases hvalue : Expr.atomValue text vars with
    | ok x => exact absurd (Expr.exists_atomValue_iff.mp ⟨x, hvalue⟩) hdefined
    | error e =>
      rw [Expr.atomValue_eq_error hvalue]
      exact if_neg hdefined

theorem findSome?_postorder (vars : Variables) (tree : Expr) : tree.postorder.findSome? (Node.fault? vars) =
    match tree.evaluate vars with
    | .ok _ => none
    | .error e => some e := by
  induction tree with
  | atom text =>
    rw [Expr.evaluate, ← fault?_atom]
    simp [Expr.postorder, Expr.subtrees, Expr.node]
  | operation operator left right ihLeft ihRight =>
    rw [Expr.postorder_operation, List.findSome?_append, List.findSome?_append, ihLeft, ihRight]
    cases hleft : left.evaluate vars with
    | error e => rw [Expr.evaluate_operation_of_left hleft]; rfl
    | ok a =>
      cases hright : right.evaluate vars with
      | error e => rw [Expr.evaluate_operation_of_right hleft hright]; rfl
      | ok b =>
        rw [Expr.evaluate_operation_of_ok hleft hright]
        cases hcompute : operation? operator <;> simp [Node.fault?, hcompute]
  | misfit value => rfl

theorem evaluate_eq_error_iff : tree.evaluate vars = .error e ↔ tree.postorder.findSome? (Node.fault? vars) = some e := by
  rw [findSome?_postorder]
  cases tree.evaluate vars <;> simp

theorem forall_fault?_eq_none_iff :
    (∀ node ∈ tree.postorder, node.fault? vars = none) ↔ ∃ x, tree.evaluate vars = .ok x := by
  rw [← List.findSome?_eq_none_iff, findSome?_postorder]
  cases tree.evaluate vars <;> simp

/-- The first of the subtrees whose node is bad. Its operands come before it, so all their nodes are good. -/
structure FirstBad (vars : Variables) (tree bad : Expr) (e : RuntimeError) : Prop where
  first : ∃ before after, tree.subtrees = before ++ bad :: after ∧ ∀ part ∈ before, part.node.fault? vars = none
  fault : bad.node.fault? vars = some e
  operands : ∀ operand ∈ bad.operands, ∀ node ∈ operand.postorder, node.fault? vars = none

theorem FirstBad.within {bad part : Expr} {before after : List Expr} (h : FirstBad vars part bad e)
    (htree : tree.subtrees = before ++ part.subtrees ++ after)
    (hbefore : ∀ part ∈ before, part.node.fault? vars = none) : FirstBad vars tree bad e := by
  obtain ⟨⟨front, back, hpart, hfront⟩, hfault, hoperands⟩ := h
  refine ⟨⟨before ++ front, back ++ after, ?_, ?_⟩, hfault, hoperands⟩
  · rw [htree, hpart]
    simp
  · intro other hother
    exact (List.mem_append.mp hother).elim (hbefore other) (hfront other)

theorem good_subtrees_of_ok {x : Number} (h : tree.evaluate vars = .ok x) :
    ∀ part ∈ tree.subtrees, part.node.fault? vars = none := by
  intro part hpart
  exact forall_fault?_eq_none_iff.mpr ⟨x, h⟩ part.node (List.mem_map_of_mem hpart)

theorem exists_firstBad (h : tree.evaluate vars = .error e) : ∃ bad, FirstBad vars tree bad e := by
  induction tree with
  | atom text =>
    have hfault : (Expr.atom text).node.fault? vars = some e := by
      show Node.fault? vars (.atom text) = some e
      rw [fault?_atom, show Expr.atomValue text vars = .error e from h]
    exact ⟨.atom text, ⟨[], [], rfl, by simp⟩, hfault, by simp [Expr.operands]⟩
  | operation operator left right ihLeft ihRight =>
    have hsubtrees : (Expr.operation operator left right).subtrees =
        left.subtrees ++ right.subtrees ++ [.operation operator left right] := rfl
    cases hleft : left.evaluate vars with
    | error fault =>
      obtain rfl : fault = e := Except.error.inj ((Expr.evaluate_operation_of_left hleft).symm.trans h)
      obtain ⟨bad, hbad⟩ := ihLeft hleft
      have hwhole : (Expr.operation operator left right).subtrees =
          [] ++ left.subtrees ++ (right.subtrees ++ [.operation operator left right]) := by simp [hsubtrees]
      exact ⟨bad, hbad.within hwhole (by simp)⟩
    | ok a =>
      cases hright : right.evaluate vars with
      | error fault =>
        obtain rfl : fault = e := Except.error.inj ((Expr.evaluate_operation_of_right hleft hright).symm.trans h)
        obtain ⟨bad, hbad⟩ := ihRight hright
        exact ⟨bad, hbad.within hsubtrees (good_subtrees_of_ok hleft)⟩
      | ok b =>
        rw [Expr.evaluate_operation_of_ok hleft hright] at h
        have hoperands : ∀ operand ∈ [left, right], ∃ x, operand.evaluate vars = .ok x := by
          simpa using ⟨⟨a, hleft⟩, b, hright⟩
        refine ⟨.operation operator left right, ⟨left.subtrees ++ right.subtrees, [], hsubtrees, ?_⟩, ?_, ?_⟩
        · intro part hpart
          exact (List.mem_append.mp hpart).elim (good_subtrees_of_ok hleft part) (good_subtrees_of_ok hright part)
        · cases hcompute : operation? operator with
          | some compute => simp [hcompute] at h
          | none => simpa [Expr.node, Node.fault?, hcompute] using h
        · exact fun operand hoperand => forall_fault?_eq_none_iff.mpr (hoperands operand hoperand)
  | misfit value => exact ⟨.misfit value, ⟨[], [], rfl, by simp⟩, congrArg some (Except.error.inj h), by simp [Expr.operands]⟩

/-- The machine, started on the postorder of a tree with an empty stack, ends with the value of the tree alone or halts with the error of its evaluation. The error is that of the first bad node in postorder, there is one exactly if there is a bad node, and all nodes below the one reported are good. -/
theorem run_eq_evaluate (tree : Expr) (vars : Variables) :
    run vars tree.postorder [] = settle [] (tree.evaluate vars) ∧
      (∀ e, tree.evaluate vars = .error e ↔ tree.postorder.findSome? (Node.fault? vars) = some e) ∧
      ((∃ e, tree.evaluate vars = .error e) ↔ ∃ node ∈ tree.postorder, (node.fault? vars).isSome) ∧
      ∀ e, tree.evaluate vars = .error e → ∃ bad, FirstBad vars tree bad e := by
  refine ⟨run_postorder tree [], fun e => evaluate_eq_error_iff, ?_, fun e => exists_firstBad⟩
  simp only [evaluate_eq_error_iff, ← Option.isSome_iff_exists, List.findSome?_isSome_iff]

end Postfix

end Reckoner
