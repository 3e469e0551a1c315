import Reckoner.Number.Computed
import Reckoner.Proofs.Evaluation.Completion
import Reckoner.Proofs.Parsing.Substitution

/-!
# Assignment binds a value

An assignment followed by an expression gives what the expression gives with the right side of the assignment, in brackets, in the place of the name. Both sides fail with the same error if they fail: the right side has a value, so replacing the name by it moves no error in front of another.
-/

namespace Reckoner

namespace Expr

variable {name : String} {argument tree : Expr} {vars : Variables} {value : Number}

theorem atomValue_insert (hread : Number.read? name = none) (text : String) :
    atomValue text (vars.insert name value) = if text = name then .ok value else atomValue text vars := by
  unfold atomValue
  rw [Variables.getElem?_insert]
  by_cases hname : name = text
  · rw [if_pos hname, if_pos hname.symm, ← hname, hread]
  · rw [if_neg hname, if_neg (Ne.symm hname)]

section

variable [Number.Library]

theorem evaluate_substitute (hread : Number.read? name = none) (hvalue : argument.evaluate vars = .ok value)
    (tree : Expr) : (tree.substitute name argument).evaluate vars = tree.evaluate (vars.insert name value) := by
  induction tree with
  | atom text =>
    rw [substitute, evaluate, atomValue_insert hread]
    split_ifs
    · exact hvalue
    · rfl
  | operation operator left right ihLeft ihRight => rw [substitute, evaluate, evaluate, ihLeft, ihRight]
  | misfit value => rfl

theorem plain_of_evaluate (hvalue : tree.evaluate vars = .ok value) : tree.Plain := by
  rintro left right rfl
  obtain ⟨hcomputes, -⟩ := exists_evaluate_operation_iff.mp ⟨value, hvalue⟩
  exact absurd hcomputes (by simp [operation?])

theorem Plain.substitute (hplain : tree.Plain) (hvalue : argument.evaluate vars = .ok value) :
    (tree.substitute name argument).Plain := by
  cases tree with
  | atom text =>
    rw [Expr.substitute]
    split_ifs
    · exact plain_of_evaluate hvalue
    · exact hplain
  | operation operator left right =>
    intro newLeft newRight hequal
    obtain rfl : operator = "=" := (Expr.operation.inj hequal).1
    exact hplain left right rfl
  | misfit other => exact hplain

end

end Expr

namespace Line

open Reckoner.Grammar Reckoner.Parser

variable {name inner text : String} {argument tree : Expr} {rest : List Token} {vars : Variables} {value : Number}

theorem parse_assignment (hne : name ≠ "") (hword : ∀ c ∈ name.toList, c.isAlphanum = true)
    (hinner : parse inner = .ok ⟨argument, []⟩) :
    parse (name ++ "=(" ++ inner ++ ")") = .ok ⟨.operation "=" (.atom name) argument, []⟩ := by
  have htarget : Derives .operand (Token.scan name) (.atom name) := by
    rw [Token.scan_of_isAlphanum hword]
    exact derives_of_written (.atom name) ⟨hne, hword⟩
  have hbracket : Derives .operand (Token.opening :: Token.scan inner ++ [Token.closing]) argument :=
    .bracket (derives_of_parse hinner)
  have htokens : Token.scan (name ++ "=(" ++ inner ++ ")") =
      Token.scan name ++ ⟨.operator, "="⟩ :: (Token.opening :: Token.scan inner ++ [Token.closing]) := by
    rw [Token.scan_append, Token.scan_append, Token.scan_append, List.append_assoc, List.append_assoc,
      show Token.scan "=(" = [⟨.operator, "="⟩, Token.opening] by decide,
      show Token.scan ")" = [Token.closing] by decide]
    rfl
  rw [parse, htokens]
  exact parseTokens_of_derives (.assign (htarget.loosen (by decide)) (hbracket.loosen (by decide)))

/-- After an assignment of a text in brackets to a name, a line that is no assignment itself answers what it answers before the assignment with that text in brackets in the place of the name. The answer is a value or the same error of an evaluation. -/
theorem run_assigned_eq_replaced [Number.Library] (hne : name ≠ "") (hword : ∀ c ∈ name.toList, c.isAlphanum = true)
    (hread : Number.read? name = none) (hinner : parse inner = .ok ⟨argument, []⟩)
    (hvalue : argument.evaluate vars = .ok value) (htext : parse text = .ok ⟨tree, rest⟩) (hplain : tree.Plain) :
    (run (name ++ "=(" ++ inner ++ ")") vars).result = .ok none ∧ ∃ outcome : Except RuntimeError Number,
      (run text (run (name ++ "=(" ++ inner ++ ")") vars).vars).result = answer outcome ∧
      (run (Text.replaceWord name ("(" ++ inner ++ ")") text) vars).result = answer outcome := by
  obtain ⟨behind, hreplaced⟩ := parse_replaceWord hword hinner htext
  rw [run_of_assignment (parse_assignment hne hword hinner), hvalue]
  refine ⟨rfl, tree.evaluate (vars.insert name value), ?_, ?_⟩
  · rw [run_of_plain htext hplain]
  · rw [run_of_plain hreplaced (hplain.substitute hvalue), Expr.evaluate_substitute hread hvalue]

theorem run_assigned_eq_replaced_in_power :
    Number.read? "n" = none ∧ parse "3 - x" = .ok ⟨.operation "-" (.atom "3") (.atom "x"), []⟩ ∧
      Text.replaceWord "n" ("(" ++ "3 - x" ++ ")") "2 * n^n1 + (n\t) ) n" = "2*(3 - x)^n1+((3 - x)))(3 - x)" ∧
      (run ("n" ++ "=(" ++ "3 - x" ++ ")") ((∅ : Variables).insert "x" Number.one)).result = .ok none ∧
      ∃ outcome : Except RuntimeError Number,
        (run "2 * n^n1 + (n\t) ) n" (run ("n" ++ "=(" ++ "3 - x" ++ ")")
          ((∅ : Variables).insert "x" Number.one)).vars).result = answer outcome ∧
        (run (Text.replaceWord "n" ("(" ++ "3 - x" ++ ")") "2 * n^n1 + (n\t) ) n")
          ((∅ : Variables).insert "x" Number.one)).result = answer outcome := by
  have hword : ∀ c ∈ "n".toList, c.isAlphanum = true := List.all_eq_true.mp (by decide)
  have hread : Number.read? "n" = none := by decide +kernel
  have hinner : parse "3 - x" = .ok ⟨.operation "-" (.atom "3") (.atom "x"), []⟩ := by decide +kernel
  have htext : parse "2 * n^n1 + (n\t) ) n" = .ok ⟨.operation "+" (.operation "*" (.atom "2")
      (.operation "^" (.atom "n") (.atom "n1"))) (.atom "n"), [Token.closing, ⟨.atom, "n"⟩]⟩ := by decide +kernel
  have hplain : (Expr.operation "+" (.operation "*" (.atom "2") (.operation "^" (.atom "n") (.atom "n1")))
      (.atom "n")).Plain := by simp [Expr.Plain]
  have hthree : Expr.Defined ((∅ : Variables).insert "x" Number.one) "3" := .inl (by decide +kernel)
  have hvariable : Expr.Defined ((∅ : Variables).insert "x" Number.one) "x" := .inr Std.ExtTreeMap.mem_insert_self
  have hcomputes : (operation? "-").isSome := rfl
  obtain ⟨value, hvalue⟩ : ∃ value, (Expr.operation "-" (.atom "3") (.atom "x")).evaluate
      ((∅ : Variables).insert "x" Number.one) = .ok value := Expr.exists_evaluate_operation_iff.mpr
    ⟨hcomputes, Expr.exists_atomValue_iff.mpr hthree, Expr.exists_atomValue_iff.mpr hvariable⟩
  exact ⟨hread, hinner, by decide,
    run_assigned_eq_replaced (by decide) hword hread hinner hvalue htext hplain⟩

end Line

end Reckoner
