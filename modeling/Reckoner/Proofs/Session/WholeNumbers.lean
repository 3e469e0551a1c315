import Reckoner.Comparison
import Reckoner.Proofs.Evaluation.WholeNumbers
import Reckoner.Proofs.Session.Transparency

/-!
# Whole numbers through the whole program

For texts of small whole numbers the rounded arithmetic of the calculator cannot be told from exact arithmetic: not by the number that a text is worth, not by comparing it with the reference, and not by what a session prints.
-/

namespace Reckoner

open Binary Reference

variable {text : String} {tree : Expr} {n : Int} {vars : Variables}

theorem Comparison.calculated_of_whole? [Number.Library] (hparse : Parser.parse text = .ok ⟨tree, []⟩) (hsmall : tree.Small)
    (hn : tree.whole? = some n) : ∃ x, calculated text = .ok x ∧ x.value? = some ((n : ℚ) : Extended) := by
  obtain ⟨x, hevaluate, hvalue⟩ := Expr.exists_evaluate_of_whole? hsmall hn ∅
  refine ⟨x.convert .double, ?_, value?_convert hvalue (by decide) (Number.intCast_mem_values_double (hsmall.root hn))⟩
  rw [calculated, hparse]
  dsimp only
  rw [hevaluate]

namespace Reference

theorem wideOfInt_of_small (hn : n.natAbs ≤ Number.wholeBound) :
    ∃ x, wideOfInt n = .ok x ∧ x.value? = some ((n : ℚ) : Extended) := by
  have hvalue := value?_ofInt (f := .double) (by decide) (Number.intCast_mem_values_double hn)
  refine ⟨_, ?_, hvalue⟩
  rw [wideOfInt, isInfinite_of_value? hvalue, if_neg Bool.false_ne_true]

theorem denotation_of_whole? [Reference.Library] (h : Arithmetic text) (hparse : Parser.parse text = .ok ⟨tree, []⟩)
    (hn : tree.whole? = some n) (hsmall : n.natAbs ≤ Number.wholeBound) :
    ∃ x, denotation .unlimited text = .ok x ∧ x.value? = some ((n : ℚ) : Extended) := by
  obtain ⟨x, hx, hvalue⟩ := wideOfInt_of_small hsmall
  refine ⟨x, ?_, hvalue⟩
  rw [denotation_of_reckon h hparse (Expr.reckon_of_whole? hn), Except.bind, Quantity.result, hx, Except.mapError]

end Reference

namespace Session

open Transcript

theorem kindOf_of_arithmetic (h : Arithmetic text) (hparse : Parser.parse text = .ok ⟨tree, []⟩) : kindOf text = .code := by
  refine kindOf_code (fun c hc hkept => ?_) ?_ ?_
  · obtain hdigit | hmark := h.alphabet c hc
    · exact Text.isBlank_of_isAlphanum (by simp [Char.isAlphanum, hdigit])
    · have hmarks : ∀ c ∈ marks, Token.isSpacing c = false → Text.isBlank c = false :=
        List.all_iff_forall_prop.mp (by decide)
      exact hmarks c hmark hkept
  · intro hnil
    have hscan : Token.scan text = [] := by rw [Token.scan, hnil, List.map_nil]
    rw [Parser.parse, hscan, Parser.parseTokens, Parser.parsePrefix_eq, Parser.parseOperand_nil] at hparse
    cases hparse
  · intro hexit
    have hmem : 'e' ∈ text.toList := (List.mem_filter.mp (hexit ▸ (by decide : 'e' ∈ "exit".toList))).1
    obtain hdigit | hmark := h.alphabet 'e' hmem
    · exact absurd hdigit (by decide)
    · exact absurd hmark (by decide)

theorem whole?_plain (hn : tree.whole? = some n) : tree.Plain := by
  intro left right hequals
  rw [hequals] at hn
  obtain ⟨compute, -, -, hcompute, -⟩ := Expr.whole?_operation hn
  cases hcompute

section

variable [Number.Library]

/-- A line that is no assignment prints its value, behind its tree in debug mode, and leaves the variables to the lines after it. -/
theorem output_of_plain (hkind : kindOf text = .code) (hparse : Parser.parse text = .ok ⟨tree, []⟩) (hplain : tree.Plain)
    {x : Number} (hevaluate : tree.evaluate vars = .ok x) (debug : Bool) (later : List String) :
    (run none debug (text :: later) vars).output =
      (if debug then tree.render ++ "\n" else "") ++ x.write ++ "\n" ++ (run none debug later vars).output := by
  have hline : Line.run text vars = ⟨.ok (some x), vars, (Reading.ofText text).log⟩ := by
    rw [Line.run_of_plain hparse hplain, hevaluate]
    rfl
  have htree : treeText text = tree.render ++ "\n" := by
    rw [treeText, hkind, hparse]
  have hvars : (entry debug text vars).vars = vars := by
    rw [entry_vars hkind, hline]
  have hquiet : (entry false text vars).output = x.write ++ "\n" := by
    rw [entry_code hkind, runCode_false, hline]
    simp [output, printResult]
  have houtput : (entry debug text vars).output = (if debug then tree.render ++ "\n" else "") ++ x.write ++ "\n" := by
    cases debug with
    | false => simpa using hquiet
    | true => simp [(entry_true text vars).1, htree, hquiet, String.append_assoc]
  rw [run_cons (by simp [hkind]), output_append, hvars, houtput]

/-- A text of small whole numbers is worth its exact value, to the calculator and to the reference, and a session prints that value in its own digits. Only zero may have a sign too many. -/
theorem whole_arithmetic_is_exact [Reference.Library] (hwrites : Number.Library.WritesShortest)
    (h : WholeArithmetic text) (hparse : Parser.parse text = .ok ⟨tree, []⟩) (hsmall : tree.Small) : ∃ n : Int, tree.whole? = some n ∧
      (∃ x, Comparison.calculated text = .ok x ∧ x.value? = some ((n : ℚ) : Extended)) ∧
      (∃ y, denotation .unlimited text = .ok y ∧ y.value? = some ((n : ℚ) : Extended)) ∧
      ∀ (debug : Bool) (vars : Variables) (later : List String), ∃ written : String,
        (n ≠ 0 → written = toString n) ∧ (n = 0 → written = "0" ∨ written = "-0") ∧
          (run none debug (text :: later) vars).output =
            (if debug then tree.render ++ "\n" else "") ++ written ++ "\n" ++ (run none debug later vars).output := by
  obtain ⟨n, hn⟩ := exists_whole?_of_parse h hparse
  refine ⟨n, hn, Comparison.calculated_of_whole? hparse hsmall hn,
    denotation_of_whole? h.toArithmetic hparse hn (hsmall.root hn), fun debug vars later => ?_⟩
  obtain ⟨x, hevaluate, hvalue⟩ := Expr.exists_evaluate_of_whole? hsmall hn vars
  obtain ⟨hdigits, hzero⟩ := Number.write_of_value? hwrites hvalue (hsmall.root hn)
  have hkind := kindOf_of_arithmetic h.toArithmetic hparse
  exact ⟨x.write, hdigits, hzero, output_of_plain hkind hparse (whole?_plain hn) hevaluate debug later⟩

end

theorem whole_arithmetic_is_exact_below_bound : Number.Library.WritesShortest ∧
    WholeArithmetic "1024*(16384) - 3 * 7" ∧ ∃ tree, Parser.parse "1024*(16384) - 3 * 7" = .ok ⟨tree, []⟩ ∧ tree.Small ∧
      (∃ x, Comparison.calculated "1024*(16384) - 3 * 7" = .ok x ∧ x.value? = some (((16777195 : Int) : ℚ) : Extended)) ∧
      (run none false ["1024*(16384) - 3 * 7"] ∅).output = "16777195\n" := by
  let product (a b : String) : Expr := .operation "*" (.atom a) (.atom b)
  let tree : Expr := .operation "-" (product "1024" "16384") (product "3" "7")
  have harithmetic : WholeArithmetic "1024*(16384) - 3 * 7" :=
    ⟨⟨List.all_iff_forall_prop.mp (by decide), by decide, by decide⟩, by decide, by decide⟩
  have hparse : Parser.parse "1024*(16384) - 3 * 7" = .ok ⟨tree, []⟩ := by decide +kernel
  have hsmall : tree.Small := by
    have hall : ∀ part ∈ tree.subtrees, ∀ n ∈ part.whole?, n.natAbs ≤ Number.wholeBound := by decide +kernel
    exact fun part hpart n hn => hall part hpart n hn
  have hvalue : tree.whole? = some 16777195 := by decide +kernel
  obtain ⟨n, hn, hcalculated, -, hprinted⟩ := whole_arithmetic_is_exact Number.writesShortest harithmetic hparse hsmall
  obtain rfl := Option.some.inj (hvalue.symm.trans hn)
  refine ⟨Number.writesShortest, harithmetic, tree, hparse, hsmall, hcalculated, ?_⟩
  obtain ⟨written, hdigits, -, houtput⟩ := hprinted false ∅ []
  rw [houtput, hdigits (by decide)]
  decide

end Session

end Reckoner
