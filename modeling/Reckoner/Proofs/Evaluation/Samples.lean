import Reckoner.Comparison
import Reckoner.Sample
import Reckoner.Proofs.Decimal.Writing
import Reckoner.Proofs.Evaluation.Literals
import Reckoner.Proofs.Parsing.Joining

/-!
# Samples are well formed

The text of a sample is read without anything left over and evaluates to a number, whatever the outcomes it is drawn from. Because of the brackets left out its tree is in general not the sample, but it has the same yield: the numbers drawn, in order, and the operators between them. How many numbers there are and that no other operators come up is shown along the drawing.
-/

open Reckoner.Grammar

namespace Reckoner

namespace Sample

variable {sample left right : Sample} {operator : Char} {text : String} {tree : Expr}

/-! ### Texts of samples -/

def toExpr : Sample → Expr
  | number n => .atom (toString n)
  | joined left _ operator right _ => .operation (String.singleton operator) left.toExpr right.toExpr

theorem toList_toString (n : Nat) : (toString n).toList = Nat.toDigits 10 n := Nat.toList_repr

theorem isDigit_of_mem_toString {n : Nat} {c : Char} (hc : c ∈ (toString n).toList) : c.isDigit = true := by
  rw [toList_toString] at hc
  exact Nat.isDigit_of_mem_toDigits (by decide) (by decide) hc

theorem spellable_number (n : Nat) : (number n).toExpr.Spellable := by
  refine ⟨fun hempty => ?_, fun c hc => Literal.isAlphanum_of_isDigit (isDigit_of_mem_toString hc)⟩
  have hchars := toList_toString n
  rw [hempty] at hchars
  exact Nat.toDigits_ne_nil hchars.symm

theorem scan_operator (hknown : (Binding.of? text).isSome) : Token.scan text = [⟨.operator, text⟩] := by
  obtain ⟨powers, hpowers⟩ := Option.isSome_iff_exists.mp hknown
  rcases binding_cases hpowers with
    ⟨rfl, -⟩ | ⟨rfl | rfl, -⟩ | ⟨rfl | rfl, -⟩ | ⟨rfl | rfl, -⟩ | ⟨rfl, -⟩ <;> decide

theorem derives_bracket (h : Derives .assignment (Token.scan text) tree) (wanted : Bool) :
    Derives .assignment (Token.scan (bracket wanted text)) tree := by
  cases wanted with
  | false => exact h
  | true =>
    have hscan : Token.scan (bracket true text) = Token.opening :: Token.scan text ++ [Token.closing] := by
      have hbrackets : Token.scan "(" = [Token.opening] ∧ Token.scan ")" = [Token.closing] := by decide
      rw [bracket, if_pos rfl, Token.scan_append, Token.scan_append, hbrackets.1, hbrackets.2]
      rfl
    rw [hscan]
    exact (Derives.bracket h).loosen (Nat.zero_le _)

/-- The text of a sample is an expression whose tree has the yield of the sample. -/
theorem exists_derives (h : sample.toExpr.Spellable) :
    ∃ tree, Derives .assignment (Token.scan sample.text) tree ∧ tree.yield = sample.toExpr.yield := by
  induction sample with
  | number n =>
    have hscan := Token.scan_of_isAlphanum h.2
    refine ⟨.atom (toString n), ?_, rfl⟩
    rw [text, hscan]
    exact (derives_of_written (.atom (toString n)) h).loosen (Nat.zero_le _)
  | joined left leftBracketed operator right rightBracketed ihLeft ihRight =>
    obtain ⟨hknown, hleft, hright⟩ := h
    obtain ⟨leftTree, hleftDerives, hleftYield⟩ := ihLeft hleft
    obtain ⟨rightTree, hrightDerives, hrightYield⟩ := ihRight hright
    obtain ⟨tree, hderives, hyield⟩ :=
      (derives_bracket hleftDerives leftBracketed).exists_join hknown (derives_bracket hrightDerives rightBracketed)
    refine ⟨tree, ?_, ?_⟩
    · have hspace : Token.scan " " = [] := by decide
      rw [text, Token.scan_append, Token.scan_append, Token.scan_append, Token.scan_append, hspace,
        scan_operator hknown]
      simpa using hderives
    · rw [hyield, toExpr, Expr.yield, Expr.yield, hleftYield, hrightYield]

/-! ### Tapes -/

namespace Tape

variable {count limit : Nat}

def advance (tape : Tape) (count : Nat) : Tape := { tape with position := tape.position + count }

def upcoming : Tape → Nat → List Nat
  | _, 0 => []
  | tape, count + 1 => tape.next.1 :: tape.next.2.upcoming count

theorem advance_advance (tape : Tape) (m n : Nat) : (tape.advance m).advance n = tape.advance (m + n) := by
  simp only [advance, Nat.add_assoc]

theorem upcoming_add (tape : Tape) (m n : Nat) :
    tape.upcoming (m + n) = tape.upcoming m ++ (tape.advance m).upcoming n := by
  induction m generalizing tape with
  | zero =>
    rw [Nat.zero_add]
    rfl
  | succ m ih =>
    have hnext : tape.next.2.advance m = tape.advance (m + 1) := by rw [Nat.add_comm, ← advance_advance]; rfl
    rw [Nat.add_right_comm, upcoming, upcoming, ih, hnext, List.cons_append]

theorem lt_of_mem_upcoming {tape : Tape} (hlimit : 0 < limit) (houtcomes : ∀ n ∈ tape.outcomes, n < limit) :
    ∀ n ∈ tape.upcoming count, n < limit := by
  induction count generalizing tape with
  | zero => simp [upcoming]
  | succ count ih =>
    intro n hn
    obtain rfl | hn := List.mem_cons.mp hn
    · rw [next, List.getD_eq_getElem?_getD]
      cases houtcome : tape.outcomes[tape.position % tape.outcomes.length]? with
      | none => exact hlimit
      | some outcome => exact houtcomes outcome (List.mem_of_getElem? houtcome)
    · have hnext : ∀ n ∈ tape.next.2.outcomes, n < limit := houtcomes
      exact ih hnext n hn

theorem upcoming_eq_drop {outcomes : List Nat} {position : Nat} (hcount : position + count = outcomes.length) :
    (⟨outcomes, position⟩ : Tape).upcoming count = outcomes.drop position := by
  induction count generalizing position with
  | zero => rw [upcoming, List.drop_eq_nil_of_le (by omega)]
  | succ count ih =>
    have hlt : position < outcomes.length := by omega
    have hbehind : position + 1 + count = outcomes.length := by omega
    have hfirst : (⟨outcomes, position⟩ : Tape).next.1 = outcomes[position] := by
      rw [next, Nat.mod_eq_of_lt hlt, List.getD_eq_getElem?_getD, List.getElem?_eq_getElem hlt, Option.getD_some]
    rw [List.drop_eq_getElem_cons hlt, upcoming, hfirst, ← ih hbehind]
    rfl

/-- Every sequence of outcomes is what some tape gives, so what holds for all tapes holds for all sequences. -/
theorem upcoming_outcomes (outcomes : List Nat) : (⟨outcomes, 0⟩ : Tape).upcoming outcomes.length = outcomes :=
  upcoming_eq_drop (Nat.zero_add _)

end Tape

/-! ### Drawing -/

/-- A sample as drawn to a depth, with the tape of numbers before and after. -/
structure Drawn (depth : Nat) (before : Tape) (sample : Sample) (after : Tape) : Prop where
  atoms : sample.toExpr.atoms = (before.upcoming sample.toExpr.atoms.length).map toString
  advanced : after = before.advance sample.toExpr.atoms.length
  length_le : sample.toExpr.atoms.length ≤ 2 ^ depth
  operators : ∀ sign ∈ sample.toExpr.operators, sign ∈ Sample.operators.map String.singleton

theorem drawn_number (depth : Nat) (before : Tape) : Drawn depth before (number before.next.1) before.next.2 where
  atoms := rfl
  advanced := rfl
  length_le := Nat.one_le_two_pow
  operators := by simp [toExpr, Expr.operators]

theorem Drawn.joined {depth : Nat} {before between after : Tape} (hleft : Drawn depth before left between)
    (hright : Drawn depth between right after) (hoperator : operator ∈ Sample.operators)
    (leftBracketed rightBracketed : Bool) :
    Drawn (depth + 1) before (joined left leftBracketed operator right rightBracketed) after where
  atoms := by
    have hright := hright.atoms
    rw [hleft.advanced] at hright
    rw [toExpr, Expr.atoms, List.length_append, Tape.upcoming_add, List.map_append, ← hleft.atoms, ← hright]
  advanced := by
    rw [hright.advanced, hleft.advanced, Tape.advance_advance, toExpr, Expr.atoms, List.length_append]
  length_le := by
    have hleft := hleft.length_le
    have hright := hright.length_le
    rw [toExpr, Expr.atoms, List.length_append, Nat.pow_succ]
    omega
  operators := by
    intro sign hsign
    obtain rfl | hsign := List.mem_cons.mp hsign
    · exact List.mem_map_of_mem hoperator
    · exact (List.mem_append.mp hsign).elim (hleft.operators sign) (hright.operators sign)

theorem drawOperator_mem (chance : Chance) : (drawOperator chance).1 ∈ operators := by
  rw [drawOperator]
  dsimp only
  rw [List.getD_eq_getElem?_getD]
  cases hchoice : operators[chance.choices.next.1]? with
  | none => decide
  | some operator => exact List.mem_of_getElem? hchoice

theorem draw_succ_of_ends {depth : Nat} {chance : Chance} (hends : (rollBelow 30 chance).1 = true) :
    draw (depth + 1) chance = drawNumber (rollBelow 30 chance).2 := by
  rw [draw]
  change (if (rollBelow 30 chance).1 = true then _ else _ : StateM Chance Sample) (rollBelow 30 chance).2 = _
  rw [if_pos hends]

theorem draw_succ_of_not_ends {depth : Nat} {chance : Chance} (hends : ¬(rollBelow 30 chance).1 = true) :
    draw (depth + 1) chance =
      let left := draw depth (rollBelow 30 chance).2
      let right := draw depth left.2
      let leftBracketed := rollBelow 20 right.2
      let rightBracketed := rollBelow 20 leftBracketed.2
      let operator := drawOperator rightBracketed.2
      (Sample.joined left.1 leftBracketed.1 operator.1 right.1 rightBracketed.1, operator.2) := by
  rw [draw]
  change (if (rollBelow 30 chance).1 = true then _ else _ : StateM Chance Sample) (rollBelow 30 chance).2 = _
  rw [if_neg hends]
  rfl

theorem drawn_draw (depth : Nat) (chance : Chance) :
    Drawn depth chance.numbers (draw depth chance).1 (draw depth chance).2.numbers := by
  induction depth generalizing chance with
  | zero => exact drawn_number 0 chance.numbers
  | succ depth ih =>
    by_cases hends : (rollBelow 30 chance).1 = true
    · rw [draw_succ_of_ends hends]
      exact drawn_number (depth + 1) chance.numbers
    · rw [draw_succ_of_not_ends hends]
      have hleft := ih (rollBelow 30 chance).2
      have hright := ih (draw depth (rollBelow 30 chance).2).2
      exact hleft.joined hright (drawOperator_mem _) _ _

/-! ### Samples as code -/

theorem spellable_of_operators
    (hoperators : ∀ sign ∈ sample.toExpr.operators, sign ∈ Sample.operators.map String.singleton) :
    sample.toExpr.Spellable := by
  have hknown : ∀ sign ∈ Sample.operators.map String.singleton, (Binding.of? sign).isSome := by decide
  induction sample with
  | number n => exact spellable_number n
  | joined left leftBracketed operator right rightBracketed ihLeft ihRight =>
    refine ⟨hknown _ (hoperators _ List.mem_cons_self), ihLeft fun sign hsign => ?_, ihRight fun sign hsign => ?_⟩
    · exact hoperators sign (List.mem_cons_of_mem _ (List.mem_append_left _ hsign))
    · exact hoperators sign (List.mem_cons_of_mem _ (List.mem_append_right _ hsign))

theorem isSome_read?_toString (n : Nat) : (Number.read? (toString n)).isSome := by
  obtain ⟨hne, hword⟩ := spellable_number n
  refine (Number.isSome_read?_iff hne hword).mpr (.whole ?_ fun c => isDigit_of_mem_toString)
  rw [toList_toString]
  exact Nat.toDigits_ne_nil

theorem head?_toString {n : Nat} (hhead : (toString n).toList.head? = some '0') : n = 0 := by
  rw [toList_toString] at hhead
  exact Nat.eq_zero_of_not_pos fun hpos => Decimal.head?_toDigits hpos hhead

theorem computable_of_numbers (hsigns : ∀ sign ∈ tree.operators, sign ∈ Sample.operators.map String.singleton)
    (hwords : ∀ word ∈ tree.atoms, ∃ n : Nat, word = toString n) (vars : Variables) : tree.Computable vars := by
  have hidle : "." ∉ Sample.operators.map String.singleton ∧ "=" ∉ Sample.operators.map String.singleton := by decide
  refine ⟨fun hpoint => hidle.1 (hsigns _ hpoint), fun hequals => hidle.2 (hsigns _ hequals), fun word hword => ?_⟩
  obtain ⟨n, rfl⟩ := hwords word hword
  exact .inl (isSome_read?_toString n)

section

variable [Number.Library]

theorem exists_calculated {rest : List Token} (hparse : Parser.parse text = .ok ⟨tree, rest⟩)
    (hcomputable : tree.Computable ∅) : ∃ x, Comparison.calculated text = .ok x := by
  obtain ⟨x, hx⟩ := (Expr.exists_evaluate_iff (Parser.spellable_of_parse hparse)).mpr hcomputable
  refine ⟨x.convert .double, ?_⟩
  rw [Comparison.calculated, hparse]
  dsimp only
  rw [hx]

/-- Whatever the outcomes, the text of a drawn sample is read to its end, as a tree of the numbers drawn, in order, joined by the four operators, and it evaluates to a number. At least one number is drawn and at most as many as the depth leaves room for. -/
theorem parse_draw (depth : Nat) (chance : Chance) (hnumbers : ∀ n ∈ chance.numbers.outcomes, n < 100) :
    ∃ tree, Parser.parse (draw depth chance).1.text = .ok ⟨tree, []⟩ ∧
      1 ≤ tree.atoms.length ∧ tree.atoms.length ≤ 2 ^ depth ∧
      tree.atoms = (chance.numbers.upcoming tree.atoms.length).map toString ∧
      (draw depth chance).2.numbers = chance.numbers.advance tree.atoms.length ∧
      (∀ word ∈ tree.atoms, ∃ n < 100, word = toString n ∧ (word.toList.head? = some '0' → word = "0")) ∧
      (∀ sign ∈ tree.operators, sign ∈ Sample.operators.map String.singleton) ∧
      tree.operators.length + 1 = tree.atoms.length ∧
      ∃ x, Comparison.calculated (draw depth chance).1.text = .ok x := by
  have hdrawn := drawn_draw depth chance
  obtain ⟨tree, hderives, hyield⟩ := exists_derives (spellable_of_operators hdrawn.operators)
  have hparse : Parser.parse (draw depth chance).1.text = .ok ⟨tree, []⟩ := Parser.parseTokens_of_derives hderives
  have hatoms := Expr.atoms_eq_of_yield_eq hyield
  have hlength := (Parser.spellable_of_parse hparse).length_atoms
  have hsigns : ∀ sign ∈ tree.operators, sign ∈ Sample.operators.map String.singleton := fun sign hsign =>
    hdrawn.operators sign ((Expr.operators_perm_of_yield_eq hyield).mem_iff.mp hsign)
  obtain ⟨hupcoming, hadvanced, hle, -⟩ := hdrawn
  rw [← hatoms] at hupcoming hadvanced hle
  have hwords : ∀ word ∈ tree.atoms, ∃ n < 100, word = toString n ∧ (word.toList.head? = some '0' → word = "0") := by
    intro word hword
    rw [hupcoming] at hword
    obtain ⟨n, hn, rfl⟩ := List.mem_map.mp hword
    exact ⟨n, Tape.lt_of_mem_upcoming (by decide) hnumbers n hn, rfl, fun hhead => by rw [head?_toString hhead]; rfl⟩
  have hcomputable : tree.Computable ∅ := by
    refine computable_of_numbers hsigns (fun word hword => ?_) ∅
    obtain ⟨n, -, hn, -⟩ := hwords word hword
    exact ⟨n, hn⟩
  exact ⟨tree, hparse, by omega, hle, hupcoming, hadvanced, hwords, hsigns, hlength.symm,
    exists_calculated hparse hcomputable⟩

end

theorem parse_draw_regrouped :
    (∀ n ∈ [7, 0, 12], n < 100) ∧
      (draw 2 ⟨⟨[50, 50, 50, 50, 10, 50, 50], 0⟩, ⟨[7, 0, 12], 0⟩, ⟨[1, 2], 0⟩⟩).1 =
        joined (joined (number 7) false '-' (number 0) false) false '*' (number 12) false ∧
      (∃ tree, Parser.parse "7 - 0 * 12" = .ok ⟨tree, []⟩ ∧ tree.atoms.length ≤ 2 ^ 2 ∧
        tree.atoms = ((⟨[7, 0, 12], 0⟩ : Tape).upcoming tree.atoms.length).map toString ∧
        tree.operators.length + 1 = tree.atoms.length) ∧
      ∃ x, Comparison.calculated "7 - 0 * 12" = .ok x := by
  let chance : Chance := ⟨⟨[50, 50, 50, 50, 10, 50, 50], 0⟩, ⟨[7, 0, 12], 0⟩, ⟨[1, 2], 0⟩⟩
  have hnumbers : ∀ n ∈ chance.numbers.outcomes, n < 100 := by decide
  have hsample : (draw 2 chance).1 =
      joined (joined (number 7) false '-' (number 0) false) false '*' (number 12) false := by decide +kernel
  have htext : (draw 2 chance).1.text = "7 - 0 * 12" := by
    rw [hsample]
    decide +kernel
  obtain ⟨tree, hparse, -, hle, hatoms, -, -, -, hcount, hvalue⟩ := parse_draw 2 chance hnumbers
  rw [htext] at hparse hvalue
  exact ⟨hnumbers, hsample, ⟨tree, hparse, hle, hatoms, hcount⟩, hvalue⟩

end Sample

end Reckoner
