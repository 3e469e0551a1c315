import Reckoner.Proofs.Parsing.Derivation

/-!
# Infix form

A tree is written with its operators between their operands. Which operands must stand in brackets is said by the powers of the operators at their roots alone; more brackets do no harm, and spacing means nothing. Parsing such a text gives back the tree.
-/

namespace Reckoner.Expr

/-- The atoms are words of ASCII letters and digits, and the operators have powers. -/
def Spellable : Expr → Prop
  | atom text => text ≠ "" ∧ ∀ c ∈ text.toList, c.isAlphanum = true
  | operation operator left right => (Binding.of? operator).isSome ∧ left.Spellable ∧ right.Spellable
  | misfit _ => False

def root? : Expr → Option Binding
  | operation operator _ _ => Binding.of? operator
  | _ => none

/-- Whether the left operand of an operator would lose its last operand to it. -/
def needsLeft (operator : String) (operand : Expr) : Bool :=
  match Binding.of? operator, operand.root? with
  | some outer, some inner => inner.right ≤ outer.left
  | _, _ => false

def needsRight (operator : String) (operand : Expr) : Bool :=
  match Binding.of? operator, operand.root? with
  | some outer, some inner => inner.left < outer.right
  | _, _ => false

def enclose (pairs : Nat) (cs : List Char) : List Char := List.replicate pairs '(' ++ cs ++ List.replicate pairs ')'

/-- The infix forms of a tree, with the brackets it needs and any more inside, but none around the whole. -/
inductive Written : Expr → List Char → Prop
  | atom (text : String) : Written (atom text) text.toList
  | operation {operator : String} {left right : Expr} {leftCs rightCs : List Char} {leftPairs rightPairs : Nat} :
    Written left leftCs → (needsLeft operator left = true → 0 < leftPairs) →
    Written right rightCs → (needsRight operator right = true → 0 < rightPairs) →
    Written (operation operator left right)
      (enclose leftPairs leftCs ++ operator.toList ++ enclose rightPairs rightCs)

/-- The infix form with the fewest brackets. -/
def infixChars : Expr → List Char
  | atom text => text.toList
  | operation operator left right =>
    enclose (needsLeft operator left).toNat left.infixChars ++ operator.toList ++
      enclose (needsRight operator right).toNat right.infixChars
  | misfit _ => []

example : (operation "-" (operation "^" (operation "^" (atom "a") (atom "b")) (atom "c"))
    (operation "-" (atom "1") (operation "." (atom "2") (atom "5")))).infixChars = "(a^b)^c-(1-2.5)".toList := by
  decide

theorem Spellable.written {tree : Expr} (h : tree.Spellable) : Written tree tree.infixChars := by
  induction tree with
  | atom text => exact .atom text
  | operation operator left right ihLeft ihRight =>
    obtain ⟨-, hleft, hright⟩ := h
    exact .operation (ihLeft hleft) (fun hneeds => by simp [hneeds]) (ihRight hright) (fun hneeds => by simp [hneeds])
  | misfit value => exact h.elim

end Reckoner.Expr

namespace Reckoner.Grammar

variable {tree left right : Expr} {cs : List Char}

/-! ### Levels of written trees -/

/-- The level of a tree without brackets around it. -/
def Level.ofRoot (tree : Expr) : Level :=
  match tree.root? with
  | some powers => atLeast powers.left
  | none => operand

def Level.enclosed (pairs : Nat) (tree : Expr) : Level := if pairs = 0 then ofRoot tree else operand

theorem Derives.enclose (h : Derives (.ofRoot tree) (cs.map Token.ofChar) tree) (pairs : Nat) :
    Derives (.enclosed pairs tree) ((Expr.enclose pairs cs).map Token.ofChar) tree := by
  induction pairs with
  | zero => simpa [Expr.enclose, Level.enclosed] using h
  | succ pairs ih =>
    have hinner : Derives .assignment ((Expr.enclose pairs cs).map Token.ofChar) tree :=
      ih.loosen (Nat.zero_le _)
    have hcs : (Expr.enclose (pairs + 1) cs).map Token.ofChar =
        Token.opening :: (Expr.enclose pairs cs).map Token.ofChar ++ [Token.closing] := by
      rw [Expr.enclose, List.replicate_succ, List.replicate_succ', Expr.enclose]
      simp only [List.cons_append, List.append_assoc, List.map_cons, List.map_append, List.map_nil]
      rfl
    rw [hcs]
    exact .bracket hinner

theorem exists_binding_of_root {inner : Binding} (hroot : tree.root? = some inner) :
    ∃ operator, Binding.of? operator = some inner := by
  cases tree with
  | atom text => cases hroot
  | operation operator left right => exact ⟨operator, hroot⟩
  | misfit value => cases hroot

section
variable {operator : String} {powers : Binding} (hpowers : Binding.of? operator = some powers)
include hpowers

theorem left_lt_reach_enclosed {pairs : Nat} (hpairs : Expr.needsLeft operator left = true → 0 < pairs) :
    powers.left < (Level.enclosed pairs left).reach := by
  unfold Level.enclosed
  split_ifs with hzero
  · cases hroot : left.root? with
    | none =>
      rw [Level.ofRoot, hroot]
      exact left_lt_reach_operand hpowers
    | some inner =>
      obtain ⟨innerOperator, hinner⟩ := exists_binding_of_root hroot
      rw [Level.ofRoot, hroot]
      dsimp only
      rw [reach_atLeast_left hinner]
      refine Nat.not_le.mp fun hle => ?_
      have hneeds : Expr.needsLeft operator left = true := by simp [Expr.needsLeft, hpowers, hroot, hle]
      exact absurd (hpairs hneeds) (by omega)
  · exact left_lt_reach_operand hpowers

theorem rank_atLeast_right_le_enclosed {pairs : Nat} (hpairs : Expr.needsRight operator right = true → 0 < pairs) :
    (Level.atLeast powers.right).rank ≤ (Level.enclosed pairs right).rank := by
  unfold Level.enclosed
  split_ifs with hzero
  · cases hroot : right.root? with
    | none =>
      rw [Level.ofRoot, hroot]
      exact Level.rank_le_operand
    | some inner =>
      rw [Level.ofRoot, hroot]
      refine Level.rank_atLeast_mono (Nat.not_lt.mp fun hlt => ?_)
      have hneeds : Expr.needsRight operator right = true := by simp [Expr.needsRight, hpowers, hroot, hlt]
      exact absurd (hpairs hneeds) (by omega)
  · exact Level.rank_le_operand

theorem map_ofChar_operator : operator.toList.map Token.ofChar = [⟨.operator, operator⟩] := by
  rcases binding_cases hpowers with
    ⟨rfl, -⟩ | ⟨rfl | rfl, -⟩ | ⟨rfl | rfl, -⟩ | ⟨rfl | rfl, -⟩ | ⟨rfl, -⟩ <;> decide

end

theorem spell_map_ofChar (cs : List Char) : Token.spell (cs.map Token.ofChar) = String.ofList cs := by
  apply String.toList_injective
  rw [Token.toList_spell, List.flatMap_map, String.toList_ofList]
  simp [Token.ofChar]

theorem derives_of_written (hwritten : tree.Written cs) (hspellable : tree.Spellable) :
    Derives (.ofRoot tree) (cs.map Token.ofChar) tree := by
  induction hwritten with
  | atom text =>
    obtain ⟨hne, halphanum⟩ := hspellable
    have hatoms : ∀ token ∈ text.toList.map Token.ofChar, token.kind = .atom := by
      intro token htoken
      obtain ⟨c, hc, rfl⟩ := List.mem_map.mp htoken
      exact if_pos (halphanum c hc)
    have hderives := Derives.atoms (by simpa using hne) hatoms
    rwa [spell_map_ofChar, String.ofList_toList] at hderives
  | @operation operator left right leftCs rightCs leftPairs rightPairs _ hleftPairs _ hrightPairs ihLeft ihRight =>
    obtain ⟨hknown, hleft, hright⟩ := hspellable
    obtain ⟨powers, hpowers⟩ := Option.isSome_iff_exists.mp hknown
    have hback : Derives (.atLeast powers.right) ((Expr.enclose rightPairs rightCs).map Token.ofChar) right :=
      ((ihRight hright).enclose rightPairs).loosen (rank_atLeast_right_le_enclosed hpowers hrightPairs)
    have hwhole := Derives.operation hpowers ((ihLeft hleft).enclose leftPairs)
      (left_lt_reach_enclosed hpowers hleftPairs) hback
    have hlevel : Level.ofRoot (.operation operator left right) = .atLeast powers.left := by
      simp only [Level.ofRoot, Expr.root?, hpowers]
    rw [hlevel, List.map_append, List.map_append, map_ofChar_operator hpowers, List.append_assoc]
    exact hwhole

end Reckoner.Grammar

namespace Reckoner.Parser

open Grammar

/-- Every spellable tree has an infix form, and parsing any of its infix forms, between any number of bracket pairs and with spacing anywhere, gives the tree and leaves nothing over. -/
theorem parse_written {tree : Expr} (hspellable : tree.Spellable) :
    tree.Written tree.infixChars ∧ ∀ (cs : List Char) (pairs : Nat) (text : String), tree.Written cs →
      text.toList.filter (fun c => !Token.isSpacing c) = Expr.enclose pairs cs → parse text = .ok ⟨tree, []⟩ := by
  refine ⟨hspellable.written, ?_⟩
  intro cs pairs text hwritten htext
  have hderives : Derives .assignment ((Expr.enclose pairs cs).map Token.ofChar) tree :=
    ((derives_of_written hwritten hspellable).enclose pairs).loosen (Nat.zero_le _)
  have hstops : ∀ token ∈ ([] : List Token).head?, ends token = true := by simp
  have hparse := parsePrefix_zero_of_derives hstops hderives
  rw [List.append_nil] at hparse
  rw [parse, Token.scan, htext]
  exact parseTokens_eq_ok_iff.mpr hparse

theorem parse_written_power_of_sum :
    (Expr.operation "^" (.operation "+" (.atom "10") (.atom "a")) (.atom "2")).Spellable ∧
      parse " (1 0\t+((a)))^(2 )" =
        .ok ⟨.operation "^" (.operation "+" (.atom "10") (.atom "a")) (.atom "2"), []⟩ := by
  have hsum : (Expr.operation "+" (.atom "10") (.atom "a")).Written
      (Expr.enclose 0 "10".toList ++ "+".toList ++ Expr.enclose 2 "a".toList) :=
    .operation (.atom "10") (by decide) (.atom "a") (by decide)
  have hpower : (Expr.operation "^" (.operation "+" (.atom "10") (.atom "a")) (.atom "2")).Written
      (Expr.enclose 1 (Expr.enclose 0 "10".toList ++ "+".toList ++ Expr.enclose 2 "a".toList) ++ "^".toList ++
        Expr.enclose 1 "2".toList) :=
    .operation hsum (by decide) (.atom "2") (by decide)
  have hspellable : (Expr.operation "^" (.operation "+" (.atom "10") (.atom "a")) (.atom "2")).Spellable := by
    simp [Expr.Spellable, Binding.of?]
  exact ⟨hspellable, (parse_written hspellable).2 _ 0 _ hpower (by decide)⟩

end Reckoner.Parser
