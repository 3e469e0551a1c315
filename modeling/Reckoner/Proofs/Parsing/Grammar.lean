import Reckoner.Expr
import Reckoner.Token
import Reckoner.Binding
import Mathlib.Tactic.SplitIfs

/-!
# The stratified grammar

Six levels of expressions, from assignments to single operands, each with the productions of its operators:

    assignment ::= sum | sum "=" assignment
    sum        ::= product | sum ("+" | "-") product
    product    ::= power | product ("*" | "/") power
    power      ::= point | point ("^" | "√") power
    point      ::= operand | point "." operand
    operand    ::= atom+ | "(" assignment ")"

Nothing here mentions a power except the two functions that relate the levels to the table: `Level.atLeast` is the level of the operators whose left power reaches a minimum, and `Level.reach` is the left power from which on an operator behind an expression of a level would take the last operand away from it. `Derives.operation` is the one statement about the table that the parser's correctness needs; it covers all operators at once.
-/

namespace Reckoner.Grammar

inductive Level where
  | assignment
  | sum
  | product
  | power
  | point
  | operand
deriving DecidableEq, Repr

inductive Derives : Level → List Token → Expr → Prop
  | ofSum {tokens : List Token} {tree : Expr} : Derives .sum tokens tree → Derives .assignment tokens tree
  | assign {front back : List Token} {left right : Expr} :
    Derives .sum front left → Derives .assignment back right →
    Derives .assignment (front ++ ⟨.operator, "="⟩ :: back) (.operation "=" left right)
  | ofProduct {tokens : List Token} {tree : Expr} : Derives .product tokens tree → Derives .sum tokens tree
  | add {operator : String} {front back : List Token} {left right : Expr} : operator = "+" ∨ operator = "-" →
    Derives .sum front left → Derives .product back right →
    Derives .sum (front ++ ⟨.operator, operator⟩ :: back) (.operation operator left right)
  | ofPower {tokens : List Token} {tree : Expr} : Derives .power tokens tree → Derives .product tokens tree
  | multiply {operator : String} {front back : List Token} {left right : Expr} : operator = "*" ∨ operator = "/" →
    Derives .product front left → Derives .power back right →
    Derives .product (front ++ ⟨.operator, operator⟩ :: back) (.operation operator left right)
  | ofPoint {tokens : List Token} {tree : Expr} : Derives .point tokens tree → Derives .power tokens tree
  | raise {operator : String} {front back : List Token} {left right : Expr} : operator = "^" ∨ operator = "√" →
    Derives .point front left → Derives .power back right →
    Derives .power (front ++ ⟨.operator, operator⟩ :: back) (.operation operator left right)
  | ofOperand {tokens : List Token} {tree : Expr} : Derives .operand tokens tree → Derives .point tokens tree
  | join {front back : List Token} {left right : Expr} :
    Derives .point front left → Derives .operand back right →
    Derives .point (front ++ ⟨.operator, "."⟩ :: back) (.operation "." left right)
  | atoms {run : List Token} : run ≠ [] → (∀ token ∈ run, token.kind = .atom) →
    Derives .operand run (.atom (Token.spell run))
  | bracket {inner : List Token} {tree : Expr} : Derives .assignment inner tree →
    Derives .operand (Token.opening :: inner ++ [Token.closing]) tree

/-! ### Levels in order -/

namespace Level

/-- The place of a level, the loosest first. -/
def rank : Level → Nat
  | assignment => 0
  | sum => 1
  | product => 2
  | power => 3
  | point => 4
  | operand => 5

/-- The loosest level all of whose operators have a left power of at least the minimum. -/
def atLeast (minimum : Nat) : Level :=
  if minimum ≤ 2 then assignment
  else if minimum ≤ 10 then sum
  else if minimum ≤ 20 then product
  else if minimum ≤ 31 then power
  else if minimum ≤ 40 then point
  else operand

/-- The least left power with which an operator reaches into an expression of the level in front of it. -/
def reach : Level → Nat
  | assignment => 1
  | sum => 11
  | product => 21
  | power => 30
  | point => 41
  | operand => 41

theorem rank_injective {level other : Level} (h : level.rank = other.rank) : level = other := by
  cases level <;> cases other <;> first | rfl | exact absurd h (by decide)

theorem rank_atLeast_mono {minimum other : Nat} (hle : minimum ≤ other) :
    (atLeast minimum).rank ≤ (atLeast other).rank := by
  unfold atLeast
  split_ifs <;> simp only [rank] <;> omega

theorem rank_le_operand {level : Level} : level.rank ≤ operand.rank := by
  cases level <;> decide

theorem reach_mono {level other : Level} (hrank : level.rank ≤ other.rank) : level.reach ≤ other.reach := by
  revert hrank
  cases level <;> cases other <;> decide

end Level

private theorem Derives.exists_looser {level : Level} {tokens : List Token} {tree : Expr}
    (h : Derives level tokens tree) (hrank : 0 < level.rank) :
    ∃ looser : Level, looser.rank + 1 = level.rank ∧ Derives looser tokens tree := by
  cases level with
  | assignment => exact absurd hrank (by decide)
  | sum => exact ⟨.assignment, rfl, h.ofSum⟩
  | product => exact ⟨.sum, rfl, h.ofProduct⟩
  | power => exact ⟨.product, rfl, h.ofPower⟩
  | point => exact ⟨.power, rfl, h.ofPoint⟩
  | operand => exact ⟨.point, rfl, h.ofOperand⟩

theorem Derives.loosen {level looser : Level} {tokens : List Token} {tree : Expr} (h : Derives level tokens tree)
    (hrank : looser.rank ≤ level.rank) : Derives looser tokens tree := by
  induction hgap : level.rank - looser.rank generalizing level with
  | zero =>
    obtain rfl : level = looser := Level.rank_injective (by omega)
    exact h
  | succ gap ih =>
    obtain ⟨next, hnext, hderives⟩ := h.exists_looser (by omega)
    exact ih hderives (by omega) (by omega)

/-! ### Levels and powers -/

theorem binding_cases {operator : String} {powers : Binding} (h : Binding.of? operator = some powers) :
    (operator = "=" ∧ powers = ⟨2, 1⟩) ∨ ((operator = "+" ∨ operator = "-") ∧ powers = ⟨10, 11⟩) ∨
      ((operator = "*" ∨ operator = "/") ∧ powers = ⟨20, 21⟩) ∨
      ((operator = "^" ∨ operator = "√") ∧ powers = ⟨31, 30⟩) ∨ (operator = "." ∧ powers = ⟨40, 41⟩) := by
  unfold Binding.of? at h
  split_ifs at h with hequals hadd hmultiply hraise hpoint
  · exact .inl ⟨hequals, (Option.some.inj h).symm⟩
  · exact .inr (.inl ⟨hadd, (Option.some.inj h).symm⟩)
  · exact .inr (.inr (.inl ⟨hmultiply, (Option.some.inj h).symm⟩))
  · exact .inr (.inr (.inr (.inl ⟨hraise, (Option.some.inj h).symm⟩)))
  · exact .inr (.inr (.inr (.inr ⟨hpoint, (Option.some.inj h).symm⟩)))

def rows : List Binding := [⟨2, 1⟩, ⟨10, 11⟩, ⟨20, 21⟩, ⟨31, 30⟩, ⟨40, 41⟩]

section
variable {operator : String} {powers : Binding} (hpowers : Binding.of? operator = some powers)
include hpowers

theorem mem_rows : powers ∈ rows := by
  rcases binding_cases hpowers with ⟨-, rfl⟩ | ⟨-, rfl⟩ | ⟨-, rfl⟩ | ⟨-, rfl⟩ | ⟨-, rfl⟩ <;> decide

theorem left_lt_reach_operand : powers.left < Level.operand.reach := by
  have hrows : ∀ row ∈ rows, row.left < Level.operand.reach := by decide
  exact hrows powers (mem_rows hpowers)

theorem reach_atLeast_left : (Level.atLeast powers.left).reach = powers.right := by
  have hrows : ∀ row ∈ rows, (Level.atLeast row.left).reach = row.right := by decide
  exact hrows powers (mem_rows hpowers)

theorem right_le_reach_atLeast_right : powers.right ≤ (Level.atLeast powers.right).reach := by
  have hrows : ∀ row ∈ rows, row.right ≤ (Level.atLeast row.right).reach := by decide
  exact hrows powers (mem_rows hpowers)

theorem rank_atLeast_left_le {level : Level} (hreach : powers.left < level.reach) :
    (Level.atLeast powers.left).rank ≤ level.rank := by
  have hrows : ∀ row ∈ rows, row.left < level.reach → (Level.atLeast row.left).rank ≤ level.rank := by
    cases level <;> decide
  exact hrows powers (mem_rows hpowers) hreach

/-- A left power is the greatest minimum of its level. -/
theorem le_left_of_rank_atLeast_le {minimum : Nat}
    (hrank : (Level.atLeast minimum).rank ≤ (Level.atLeast powers.left).rank) : minimum ≤ powers.left := by
  refine Nat.not_lt.mp fun hlt => ?_
  have hnext : (Level.atLeast (powers.left + 1)).rank ≤ (Level.atLeast minimum).rank :=
    Level.rank_atLeast_mono (by omega)
  have hrows : ∀ row ∈ rows, (Level.atLeast row.left).rank < (Level.atLeast (row.left + 1)).rank := by decide
  have hgap := hrows powers (mem_rows hpowers)
  omega

/-- Every production with an operator in terms of powers: the left operand is of a level that the operator does not reach into, and the right operand of the level of the operator's right power. -/
theorem Derives.operation {level : Level} {front back : List Token} {left right : Expr}
    (hleft : Derives level front left) (hreach : powers.left < level.reach)
    (hright : Derives (Level.atLeast powers.right) back right) :
    Derives (Level.atLeast powers.left) (front ++ ⟨.operator, operator⟩ :: back) (.operation operator left right) := by
  rcases binding_cases hpowers with ⟨rfl, rfl⟩ | ⟨hsign, rfl⟩ | ⟨hsign, rfl⟩ | ⟨hsign, rfl⟩ | ⟨rfl, rfl⟩
  · exact .assign (hleft.loosen (by revert hreach; cases level <;> decide)) hright
  · exact .add hsign (hleft.loosen (by revert hreach; cases level <;> decide)) hright
  · exact .multiply hsign (hleft.loosen (by revert hreach; cases level <;> decide)) hright
  · exact .raise hsign (hleft.loosen (by revert hreach; cases level <;> decide)) hright
  · exact .join (hleft.loosen (by revert hreach; cases level <;> decide)) hright

end

/-- A relation that passes to looser levels, holds of atoms, and is kept by brackets and by the production of every operator, holds of all that is derived. -/
theorem Derives.levelwise {motive : Level → List Token → Expr → Prop}
    (loosen : ∀ {level looser : Level} {tokens : List Token} {tree : Expr}, motive level tokens tree →
      looser.rank ≤ level.rank → motive looser tokens tree)
    (atoms : ∀ {run : List Token}, run ≠ [] → (∀ token ∈ run, token.kind = .atom) →
      motive .operand run (.atom (Token.spell run)))
    (bracket : ∀ {inner : List Token} {tree : Expr}, motive .assignment inner tree →
      motive .operand (Token.opening :: inner ++ [Token.closing]) tree)
    (operation : ∀ {operator : String} {powers : Binding} {level : Level} {front back : List Token} {left right : Expr},
      Binding.of? operator = some powers → motive level front left → powers.left < level.reach →
      motive (.atLeast powers.right) back right →
      motive (.atLeast powers.left) (front ++ ⟨.operator, operator⟩ :: back) (.operation operator left right))
    {level : Level} {tokens : List Token} {tree : Expr} (h : Derives level tokens tree) : motive level tokens tree := by
  induction h with
  | ofSum _ ih => exact loosen ih (by decide)
  | assign _ _ ihLeft ihRight =>
    have hpowers : Binding.of? "=" = some ⟨2, 1⟩ := rfl
    exact operation hpowers ihLeft (by decide) ihRight
  | ofProduct _ ih => exact loosen ih (by decide)
  | @add operator _ _ _ _ hsign _ _ ihLeft ihRight =>
    have hpowers : Binding.of? operator = some ⟨10, 11⟩ := by rcases hsign with rfl | rfl <;> rfl
    exact operation hpowers ihLeft (by decide) ihRight
  | ofPower _ ih => exact loosen ih (by decide)
  | @multiply operator _ _ _ _ hsign _ _ ihLeft ihRight =>
    have hpowers : Binding.of? operator = some ⟨20, 21⟩ := by rcases hsign with rfl | rfl <;> rfl
    exact operation hpowers ihLeft (by decide) ihRight
  | ofPoint _ ih => exact loosen ih (by decide)
  | @raise operator _ _ _ _ hsign _ _ ihLeft ihRight =>
    have hpowers : Binding.of? operator = some ⟨31, 30⟩ := by rcases hsign with rfl | rfl <;> rfl
    exact operation hpowers ihLeft (by decide) ihRight
  | ofOperand _ ih => exact loosen ih (by decide)
  | join _ _ ihLeft ihRight =>
    have hpowers : Binding.of? "." = some ⟨40, 41⟩ := rfl
    exact operation hpowers ihLeft (by decide) ihRight
  | atoms hne hatoms => exact atoms hne hatoms
  | bracket _ ih => exact bracket ih

end Reckoner.Grammar
