import Reckoner.Proofs.Parsing.Spelling

/-!
# Splitting at the root

The operator at the root of a tree can be found without parsing. It stands outside all brackets, is one of the loosest operators that do, and among those the first or the last, as they group to the right or to the left. Parsing what stands before it and behind it gives the two operands. Where no operator stands outside all brackets, the tokens are a run of atoms or a single pair of brackets.
-/

namespace Reckoner.Grammar

open Reckoner.Parser

variable {tokens front back inner : List Token} {token : Token} {tree left right : Expr} {operator : String}
  {level : Level} {place : Nat}

/-! ### Operators outside all brackets -/

def depth (tokens : List Token) : Int := tokens.count Token.opening - tokens.count Token.closing

/-- The operators outside all brackets, with their places. -/
def outerOperators (tokens : List Token) : List (Token × Nat) :=
  tokens.zipIdx.filter fun (token, place) =>
    token.kind = .operator ∧ token ≠ Token.opening ∧ token ≠ Token.closing ∧ depth (tokens.take place) = 0

/-- The place of an operator among the five levels, the loosest first. -/
def tightness (operator : String) : Nat :=
  if operator = "=" then 0
  else if operator = "+" ∨ operator = "-" then 1
  else if operator = "*" ∨ operator = "/" then 2
  else if operator = "^" ∨ operator = "√" then 3
  else 4

def groupsRight (tightness : Nat) : Bool := tightness == 0 || tightness == 3

/-- Of the loosest operators outside all brackets the first, if they group to the right, or else the last. -/
def rootPlace? (tokens : List Token) : Option Nat :=
  let outer := outerOperators tokens
  (outer.map fun (token, _) => tightness token.lexeme).min?.bind fun loosest =>
    let places := (outer.filter fun (token, _) => tightness token.lexeme = loosest).map Prod.snd
    if groupsRight loosest then places.min? else places.max?

example : rootPlace? (Token.scan "1-(2=3)-4^5") = some 7 := by decide +kernel

theorem mem_outerOperators : (token, place) ∈ outerOperators tokens ↔
    tokens[place]? = some token ∧ token.kind = .operator ∧ token ≠ Token.opening ∧ token ≠ Token.closing ∧
      depth (tokens.take place) = 0 := by
  simp [outerOperators, List.mem_zipIdx_iff_getElem?]

/-! ### Depth -/

@[simp] theorem depth_nil : depth [] = 0 := rfl

@[simp] theorem depth_append : depth (front ++ back) = depth front + depth back := by
  simp only [depth, List.count_append]
  omega

theorem depth_cons : depth (token :: tokens) = depth [token] + depth tokens := by
  rw [← depth_append, List.singleton_append]

theorem depth_singleton (hopening : token ≠ Token.opening) (hclosing : token ≠ Token.closing) : depth [token] = 0 := by
  simp [depth, hopening, hclosing]

theorem depth_opening : depth [Token.opening] = 1 := by decide

theorem depth_closing : depth [Token.closing] = -1 := by decide

/-- Every bracket is closed and none before it was opened. -/
structure Balanced (tokens : List Token) : Prop where
  depth_eq : depth tokens = 0
  depth_take : ∀ n, 0 ≤ depth (tokens.take n)

theorem balanced_of_forall (h : ∀ token ∈ tokens, token ≠ Token.opening ∧ token ≠ Token.closing) : Balanced tokens := by
  have hzero : ∀ part : List Token, part ⊆ tokens → depth part = 0 := by
    intro part hpart
    have hopening : Token.opening ∉ part := fun hmem => (h _ (hpart hmem)).1 rfl
    have hclosing : Token.closing ∉ part := fun hmem => (h _ (hpart hmem)).2 rfl
    simp [depth, List.count_eq_zero_of_not_mem hopening, List.count_eq_zero_of_not_mem hclosing]
  refine ⟨hzero tokens (List.Subset.refl tokens), fun n => ?_⟩
  rw [hzero _ (List.take_subset n tokens)]

theorem Balanced.append (hfront : Balanced front) (hback : Balanced back) : Balanced (front ++ back) := by
  refine ⟨by simp [hfront.depth_eq, hback.depth_eq], fun n => ?_⟩
  rw [List.take_append, depth_append]
  have hleft := hfront.depth_take n
  have hright := hback.depth_take (n - front.length)
  omega

theorem depth_take_bracket (h : Balanced inner) {n : Nat} (hn : 0 < n) (hinside : n ≤ inner.length + 1) :
    0 < depth ((Token.opening :: inner ++ [Token.closing]).take n) := by
  obtain ⟨n, rfl⟩ : ∃ k, n = k + 1 := ⟨n - 1, by omega⟩
  have hbefore : (Token.opening :: inner ++ [Token.closing]).take (n + 1) = Token.opening :: inner.take n := by
    rw [List.cons_append, List.take_succ_cons, List.take_append_of_le_length (by omega)]
  rw [hbefore, depth_cons, depth_opening]
  have hinner := h.depth_take n
  omega

theorem Balanced.bracket (h : Balanced inner) : Balanced (Token.opening :: inner ++ [Token.closing]) := by
  have hwhole : depth (Token.opening :: inner ++ [Token.closing]) = 0 := by
    rw [depth_append, depth_cons, depth_opening, depth_closing, h.depth_eq]
    rfl
  refine ⟨hwhole, fun n => ?_⟩
  by_cases hinside : n ≤ inner.length + 1
  · rcases Nat.eq_zero_or_pos n with rfl | hn
    · simp
    · exact Int.le_of_lt (depth_take_bracket h hn hinside)
  · rw [List.take_of_length_le (by simp; omega), hwhole]

theorem ne_bracket_of_known (hknown : (Binding.of? operator).isSome) :
    (⟨.operator, operator⟩ : Token) ≠ Token.opening ∧ (⟨.operator, operator⟩ : Token) ≠ Token.closing := by
  constructor
  · intro hequal
    obtain rfl : operator = "(" := congrArg Token.lexeme hequal
    exact absurd hknown (by decide)
  · intro hequal
    obtain rfl : operator = ")" := congrArg Token.lexeme hequal
    exact absurd hknown (by decide)

theorem Derives.balanced (h : Derives level tokens tree) : Balanced tokens := by
  refine h.uniform (motive := fun tokens _ => Balanced tokens) ?_ ?_ ?_
  · intro run _ hatoms
    refine balanced_of_forall fun token htoken => ⟨?_, ?_⟩
    · rintro rfl
      exact absurd (hatoms _ htoken) (by decide)
    · rintro rfl
      exact absurd (hatoms _ htoken) (by decide)
  · intro inner _ hinner
    exact hinner.bracket
  · intro operator front back _ _ hknown hfront hback
    have hoperator : Balanced [⟨.operator, operator⟩] := by
      refine balanced_of_forall fun token htoken => ?_
      rw [List.mem_singleton.mp htoken]
      exact ne_bracket_of_known hknown
    have hwhole := hfront.append (hoperator.append hback)
    rwa [List.singleton_append] at hwhole

/-! ### The operators of each production -/

theorem outerOperators_atoms (hatoms : ∀ token ∈ tokens, token.kind = .atom) : outerOperators tokens = [] := by
  refine List.eq_nil_iff_forall_not_mem.mpr fun ⟨token, place⟩ hmem => ?_
  obtain ⟨htoken, hkind, -⟩ := mem_outerOperators.mp hmem
  rw [hatoms token (List.mem_of_getElem? htoken)] at hkind
  cases hkind

theorem outerOperators_bracket (h : Balanced inner) :
    outerOperators (Token.opening :: inner ++ [Token.closing]) = [] := by
  refine List.eq_nil_iff_forall_not_mem.mpr fun ⟨token, place⟩ hmem => ?_
  obtain ⟨htoken, -, hopening, hclosing, hdepth⟩ := mem_outerOperators.mp hmem
  have hplace := (List.getElem?_eq_some_iff.mp htoken).1
  simp only [List.cons_append, List.length_cons, List.length_append, List.length_nil] at hplace
  rcases Nat.eq_zero_or_pos place with rfl | hpositive
  · exact hopening (Option.some.inj htoken).symm
  · have hinside := depth_take_bracket h hpositive (by omega)
    omega

theorem mem_outerOperators_operation (hfront : depth front = 0) (hknown : (Binding.of? operator).isSome) :
    (token, place) ∈ outerOperators (front ++ ⟨.operator, operator⟩ :: back) ↔
      (token, place) ∈ outerOperators front ∨ (token = ⟨.operator, operator⟩ ∧ place = front.length) ∨
        ∃ behind, place = front.length + 1 + behind ∧ (token, behind) ∈ outerOperators back := by
  obtain ⟨hopening, hclosing⟩ := ne_bracket_of_known hknown
  rcases Nat.lt_trichotomy place front.length with hbefore | rfl | hbehind
  · have hback : ¬∃ behind, place = front.length + 1 + behind ∧ (token, behind) ∈ outerOperators back := by
      rintro ⟨behind, rfl, -⟩
      omega
    have hmiddle : ¬(token = ⟨.operator, operator⟩ ∧ place = front.length) := fun h => by omega
    rw [or_iff_left (not_or.mpr ⟨hmiddle, hback⟩), mem_outerOperators, mem_outerOperators,
      List.getElem?_append_left hbefore, List.take_append_of_le_length (Nat.le_of_lt hbefore)]
  · have hleft : (token, front.length) ∉ outerOperators front := by
      rw [mem_outerOperators]
      simp
    have hback : ¬∃ behind, front.length = front.length + 1 + behind ∧ (token, behind) ∈ outerOperators back := by
      rintro ⟨behind, hlength, -⟩
      omega
    rw [or_iff_right hleft, or_iff_left hback, mem_outerOperators, List.take_left', hfront]
    constructor
    · rintro ⟨htoken, -⟩
      exact ⟨by simpa using htoken.symm, rfl⟩
    · rintro ⟨rfl, -⟩
      exact ⟨by simp, rfl, hopening, hclosing, rfl⟩
    · rfl
  · obtain ⟨behind, rfl⟩ : ∃ behind, place = front.length + 1 + behind := ⟨place - front.length - 1, by omega⟩
    have hleft : (token, front.length + 1 + behind) ∉ outerOperators front := by
      rw [mem_outerOperators, List.getElem?_eq_none (by omega)]
      simp
    have hmiddle : ¬(token = ⟨.operator, operator⟩ ∧ front.length + 1 + behind = front.length) := fun h => by omega
    have htoken : (front ++ ⟨.operator, operator⟩ :: back)[front.length + 1 + behind]? = back[behind]? := by
      rw [List.getElem?_append_right (by omega),
        show front.length + 1 + behind - front.length = behind + 1 by omega, List.getElem?_cons_succ]
    have hdepth : depth ((front ++ ⟨.operator, operator⟩ :: back).take (front.length + 1 + behind)) =
        depth (back.take behind) := by
      rw [Nat.add_assoc, List.take_length_add_append, Nat.add_comm 1, List.take_succ_cons, depth_append, depth_cons,
        depth_singleton hopening hclosing, hfront, Int.zero_add, Int.zero_add]
    rw [or_iff_right hleft, or_iff_right hmiddle, mem_outerOperators, htoken, hdepth, ← mem_outerOperators]
    constructor
    · exact fun hmem => ⟨behind, rfl, hmem⟩
    · rintro ⟨other, hplace, hmem⟩
      obtain rfl : behind = other := by omega
      exact hmem

theorem le_tightness_operation {rank : Nat} (hfront : depth front = 0) (hknown : (Binding.of? operator).isSome)
    (hoperator : rank ≤ tightness operator)
    (hleft : ∀ place, (token, place) ∈ outerOperators front → rank ≤ tightness token.lexeme)
    (hright : ∀ place, (token, place) ∈ outerOperators back → rank ≤ tightness token.lexeme)
    (hmem : (token, place) ∈ outerOperators (front ++ ⟨.operator, operator⟩ :: back)) :
    rank ≤ tightness token.lexeme := by
  rcases (mem_outerOperators_operation hfront hknown).mp hmem with hmem | ⟨rfl, -⟩ | ⟨_, -, hmem⟩
  · exact hleft _ hmem
  · exact hoperator
  · exact hright _ hmem

theorem Derives.rank_le_tightness (h : Derives level tokens tree) (hmem : (token, place) ∈ outerOperators tokens) :
    level.rank ≤ tightness token.lexeme := by
  induction h generalizing place with
  | ofSum _ _ => exact Nat.zero_le _
  | assign _ _ _ _ => exact Nat.zero_le _
  | ofProduct _ ih => exact Nat.le_of_succ_le (ih hmem)
  | ofPower _ ih => exact Nat.le_of_succ_le (ih hmem)
  | ofPoint _ ih => exact Nat.le_of_succ_le (ih hmem)
  | ofOperand _ ih => exact Nat.le_of_succ_le (ih hmem)
  | add hsign hleft _ ihLeft ihRight =>
    refine le_tightness_operation hleft.balanced.depth_eq ?_ ?_ (fun _ => ihLeft)
      (fun _ hmem => Nat.le_of_succ_le (ihRight hmem)) hmem <;> rcases hsign with rfl | rfl <;> decide
  | multiply hsign hleft _ ihLeft ihRight =>
    refine le_tightness_operation hleft.balanced.depth_eq ?_ ?_ (fun _ => ihLeft)
      (fun _ hmem => Nat.le_of_succ_le (ihRight hmem)) hmem <;> rcases hsign with rfl | rfl <;> decide
  | raise hsign hleft _ ihLeft ihRight =>
    refine le_tightness_operation hleft.balanced.depth_eq ?_ ?_ (fun _ hmem => Nat.le_of_succ_le (ihLeft hmem))
      (fun _ => ihRight) hmem <;> rcases hsign with rfl | rfl <;> decide
  | join hleft _ ihLeft ihRight =>
    exact le_tightness_operation hleft.balanced.depth_eq (by decide) (by decide) (fun _ => ihLeft)
      (fun _ hmem => Nat.le_of_succ_le (ihRight hmem)) hmem
  | atoms _ hatoms =>
    rw [outerOperators_atoms hatoms] at hmem
    exact absurd hmem List.not_mem_nil
  | bracket hinner _ =>
    rw [outerOperators_bracket hinner.balanced] at hmem
    exact absurd hmem List.not_mem_nil

/-! ### The root -/

/-- The root is a loosest operator, and no operator of its level stands on the side to which the level groups. -/
theorem rootPlace?_eq_some (hmem : (token, place) ∈ outerOperators tokens)
    (hloosest : ∀ other i, (other, i) ∈ outerOperators tokens → tightness token.lexeme ≤ tightness other.lexeme)
    (hside : ∀ other i, (other, i) ∈ outerOperators tokens → tightness other.lexeme = tightness token.lexeme →
      if groupsRight (tightness token.lexeme) then place ≤ i else i ≤ place) :
    rootPlace? tokens = some place := by
  have hmin : ((outerOperators tokens).map fun (token, _) => tightness token.lexeme).min? =
      some (tightness token.lexeme) := by
    rw [List.min?_eq_some_iff]
    refine ⟨List.mem_map.mpr ⟨_, hmem, rfl⟩, fun _ hvalue => ?_⟩
    obtain ⟨⟨other, i⟩, hother, rfl⟩ := List.mem_map.mp hvalue
    exact hloosest other i hother
  have hplace : place ∈ ((outerOperators tokens).filter
      fun (other, _) => tightness other.lexeme = tightness token.lexeme).map Prod.snd :=
    List.mem_map.mpr ⟨_, List.mem_filter.mpr ⟨hmem, by simp⟩, rfl⟩
  have hplaces : ∀ i ∈ ((outerOperators tokens).filter
      fun (other, _) => tightness other.lexeme = tightness token.lexeme).map Prod.snd,
      if groupsRight (tightness token.lexeme) then place ≤ i else i ≤ place := by
    intro i hi
    obtain ⟨⟨other, _⟩, hfound, rfl⟩ := List.mem_map.mp hi
    obtain ⟨hother, hequal⟩ := List.mem_filter.mp hfound
    exact hside other _ hother (by simpa using hequal)
  rw [rootPlace?, hmin, Option.bind_some]
  dsimp only
  split_ifs at hplaces ⊢ with hgroups
  · exact List.min?_eq_some_iff.mpr ⟨hplace, hplaces⟩
  · exact List.max?_eq_some_iff.mpr ⟨hplace, hplaces⟩

/-- Between operands whose operators are no looser, and tighter on the side to which the operator does not group, the operator is the root. -/
theorem rootPlace?_operation (hfront : depth front = 0) (hknown : (Binding.of? operator).isSome)
    (hleft : ∀ token place, (token, place) ∈ outerOperators front →
      tightness operator + (groupsRight (tightness operator)).toNat ≤ tightness token.lexeme)
    (hright : ∀ token place, (token, place) ∈ outerOperators back →
      tightness operator + (!groupsRight (tightness operator)).toNat ≤ tightness token.lexeme) :
    rootPlace? (front ++ ⟨.operator, operator⟩ :: back) = some front.length := by
  have hroot : ((⟨.operator, operator⟩ : Token), front.length) ∈
      outerOperators (front ++ ⟨.operator, operator⟩ :: back) :=
    (mem_outerOperators_operation hfront hknown).mpr (.inr (.inl ⟨rfl, rfl⟩))
  refine rootPlace?_eq_some hroot (fun other i hother => ?_) (fun other i hother hequal => ?_)
  · exact le_tightness_operation hfront hknown (Nat.le_refl _)
      (fun _ hmem => Nat.le_of_add_right_le (hleft _ _ hmem))
      (fun _ hmem => Nat.le_of_add_right_le (hright _ _ hmem)) hother
  · rcases (mem_outerOperators_operation hfront hknown).mp hother with hinside | ⟨-, rfl⟩ | ⟨behind, rfl, hinside⟩
    · have hbefore := (List.getElem?_eq_some_iff.mp (mem_outerOperators.mp hinside).1).1
      have hbound := hleft _ _ hinside
      rw [hequal] at hbound
      cases hgroups : groupsRight (tightness operator) with
      | false => exact Nat.le_of_lt hbefore
      | true => exact absurd hbound (by simp [hgroups])
    · split_ifs <;> exact Nat.le_refl _
    · have hbound := hright _ _ hinside
      rw [hequal] at hbound
      cases hgroups : groupsRight (tightness operator) with
      | false => exact absurd hbound (by simp [hgroups])
      | true => exact show front.length ≤ front.length + 1 + behind by omega

/-- A token list is cut at its root into lists that derive the operands, or has no operator outside all brackets. -/
inductive RootSplit (tokens : List Token) (tree : Expr) : Prop
  | operation {front back : List Token} {operator : String} {left right : Expr} :
    tokens = front ++ ⟨.operator, operator⟩ :: back → rootPlace? tokens = some front.length →
    Derives .assignment front left → Derives .assignment back right → tree = .operation operator left right →
    RootSplit tokens tree
  | atoms : outerOperators tokens = [] → tokens ≠ [] → (∀ token ∈ tokens, token.kind = .atom) → RootSplit tokens tree
  | bracket {inner : List Token} : outerOperators tokens = [] → tokens = Token.opening :: inner ++ [Token.closing] →
    Derives .assignment inner tree → RootSplit tokens tree

theorem Derives.rootSplit_operation {frontLevel backLevel : Level} (hknown : (Binding.of? operator).isSome)
    (hleft : Derives frontLevel front left) (hright : Derives backLevel back right)
    (hfrontRank : tightness operator + (groupsRight (tightness operator)).toNat ≤ frontLevel.rank)
    (hbackRank : tightness operator + (!groupsRight (tightness operator)).toNat ≤ backLevel.rank) :
    RootSplit (front ++ ⟨.operator, operator⟩ :: back) (.operation operator left right) :=
  .operation rfl
    (rootPlace?_operation hleft.balanced.depth_eq hknown
      (fun _ _ hmem => hfrontRank.trans (hleft.rank_le_tightness hmem))
      (fun _ _ hmem => hbackRank.trans (hright.rank_le_tightness hmem)))
    (hleft.loosen (Nat.zero_le _)) (hright.loosen (Nat.zero_le _)) rfl

theorem Derives.rootSplit (h : Derives level tokens tree) : RootSplit tokens tree := by
  induction h with
  | ofSum _ ih => exact ih
  | ofProduct _ ih => exact ih
  | ofPower _ ih => exact ih
  | ofPoint _ ih => exact ih
  | ofOperand _ ih => exact ih
  | assign hleft hright _ _ => exact rootSplit_operation (by decide) hleft hright (by decide) (by decide)
  | add hsign hleft hright _ _ =>
    rcases hsign with rfl | rfl <;> exact rootSplit_operation (by decide) hleft hright (by decide) (by decide)
  | multiply hsign hleft hright _ _ =>
    rcases hsign with rfl | rfl <;> exact rootSplit_operation (by decide) hleft hright (by decide) (by decide)
  | raise hsign hleft hright _ _ =>
    rcases hsign with rfl | rfl <;> exact rootSplit_operation (by decide) hleft hright (by decide) (by decide)
  | join hleft hright _ _ => exact rootSplit_operation (by decide) hleft hright (by decide) (by decide)
  | atoms hne hatoms => exact .atoms (outerOperators_atoms hatoms) hne hatoms
  | bracket hinner _ => exact .bracket (outerOperators_bracket hinner.balanced) rfl hinner

end Reckoner.Grammar

namespace Reckoner.Parser

open Grammar

variable {tokens : List Token} {tree : Expr}

theorem rootPlace?_of_outerOperators_eq_nil (h : outerOperators tokens = []) : rootPlace? tokens = none := by
  simp [rootPlace?, h]

/-- The root of a completely parsed list is the operator that its place among the operators outside all brackets says, and its operands are what the tokens on either side parse to, completely. Without such an operator the list is a run of atoms, or one pair of brackets around a list that parses to the same tree. -/
theorem parseTokens_splits_at_root (hparse : parseTokens tokens = .ok ⟨tree, []⟩) :
    (outerOperators tokens ≠ [] → ∃ place operator left right, rootPlace? tokens = some place ∧
      tokens[place]? = some ⟨.operator, operator⟩ ∧
      parseTokens (tokens.take place) = .ok ⟨left, []⟩ ∧ parseTokens (tokens.drop (place + 1)) = .ok ⟨right, []⟩ ∧
      tree = .operation operator left right) ∧
    (outerOperators tokens = [] → tokens ≠ [] ∧ (∀ token ∈ tokens, token.kind = .atom) ∨
      ∃ inner, tokens = Token.opening :: inner ++ [Token.closing] ∧ parseTokens inner = .ok ⟨tree, []⟩) := by
  cases (derives_of_parseTokens hparse).rootSplit with
  | @operation front back operator left right htokens hplace hleft hright htree =>
    refine ⟨fun _ => ⟨front.length, operator, left, right, hplace, ?_, ?_, ?_, htree⟩, fun hnone => ?_⟩
    · simp [htokens]
    · rw [htokens, List.take_left' rfl]
      exact parseTokens_of_derives hleft
    · rw [htokens, List.drop_length_add_append, List.drop_succ_cons, List.drop_zero]
      exact parseTokens_of_derives hright
    · rw [rootPlace?_of_outerOperators_eq_nil hnone] at hplace
      cases hplace
  | atoms hnone hne hatoms => exact ⟨fun hsome => absurd hnone hsome, fun _ => .inl ⟨hne, hatoms⟩⟩
  | bracket hnone htokens hinner =>
    exact ⟨fun hsome => absurd hnone hsome, fun _ => .inr ⟨_, htokens, parseTokens_of_derives hinner⟩⟩

theorem parseTokens_splits_at_root_behind_bracket :
    parseTokens (Token.scan "1-(2=3)-4^5") = .ok ⟨.operation "-" (.operation "-" (.atom "1")
        (.operation "=" (.atom "2") (.atom "3"))) (.operation "^" (.atom "4") (.atom "5")), []⟩ ∧
      outerOperators (Token.scan "1-(2=3)-4^5") ≠ [] ∧
      ∃ place operator left right, rootPlace? (Token.scan "1-(2=3)-4^5") = some place ∧
        (Token.scan "1-(2=3)-4^5")[place]? = some ⟨.operator, operator⟩ ∧
        parseTokens ((Token.scan "1-(2=3)-4^5").take place) = .ok ⟨left, []⟩ ∧
        parseTokens ((Token.scan "1-(2=3)-4^5").drop (place + 1)) = .ok ⟨right, []⟩ ∧
        Expr.operation "-" (.operation "-" (.atom "1") (.operation "=" (.atom "2") (.atom "3")))
          (.operation "^" (.atom "4") (.atom "5")) = .operation operator left right := by
  have hparse : parseTokens (Token.scan "1-(2=3)-4^5") = .ok ⟨.operation "-" (.operation "-" (.atom "1")
      (.operation "=" (.atom "2") (.atom "3"))) (.operation "^" (.atom "4") (.atom "5")), []⟩ := by decide +kernel
  have houter : outerOperators (Token.scan "1-(2=3)-4^5") ≠ [] := by decide +kernel
  exact ⟨hparse, houter, (parseTokens_splits_at_root hparse).1 houter⟩

end Reckoner.Parser
