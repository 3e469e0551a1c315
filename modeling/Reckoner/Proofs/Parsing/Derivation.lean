import Reckoner.Proofs.Parsing.Grammar
import Reckoner.Proofs.Parsing.Recursion
import Mathlib.Data.Set.Subsingleton

/-!
# The parser and its grammar

The parser reads exactly the expressions of the stratified grammar, each as the tree that the grammar gives it. A climb starts from a left operand of some level, and what carries the argument in both directions is that the next operator does not reach into that operand: going forward this makes the production of the operator apply, and going back it makes the climb inside the operand stop where the operand ends.
-/

namespace Reckoner.Parser

open Grammar

variable {minimum : Nat} {left tree : Expr} {token : Token} {tokens rest front back : List Token} {powers : Binding}
  {level : Level}

/-! ### Where a climb stops -/

/-- The tokens at which a climb with a minimum stops: none, the end of an expression, or an operator that binds too loosely. -/
def Halts (minimum : Nat) : List Token → Prop
  | [] => True
  | token :: _ => ends token = true ∨
    token.kind = .operator ∧ ∃ powers, Binding.of? token.lexeme = some powers ∧ powers.left < minimum

/-- An operator in front of the tokens has a left power below the limit. -/
def Below (limit : Nat) (tokens : List Token) : Prop :=
  ∀ token ∈ tokens.head?, token.kind = .operator → ∀ powers, Binding.of? token.lexeme = some powers → powers.left < limit

theorem Halts.mono {other : Nat} (h : Halts minimum rest) (hle : minimum ≤ other) : Halts other rest := by
  cases rest with
  | nil => trivial
  | cons token rest =>
    rcases h with hends | ⟨hkind, powers, hpowers, hlt⟩
    · exact .inl hends
    · exact .inr ⟨hkind, powers, hpowers, by omega⟩

theorem halts_zero_iff : Halts 0 rest ↔ ∀ token ∈ rest.head?, ends token = true := by
  cases rest with
  | nil => simp [Halts]
  | cons token rest => simp [Halts]

theorem kind_eq_stop_of_ends (hends : ends token = true) (hclosing : token ≠ Token.closing) : token.kind = .stop := by
  simpa [ends, hclosing] using hends

theorem Halts.kind_ne_atom (h : Halts minimum (token :: rest)) : token.kind ≠ .atom := by
  intro hatom
  rcases h with hends | ⟨hkind, -⟩
  · rcases token with ⟨kind, lexeme⟩
    subst hatom
    exact absurd hends (by simp [ends, Token.closing])
  · exact absurd (hatom.symm.trans hkind) (by decide)

theorem Halts.below (h : Halts minimum rest) : Below minimum rest := by
  intro token htoken hkind powers hpowers
  cases rest with
  | nil => exact absurd htoken (by simp)
  | cons first rest =>
    obtain rfl : first = token := Option.some.inj htoken
    rcases h with hends | ⟨-, found, hfound, hlt⟩
    · have hclosing := ne_closing_of_binding hpowers
      exact absurd hends (by simp [ends, hkind, hclosing])
    · obtain rfl : found = powers := Option.some.inj (hfound.symm.trans hpowers)
      exact hlt

theorem climb_of_halts (h : Halts minimum rest) (left : Expr) : climb minimum left rest = .ok (left, rest) := by
  cases rest with
  | nil => exact climb_nil minimum left
  | cons token rest =>
    rcases h with hends | ⟨hkind, powers, hpowers, hlt⟩
    · exact climb_ends hends minimum left rest
    · exact climb_loose hkind hpowers hlt

theorem operator_eta (hkind : token.kind = .operator) : (⟨.operator, token.lexeme⟩ : Token) = token := by
  rw [← hkind]

/-! ### What the parser reads is derived -/

/-- A climb keeps the level of its left operand as an invariant: at least that of the minimum, and out of the reach of the operator ahead. -/
theorem derives_hereditary : Hereditary
    (fun tokens => ∀ tree rest, parseOperand tokens = .ok (tree, rest) →
      ∃ front, tokens = front ++ rest ∧ Derives .operand front tree)
    (fun minimum tokens => ∀ tree rest, parsePrefix minimum tokens = .ok (tree, rest) →
      ∃ front, tokens = front ++ rest ∧ Derives (.atLeast minimum) front tree ∧ Halts minimum rest)
    (fun minimum left tokens => ∀ level front tree rest, Derives level front left →
      (Level.atLeast minimum).rank ≤ level.rank → Below level.reach tokens →
      climb minimum left tokens = .ok (tree, rest) →
      ∃ middle, tokens = middle ++ rest ∧ Derives (.atLeast minimum) (front ++ middle) tree ∧ Halts minimum rest) where
  operand_nil := by
    intro tree rest h
    rw [parseOperand_nil] at h
    cases h
  operand_atom := by
    intro token after hkind tree rest h
    rw [parseOperand_atom hkind] at h
    cases h
    refine ⟨token :: after.takeWhile isAtom, by simp, .atoms (by simp) ?_⟩
    intro other hother
    rcases List.mem_cons.mp hother with rfl | hother
    · exact hkind
    · simpa [isAtom] using List.all_eq_true.mp List.all_takeWhile other hother
  operand_opening := by
    intro after hinner tree rest h
    rw [parseOperand_opening] at h
    obtain ⟨⟨inner, behind⟩, hparse, hclose⟩ := bind_eq_ok h
    obtain ⟨front, rfl, hderives, -⟩ := hinner inner behind hparse
    cases behind with
    | nil => cases hclose
    | cons next behind =>
      by_cases hnext : next = Token.closing
      · rw [hnext] at hclose ⊢
        cases hclose
        exact ⟨Token.opening :: front ++ [Token.closing], by simp, .bracket hderives⟩
      · simp [hnext] at hclose
  operand_stop := by
    intro token after hkind tree rest h
    rw [parseOperand_stop hkind] at h
    cases h
  operand_operator := by
    intro token after hkind hopening tree rest h
    rw [parseOperand_operator hkind hopening] at h
    cases h
  expression := by
    intro minimum tokens hoperand hclimb tree rest h
    rw [parsePrefix_eq] at h
    obtain ⟨⟨operand, after⟩, hparse, hrest⟩ := bind_eq_ok h
    obtain ⟨front, rfl, hderives⟩ := hoperand operand after hparse
    have hrank : (Level.atLeast minimum).rank ≤ Level.operand.rank := Level.rank_le_operand
    have hbelow : Below Level.operand.reach after := fun _ _ _ _ hpowers => left_lt_reach_operand hpowers
    obtain ⟨middle, rfl, htree, hhalts⟩ := hclimb operand after hparse _ front tree rest hderives hrank hbelow hrest
    exact ⟨front ++ middle, by simp, htree, hhalts⟩
  climb_nil := by
    intro minimum left level front tree rest hleft hrank _ h
    rw [climb_nil] at h
    cases h
    exact ⟨[], rfl, by simpa using hleft.loosen hrank, trivial⟩
  climb_ends := by
    intro token minimum left after hends level front tree rest hleft hrank _ h
    rw [climb_ends hends] at h
    cases h
    exact ⟨[], rfl, by simpa using hleft.loosen hrank, .inl hends⟩
  climb_atom := by
    intro token minimum left after hkind level front tree rest _ _ _ h
    rw [climb_atom hkind] at h
    cases h
  climb_unknown := by
    intro token minimum left after hkind hclosing hpowers level front tree rest _ _ _ h
    rw [climb_unknown hkind hclosing hpowers] at h
    cases h
  climb_loose := by
    intro token powers minimum left after hkind hpowers hloose level front tree rest hleft hrank _ h
    rw [climb_loose hkind hpowers hloose] at h
    cases h
    exact ⟨[], rfl, by simpa using hleft.loosen hrank, .inr ⟨hkind, powers, hpowers, hloose⟩⟩
  climb_tight := by
    intro token powers minimum left after hkind hpowers htight hright hclimb level front tree rest hleft _ hbelow h
    rw [climb_tight hkind hpowers htight] at h
    obtain ⟨⟨right, behind⟩, hparse, hgoOn⟩ := bind_eq_ok h
    obtain ⟨back, rfl, hback, hhalts⟩ := hright right behind hparse
    have hreach : powers.left < level.reach := hbelow token rfl hkind powers hpowers
    have hwhole := Derives.operation hpowers hleft hreach hback
    rw [operator_eta hkind] at hwhole
    have hnext : Below (Level.atLeast powers.left).reach behind := by
      rw [reach_atLeast_left hpowers]
      exact hhalts.below
    obtain ⟨middle, rfl, htree, hrest⟩ :=
      hclimb right behind hparse _ _ tree rest hwhole (Level.rank_atLeast_mono htight) hnext hgoOn
    exact ⟨token :: back ++ middle, by simp, by simpa using htree, hrest⟩

theorem halts_of_parsePrefix (h : parsePrefix minimum tokens = .ok (tree, rest)) : Halts minimum rest := by
  obtain ⟨_, -, -, hhalts⟩ := derives_hereditary.parsed minimum tokens tree rest h
  exact hhalts

/-! ### What is derived the parser reads -/

/-- In front of tokens that do not reach into it, a token list is read as a tree, and the climb goes on from that tree. -/
def Reads (level : Level) (front : List Token) (tree : Expr) : Prop :=
  ∀ minimum rest, (Level.atLeast minimum).rank ≤ level.rank → Halts level.reach rest →
    parsePrefix minimum (front ++ rest) = climb minimum tree rest

theorem Reads.loosen {looser : Level} (h : Reads level front tree) (hrank : looser.rank ≤ level.rank) :
    Reads looser front tree := by
  intro minimum rest hminimum hhalts
  exact h minimum rest (hminimum.trans hrank) (hhalts.mono (Level.reach_mono hrank))

theorem Reads.operation {operator : String} {right : Expr} (hpowers : Binding.of? operator = some powers)
    (hleft : Reads level front left) (hreach : powers.left < level.reach)
    (hright : Reads (.atLeast powers.right) back right) :
    Reads (.atLeast powers.left) (front ++ ⟨.operator, operator⟩ :: back) (.operation operator left right) := by
  intro minimum rest hrank hhalts
  have htight : minimum ≤ powers.left := le_left_of_rank_atLeast_le hpowers hrank
  have hleftRank : (Level.atLeast minimum).rank ≤ level.rank :=
    (Level.rank_atLeast_mono htight).trans (rank_atLeast_left_le hpowers hreach)
  have hleftHalts : Halts level.reach (⟨.operator, operator⟩ :: (back ++ rest)) :=
    .inr ⟨rfl, powers, hpowers, hreach⟩
  rw [reach_atLeast_left hpowers] at hhalts
  have hback : parsePrefix powers.right (back ++ rest) = .ok (right, rest) := by
    rw [hright powers.right rest (Nat.le_refl _) (hhalts.mono (right_le_reach_atLeast_right hpowers))]
    exact climb_of_halts hhalts right
  calc parsePrefix minimum ((front ++ ⟨.operator, operator⟩ :: back) ++ rest)
      = parsePrefix minimum (front ++ ⟨.operator, operator⟩ :: (back ++ rest)) := by simp
    _ = climb minimum left (⟨.operator, operator⟩ :: (back ++ rest)) := hleft minimum _ hleftRank hleftHalts
    _ = climb minimum (.operation operator left right) rest := by
      rw [climb_tight rfl hpowers htight, hback]
      rfl

theorem reads_atoms (hne : front ≠ []) (hatoms : ∀ token ∈ front, token.kind = .atom) :
    Reads .operand front (.atom (Token.spell front)) := by
  intro minimum rest _ hhalts
  obtain ⟨first, more, rfl⟩ := List.exists_cons_of_ne_nil hne
  have hmore : ∀ token ∈ more, isAtom token = true := fun token htoken => by
    simp [isAtom, hatoms token (List.mem_cons_of_mem first htoken)]
  have hnone : rest.takeWhile isAtom = [] ∧ rest.dropWhile isAtom = rest := by
    cases rest with
    | nil => exact ⟨rfl, rfl⟩
    | cons token rest => simp [isAtom, hhalts.kind_ne_atom]
  rw [parsePrefix_eq, List.cons_append, parseOperand_atom (hatoms first List.mem_cons_self),
    List.takeWhile_append_of_pos hmore, List.dropWhile_append_of_pos hmore, hnone.1, hnone.2, List.append_nil]
  rfl

theorem Reads.bracket (h : Reads .assignment front tree) :
    Reads .operand (Token.opening :: front ++ [Token.closing]) tree := by
  intro minimum rest _ _
  have hstop : ∀ {limit}, Halts limit (Token.closing :: rest) := .inl rfl
  have hinner : parsePrefix 0 (front ++ Token.closing :: rest) = .ok (tree, Token.closing :: rest) := by
    rw [h 0 _ (by decide) hstop]
    exact climb_of_halts hstop tree
  have hoperand : parseOperand (Token.opening :: (front ++ Token.closing :: rest)) = .ok (tree, rest) := by
    rw [parseOperand_opening, hinner]
    rfl
  rw [parsePrefix_eq, show Token.opening :: front ++ [Token.closing] ++ rest =
    Token.opening :: (front ++ Token.closing :: rest) by simp, hoperand]
  rfl

theorem reads_of_derives (h : Derives level front tree) : Reads level front tree :=
  h.levelwise (motive := Reads) Reads.loosen reads_atoms Reads.bracket Reads.operation

/-! ### Whole token lists -/

theorem parseTokens_eq_ok_iff :
    parseTokens tokens = .ok ⟨tree, rest⟩ ↔ parsePrefix 0 tokens = .ok (tree, rest) := by
  unfold parseTokens
  cases parsePrefix 0 tokens with
  | error fault => simp
  | ok result => simp [Prod.ext_iff]

theorem parsePrefix_zero_of_derives (hrest : ∀ token ∈ rest.head?, ends token = true)
    (h : Derives .assignment front tree) : parsePrefix 0 (front ++ rest) = .ok (tree, rest) := by
  have hhalts : Halts 0 rest := halts_zero_iff.mpr hrest
  rw [reads_of_derives h 0 rest (by decide) (hhalts.mono (Nat.zero_le _))]
  exact climb_of_halts hhalts tree

/-- A token list cut into an assignment expression and the tokens behind it, which are none or begin with a stop token or a closing bracket. -/
structure Splits (tokens front rest : List Token) (tree : Expr) : Prop where
  append : tokens = front ++ rest
  stops : ∀ token ∈ rest.head?, ends token = true
  derives : Derives .assignment front tree

theorem parsePrefix_zero_eq_ok_iff :
    parsePrefix 0 tokens = .ok (tree, rest) ↔ ∃ front, Splits tokens front rest tree := by
  constructor
  · intro h
    obtain ⟨front, happend, hderives, hhalts⟩ := derives_hereditary.parsed 0 tokens tree rest h
    exact ⟨front, happend, halts_zero_iff.mp hhalts, hderives⟩
  · rintro ⟨front, rfl, hstops, hderives⟩
    exact parsePrefix_zero_of_derives hstops hderives

theorem parseTokens_of_derives (h : Derives .assignment tokens tree) : parseTokens tokens = .ok ⟨tree, []⟩ := by
  have hstops : ∀ token ∈ ([] : List Token).head?, ends token = true := by simp
  have hparse := parsePrefix_zero_of_derives hstops h
  rw [List.append_nil] at hparse
  exact parseTokens_eq_ok_iff.mpr hparse

theorem derives_of_parseTokens (h : parseTokens tokens = .ok ⟨tree, []⟩) : Derives .assignment tokens tree := by
  obtain ⟨front, hsplit⟩ := parsePrefix_zero_eq_ok_iff.mp (parseTokens_eq_ok_iff.mp h)
  have hfront := hsplit.append
  rw [List.append_nil] at hfront
  rw [hfront]
  exact hsplit.derives

theorem Splits.unique {front' rest' : List Token} {tree' : Expr} (h : Splits tokens front rest tree)
    (h' : Splits tokens front' rest' tree') : front = front' ∧ rest = rest' ∧ tree = tree' := by
  have hparse := parsePrefix_zero_eq_ok_iff.mpr ⟨front, h⟩
  rw [parsePrefix_zero_eq_ok_iff.mpr ⟨front', h'⟩] at hparse
  obtain ⟨rfl, rfl⟩ := Prod.mk.inj (Except.ok.inj hparse)
  exact ⟨List.append_cancel_right (h.append.symm.trans h'.append), rfl, rfl⟩

/-- Parsing succeeds exactly on the token lists that the grammar splits, with the tree and the rest of the split, of which there is only one. -/
theorem parseTokens_eq_ok_iff_splits (tokens : List Token) :
    (∀ tree rest, parseTokens tokens = .ok ⟨tree, rest⟩ ↔ ∃ front, Splits tokens front rest tree) ∧
      {split : List Token × List Token × Expr | Splits tokens split.1 split.2.1 split.2.2}.Subsingleton := by
  refine ⟨fun tree rest => parseTokens_eq_ok_iff.trans parsePrefix_zero_eq_ok_iff, ?_⟩
  intro split hsplit split' hsplit'
  obtain ⟨hfront, hrest, htree⟩ := Splits.unique hsplit hsplit'
  exact Prod.ext hfront (Prod.ext hrest htree)

end Reckoner.Parser
