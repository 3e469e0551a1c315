import Reckoner.Expr.Parser

/-!
# Induction along the calls of the parser

The operand, the expression and the climb call one another on token lists that get shorter. `Hereditary.all` is the one induction on that recursion: a property that passes from the calls a function makes to the function itself holds of every call. The rest of the theory reaches the recursion only through it and through the equation of each case, and never counts tokens again.
-/

namespace Reckoner.Parser

variable {minimum : Nat} {left : Expr} {token : Token} {tokens rest : List Token} {powers : Binding}

/-! ### The cases of the climb -/

theorem ne_closing_of_binding (hpowers : Binding.of? token.lexeme = some powers) : token ≠ Token.closing := by
  rintro rfl
  have hnone : Binding.of? Token.closing.lexeme = none := by decide
  rw [hnone] at hpowers
  exact absurd hpowers (by simp)

theorem climb_unknown (hkind : token.kind = .operator) (hclosing : token ≠ Token.closing)
    (hpowers : Binding.of? token.lexeme = none) :
    climb minimum left (token :: rest) = .error ⟨.unknownOperator token.lexeme, token :: rest⟩ := by
  rw [climb_operator hkind hclosing, binding, hpowers]
  rfl

theorem climb_loose (hkind : token.kind = .operator) (hpowers : Binding.of? token.lexeme = some powers)
    (hloose : powers.left < minimum) : climb minimum left (token :: rest) = .ok (left, token :: rest) := by
  rw [climb_operator hkind (ne_closing_of_binding hpowers), binding, hpowers]
  exact if_pos hloose

theorem climb_tight (hkind : token.kind = .operator) (hpowers : Binding.of? token.lexeme = some powers)
    (htight : minimum ≤ powers.left) :
    climb minimum left (token :: rest) = (parsePrefix powers.right rest).bind fun (right, after) =>
      climb minimum (.operation token.lexeme left right) after := by
  rw [climb_operator hkind (ne_closing_of_binding hpowers), binding, hpowers]
  exact if_neg (Nat.not_lt.mpr htight)

/-! ### Results -/

theorem bind_eq_ok {α β : Type} {outcome : Except Fault α} {next : α → Except Fault β} {result : β}
    (h : outcome.bind next = .ok result) : ∃ value, outcome = .ok value ∧ next value = .ok result := by
  cases outcome with
  | error fault => exact absurd h (by simp [Except.bind])
  | ok value => exact ⟨value, rfl, h⟩

private theorem map_val_eq_ok {p : Expr × List Token → Prop} {outcome : Except Fault (Subtype p)}
    {result : Expr × List Token} (h : outcome.map Subtype.val = .ok result) : p result := by
  cases outcome with
  | error fault => exact absurd h (by simp [Except.map])
  | ok value =>
    obtain rfl : value.val = result := Except.ok.inj h
    exact value.property

theorem length_lt_of_parseOperand {tree : Expr} (h : parseOperand tokens = .ok (tree, rest)) :
    rest.length < tokens.length := map_val_eq_ok h

theorem length_lt_of_parsePrefix {tree : Expr} (h : parsePrefix minimum tokens = .ok (tree, rest)) :
    rest.length < tokens.length := map_val_eq_ok h

/-! ### The induction -/

/-- Properties of the three functions that pass from the calls made to the call that makes them. -/
structure Hereditary (ofOperand : List Token → Prop) (ofPrefix : Nat → List Token → Prop)
    (ofClimb : Nat → Expr → List Token → Prop) : Prop where
  operand_nil : ofOperand []
  operand_atom : ∀ {token : Token} (rest : List Token), token.kind = .atom → ofOperand (token :: rest)
  operand_opening : ∀ rest, ofPrefix 0 rest → ofOperand (Token.opening :: rest)
  operand_stop : ∀ {token : Token} (rest : List Token), token.kind = .stop → ofOperand (token :: rest)
  operand_operator : ∀ {token : Token} (rest : List Token), token.kind = .operator → token ≠ Token.opening →
    ofOperand (token :: rest)
  expression : ∀ minimum tokens, ofOperand tokens →
    (∀ operand after, parseOperand tokens = .ok (operand, after) → ofClimb minimum operand after) →
    ofPrefix minimum tokens
  climb_nil : ∀ minimum left, ofClimb minimum left []
  climb_ends : ∀ {token : Token} minimum left (rest : List Token), ends token = true →
    ofClimb minimum left (token :: rest)
  climb_atom : ∀ {token : Token} minimum left (rest : List Token), token.kind = .atom →
    ofClimb minimum left (token :: rest)
  climb_unknown : ∀ {token : Token} minimum left (rest : List Token), token.kind = .operator →
    token ≠ Token.closing → Binding.of? token.lexeme = none → ofClimb minimum left (token :: rest)
  climb_loose : ∀ {token : Token} {powers : Binding} {minimum : Nat} left (rest : List Token),
    token.kind = .operator → Binding.of? token.lexeme = some powers → powers.left < minimum →
    ofClimb minimum left (token :: rest)
  climb_tight : ∀ {token : Token} {powers : Binding} {minimum : Nat} left (rest : List Token),
    token.kind = .operator → Binding.of? token.lexeme = some powers → minimum ≤ powers.left →
    ofPrefix powers.right rest →
    (∀ right after, parsePrefix powers.right rest = .ok (right, after) →
      ofClimb minimum (.operation token.lexeme left right) after) →
    ofClimb minimum left (token :: rest)

namespace Hereditary

variable {ofOperand : List Token → Prop} {ofPrefix : Nat → List Token → Prop}
  {ofClimb : Nat → Expr → List Token → Prop}

private theorem operand_of_shorter (h : Hereditary ofOperand ofPrefix ofClimb) (tokens : List Token)
    (hshorter : ∀ after : List Token, after.length < tokens.length → ofPrefix 0 after) : ofOperand tokens := by
  cases tokens with
  | nil => exact h.operand_nil
  | cons token rest =>
    cases hkind : token.kind with
    | atom => exact h.operand_atom rest hkind
    | stop => exact h.operand_stop rest hkind
    | operator =>
      by_cases hopening : token = Token.opening
      · rw [hopening]
        exact h.operand_opening rest (hshorter rest (by simp))
      · exact h.operand_operator rest hkind hopening

private theorem climb_of_shorter (h : Hereditary ofOperand ofPrefix ofClimb) (tokens : List Token)
    (hexpression : ∀ after : List Token, after.length < tokens.length → ∀ minimum, ofPrefix minimum after)
    (hclimb : ∀ after : List Token, after.length < tokens.length → ∀ minimum left, ofClimb minimum left after)
    (minimum : Nat) (left : Expr) : ofClimb minimum left tokens := by
  cases tokens with
  | nil => exact h.climb_nil minimum left
  | cons token rest =>
    cases hkind : token.kind with
    | atom => exact h.climb_atom minimum left rest hkind
    | stop => exact h.climb_ends minimum left rest (by simp [ends, hkind])
    | operator =>
      by_cases hclosing : token = Token.closing
      · exact h.climb_ends minimum left rest (by simp [ends, hclosing])
      · cases hpowers : Binding.of? token.lexeme with
        | none => exact h.climb_unknown minimum left rest hkind hclosing hpowers
        | some powers =>
          by_cases hloose : powers.left < minimum
          · exact h.climb_loose left rest hkind hpowers hloose
          · refine h.climb_tight left rest hkind hpowers (Nat.not_lt.mp hloose) (hexpression rest (by simp) _) ?_
            intro right after hright
            have hafter := length_lt_of_parsePrefix hright
            exact hclimb after (by simp only [List.length_cons]; omega) _ _

theorem all (h : Hereditary ofOperand ofPrefix ofClimb) (tokens : List Token) :
    ofOperand tokens ∧ (∀ minimum, ofPrefix minimum tokens) ∧ ∀ minimum left, ofClimb minimum left tokens := by
  induction hlength : tokens.length using Nat.strongRecOn generalizing tokens with
  | ind length ih =>
    subst hlength
    have hoperand : ofOperand tokens := h.operand_of_shorter tokens fun after hafter =>
      (ih _ hafter after rfl).2.1 0
    have hclimb : ∀ minimum left, ofClimb minimum left tokens := h.climb_of_shorter tokens
      (fun after hafter => (ih _ hafter after rfl).2.1) (fun after hafter => (ih _ hafter after rfl).2.2)
    refine ⟨hoperand, fun minimum => h.expression minimum tokens hoperand ?_, hclimb⟩
    intro operand after hparse
    exact (ih _ (length_lt_of_parseOperand hparse) after rfl).2.2 minimum operand

theorem parsed (h : Hereditary ofOperand ofPrefix ofClimb) (minimum : Nat) (tokens : List Token) :
    ofPrefix minimum tokens := (h.all tokens).2.1 minimum

end Hereditary

/-! ### What is left of the tokens -/

/-- The tokens behind a tree, or those from the place of a fault on. -/
def remainder : Except Fault (Expr × List Token) → List Token
  | .error fault => fault.rest
  | .ok (_, rest) => rest

theorem remainder_bind_suffix {outcome : Except Fault (Expr × List Token)}
    {next : Expr × List Token → Except Fault (Expr × List Token)} (houtcome : remainder outcome <:+ tokens)
    (hnext : ∀ value, outcome = .ok value → remainder (next value) <:+ value.2) :
    remainder (outcome.bind next) <:+ tokens := by
  cases outcome with
  | error fault => exact houtcome
  | ok value => exact (hnext value rfl).trans houtcome

theorem remainder_hereditary : Hereditary
    (fun tokens => remainder (parseOperand tokens) <:+ tokens)
    (fun minimum tokens => remainder (parsePrefix minimum tokens) <:+ tokens)
    (fun minimum left tokens => remainder (climb minimum left tokens) <:+ tokens) where
  operand_nil := by
    rw [parseOperand_nil]
    exact List.suffix_refl []
  operand_atom := by
    intro token rest hkind
    rw [parseOperand_atom hkind]
    exact (List.dropWhile_suffix isAtom).trans (List.suffix_cons token rest)
  operand_opening := by
    intro rest hinner
    rw [parseOperand_opening]
    refine remainder_bind_suffix (hinner.trans (List.suffix_cons _ rest)) ?_
    rintro ⟨inner, after⟩ -
    cases after with
    | nil => exact List.suffix_refl []
    | cons next after =>
      by_cases hnext : next = Token.closing <;> simp [hnext, remainder]
  operand_stop := by
    intro token rest hkind
    rw [parseOperand_stop hkind]
    exact List.suffix_refl _
  operand_operator := by
    intro token rest hkind hopening
    rw [parseOperand_operator hkind hopening]
    exact List.suffix_refl _
  expression := by
    intro minimum tokens hoperand hclimb
    rw [parsePrefix_eq]
    exact remainder_bind_suffix hoperand fun (operand, after) hparse => hclimb operand after hparse
  climb_nil := by
    intro minimum left
    rw [climb_nil]
    exact List.suffix_refl []
  climb_ends := by
    intro token minimum left rest hends
    rw [climb_ends hends]
    exact List.suffix_refl _
  climb_atom := by
    intro token minimum left rest hkind
    rw [climb_atom hkind]
    exact List.suffix_refl _
  climb_unknown := by
    intro token minimum left rest hkind hclosing hpowers
    rw [climb_unknown hkind hclosing hpowers]
    exact List.suffix_refl _
  climb_loose := by
    intro token powers minimum left rest hkind hpowers hloose
    rw [climb_loose hkind hpowers hloose]
    exact List.suffix_refl _
  climb_tight := by
    intro token powers minimum left rest hkind hpowers htight hright hclimb
    rw [climb_tight hkind hpowers htight]
    exact remainder_bind_suffix (hright.trans (List.suffix_cons token rest))
      fun (right, after) hparse => hclimb right after hparse

theorem rest_suffix_of_error {fault : Fault} (h : parsePrefix minimum tokens = .error fault) :
    fault.rest <:+ tokens := by
  have hsuffix := remainder_hereditary.parsed minimum tokens
  rwa [h] at hsuffix

end Reckoner.Parser
