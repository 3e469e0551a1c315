import Mathlib.Data.Rat.Floor
import Mathlib.Logic.Function.Iterate
import Reckoner.Proofs.Parsing.Recursion
import Reckoner.Token.Cursor

/-!
# The parser as a machine

The recursion of the parser, taken one step at a time. The calls in progress stand on a stack. A step looks at the token under the cursor, and may move the cursor over it, make a call or return from one. Nothing in a machine says that it comes to an end, and the minimum of an expression may be any number, also one between two powers.

What ties the machine to the parser is that each call, whatever waits for it, comes to where the recursion says: its tree is handed to the call that waits for it, with the cursor in front of the tokens that the recursion leaves over, or the flaw of the recursion ends all calls. Powers are whole tenths, so a minimum that is none has the effect of the next whole tenth above it.
-/

namespace Reckoner.Parser

open Token (Cursor)

namespace Machine

inductive Work where
  /-- An expression, before its first operand. -/
  | expression (minimum : ℚ)
  /-- An expression behind a left operand, at the head of its loop. -/
  | climb (minimum : ℚ) (left : Expr)
  /-- An operand, before its first token. -/
  | operand
  /-- An operand behind atoms, at the head of its loop. -/
  | atoms (run : List Token)
  /-- An operand behind the expression in its brackets. -/
  | closing (inner : Expr)

inductive Wait where
  /-- An expression for its first operand. -/
  | operand (minimum : ℚ)
  /-- An expression for the right operand of an operator. -/
  | right (minimum : ℚ) (left : Expr) (operator : String)
  /-- An operand for the expression in its brackets. -/
  | inner

/-- A call that waits, and how many tokens were ahead when it was made. -/
structure Caller where
  wait : Wait
  start : Nat

inductive Control where
  /-- A call is at work, with the tokens ahead when it was made and the calls that wait, the innermost first. -/
  | working (work : Work) (start : Nat) (callers : List Caller)
  | returned (tree : Expr)
  | raised (diagnostic : Diagnostic)

end Machine

structure Machine where
  cursor : Cursor
  control : Machine.Control

namespace Machine

def call (work : Work) (callers : List Caller) (cursor : Cursor) : Machine :=
  ⟨cursor, .working work cursor.remaining callers⟩

/-- A call returns its tree to the call that waits for it, or else to the outside. -/
def hand (tree : Expr) (cursor : Cursor) : List Caller → Machine
  | [] => ⟨cursor, .returned tree⟩
  | ⟨.operand minimum, start⟩ :: callers => ⟨cursor, .working (.climb minimum tree) start callers⟩
  | ⟨.right minimum left operator, start⟩ :: callers =>
    ⟨cursor, .working (.climb minimum (.operation operator left tree)) start callers⟩
  | ⟨.inner, start⟩ :: callers => ⟨cursor, .working (.closing tree) start callers⟩

def raise (flaw : Flaw) (place cursor : Cursor) : Machine := ⟨cursor, .raised ⟨flaw, place.tokens, place.position⟩⟩

def stepOperand (cursor : Cursor) (start : Nat) (callers : List Caller) : Machine :=
  let token := cursor.next.1.token
  let after := cursor.next.2
  if token.kind = .atom then ⟨after, .working (.atoms [token]) start callers⟩
  else if token = Token.opening then call (.expression 0) (⟨.inner, start⟩ :: callers) after
  else if token.kind = .stop then raise .unexpectedEnd cursor after
  else raise (.operandExpected token) cursor after

def stepAtoms (run : List Token) (cursor : Cursor) (start : Nat) (callers : List Caller) : Machine :=
  if cursor.peek.token.kind = .atom then
    ⟨cursor.next.2, .working (.atoms (run ++ [cursor.next.1.token])) start callers⟩
  else hand (.atom (Token.spell run)) cursor callers

def stepClimb (minimum : ℚ) (left : Expr) (cursor : Cursor) (start : Nat) (callers : List Caller) : Machine :=
  let token := cursor.peek.token
  if ends token then hand left cursor callers
  else if token.kind ≠ .operator then raise (.operatorExpected token) cursor cursor
  else
    match Binding.of? token.lexeme with
    | none => raise (.unknownOperator token.lexeme) cursor cursor
    | some powers =>
      if powers.left < minimum then hand left cursor callers
      else call (.expression powers.right) (⟨.right minimum left token.lexeme, start⟩ :: callers) cursor.next.2

def stepClosing (inner : Expr) (cursor : Cursor) (callers : List Caller) : Machine :=
  if cursor.next.1.token = Token.closing then hand inner cursor.next.2 callers
  else raise .unclosedBracket cursor cursor.next.2

def step : Machine → Machine
  | ⟨cursor, .working work start callers⟩ =>
    match work with
    | .expression minimum => call .operand (⟨.operand minimum, start⟩ :: callers) cursor
    | .climb minimum left => stepClimb minimum left cursor start callers
    | .operand => stepOperand cursor start callers
    | .atoms run => stepAtoms run cursor start callers
    | .closing inner => stepClosing inner cursor callers
  | machine => machine

/-- A machine that reads an expression under a minimum from where a cursor stands. -/
def launch (minimum : ℚ) (cursor : Cursor) : Machine := call (.expression minimum) [] cursor

def outcome? (machine : Machine) : Option (Except Diagnostic (Expr × List Token)) :=
  match machine.control with
  | .working .. => none
  | .returned tree => some (.ok (tree, machine.cursor.rest))
  | .raised diagnostic => some (.error diagnostic)

variable {minimum : Nat} {threshold : ℚ} {left : Expr} {token : Token} {powers : Binding} {tokens rest : List Token}
  {cursor : Cursor} {start : Nat} {callers waiting : List Caller} {machine next : Machine}
  {outcome : Except Fault (Expr × List Token)}

/-! ### Single steps -/

theorem token_next (hrest : cursor.rest = token :: rest) : cursor.next.1.token = token := by
  rw [Cursor.next_fst, Cursor.token_peek hrest]

theorem stepOperand_atom (hrest : cursor.rest = token :: rest) (hkind : token.kind = .atom) :
    stepOperand cursor start callers = ⟨cursor.next.2, .working (.atoms [token]) start callers⟩ := by
  rw [stepOperand, token_next hrest]
  exact if_pos hkind

theorem stepOperand_opening (hrest : cursor.rest = Token.opening :: rest) :
    stepOperand cursor start callers = call (.expression 0) (⟨.inner, start⟩ :: callers) cursor.next.2 := by
  rw [stepOperand, token_next hrest]
  rfl

theorem stepOperand_stop (htoken : cursor.peek.token = token) (hkind : token.kind = .stop) :
    stepOperand cursor start callers = raise .unexpectedEnd cursor cursor.next.2 := by
  have hatom : token.kind ≠ .atom := by simp [hkind]
  have hopening : token ≠ Token.opening := by
    rintro rfl
    exact absurd hkind (by decide)
  rw [stepOperand, Cursor.next_fst, htoken]
  exact (if_neg hatom).trans ((if_neg hopening).trans (if_pos hkind))

theorem stepOperand_operator (hrest : cursor.rest = token :: rest) (hkind : token.kind = .operator)
    (hopening : token ≠ Token.opening) :
    stepOperand cursor start callers = raise (.operandExpected token) cursor cursor.next.2 := by
  have hatom : token.kind ≠ .atom := by simp [hkind]
  have hstop : token.kind ≠ .stop := by simp [hkind]
  rw [stepOperand, token_next hrest]
  exact (if_neg hatom).trans ((if_neg hopening).trans (if_neg hstop))

theorem stepClimb_ends (hends : ends cursor.peek.token = true) :
    stepClimb threshold left cursor start callers = hand left cursor callers :=
  if_pos hends

theorem stepClimb_atom (hrest : cursor.rest = token :: rest) (hkind : token.kind = .atom) :
    stepClimb threshold left cursor start callers = raise (.operatorExpected token) cursor cursor := by
  have hclosing : token ≠ Token.closing := by
    rintro rfl
    exact absurd hkind (by decide)
  have hends : ¬ends token = true := by simp [ends, hkind, hclosing]
  have hoperator : token.kind ≠ .operator := by simp [hkind]
  rw [stepClimb, Cursor.token_peek hrest]
  exact (if_neg hends).trans (if_pos hoperator)

theorem stepClimb_operator (hrest : cursor.rest = token :: rest) (hkind : token.kind = .operator)
    (hclosing : token ≠ Token.closing) :
    stepClimb threshold left cursor start callers =
      match Binding.of? token.lexeme with
      | none => raise (.unknownOperator token.lexeme) cursor cursor
      | some powers =>
        if powers.left < threshold then hand left cursor callers
        else call (.expression powers.right) (⟨.right threshold left token.lexeme, start⟩ :: callers) cursor.next.2 := by
  have hends : ¬ends token = true := by simp [ends, hkind, hclosing]
  have hoperator : ¬token.kind ≠ .operator := by simp [hkind]
  rw [stepClimb, Cursor.token_peek hrest]
  exact (if_neg hends).trans (if_neg hoperator)

theorem stepClimb_unknown (hrest : cursor.rest = token :: rest) (hkind : token.kind = .operator)
    (hclosing : token ≠ Token.closing) (hpowers : Binding.of? token.lexeme = none) :
    stepClimb threshold left cursor start callers = raise (.unknownOperator token.lexeme) cursor cursor := by
  rw [stepClimb_operator hrest hkind hclosing, hpowers]

theorem stepClimb_loose (hrest : cursor.rest = token :: rest) (hkind : token.kind = .operator)
    (hpowers : Binding.of? token.lexeme = some powers) (hloose : powers.left < threshold) :
    stepClimb threshold left cursor start callers = hand left cursor callers := by
  rw [stepClimb_operator hrest hkind (ne_closing_of_binding hpowers), hpowers]
  exact if_pos hloose

theorem stepClimb_tight (hrest : cursor.rest = token :: rest) (hkind : token.kind = .operator)
    (hpowers : Binding.of? token.lexeme = some powers) (htight : threshold ≤ powers.left) :
    stepClimb threshold left cursor start callers =
      call (.expression powers.right) (⟨.right threshold left token.lexeme, start⟩ :: callers) cursor.next.2 := by
  rw [stepClimb_operator hrest hkind (ne_closing_of_binding hpowers), hpowers]
  exact if_neg (not_lt.mpr htight)

/-! ### Where a call leads -/

def Leads (machine next : Machine) : Prop := ∃ n, step^[n] machine = next

theorem Leads.refl (machine : Machine) : Leads machine machine := ⟨0, rfl⟩

theorem Leads.of_step (machine : Machine) : Leads machine machine.step := ⟨1, rfl⟩

theorem Leads.trans {last : Machine} (h : Leads machine next) (hnext : Leads next last) : Leads machine last := by
  obtain ⟨n, rfl⟩ := h
  obtain ⟨k, rfl⟩ := hnext
  exact ⟨k + n, Function.iterate_add_apply step k n machine⟩

/-- A machine comes to where a call ends: its tree is handed over in front of the rest, or its flaw is reported. -/
def Settles (tokens : List Token) (callers : List Caller) (machine : Machine) : Except Fault (Expr × List Token) → Prop
  | .ok (tree, rest) =>
    ∃ cursor : Cursor, cursor.tokens = tokens ∧ cursor.rest = rest ∧ Leads machine (hand tree cursor callers)
  | .error fault => ∃ cursor, Leads machine ⟨cursor, .raised (fault.diagnostic tokens)⟩

theorem Settles.of_leads (h : Settles tokens callers next outcome) (hleads : Leads machine next) :
    Settles tokens callers machine outcome := by
  cases outcome with
  | error fault =>
    obtain ⟨cursor, hnext⟩ := h
    exact ⟨cursor, hleads.trans hnext⟩
  | ok value =>
    obtain ⟨cursor, htokens, hrest, hnext⟩ := h
    exact ⟨cursor, htokens, hrest, hleads.trans hnext⟩

theorem Settles.of_step (h : Settles tokens callers next outcome) (hstep : machine.step = next) :
    Settles tokens callers machine outcome :=
  h.of_leads (hstep ▸ Leads.of_step machine)

theorem Settles.bind {continuation : Expr × List Token → Except Fault (Expr × List Token)}
    (h : Settles tokens waiting machine outcome)
    (hcontinue : ∀ tree rest, outcome = .ok (tree, rest) → ∀ cursor : Cursor, cursor.tokens = tokens →
      cursor.rest = rest → Settles tokens callers (hand tree cursor waiting) (continuation (tree, rest))) :
    Settles tokens callers machine (outcome.bind continuation) := by
  cases outcome with
  | error fault => exact h
  | ok value =>
    obtain ⟨cursor, htokens, hrest, hleads⟩ := h
    exact (hcontinue value.1 value.2 rfl cursor htokens hrest).of_leads hleads

theorem settles_hand (tree : Expr) (callers : List Caller) (hrest : cursor.rest = rest) :
    Settles cursor.tokens callers (hand tree cursor callers) (.ok (tree, rest)) :=
  ⟨cursor, rfl, hrest, Leads.refl _⟩

theorem settles_raise (flaw : Flaw) (after : Cursor) (hrest : cursor.rest = rest) :
    Settles cursor.tokens callers (raise flaw cursor after) (.error ⟨flaw, rest⟩) := by
  have hposition : (cursor.tokens.length : Int) - rest.length = cursor.position := by
    rw [← hrest, Cursor.length_rest, ← cursor.position_add_remaining]
    omega
  refine ⟨after, ?_⟩
  rw [Fault.diagnostic, hposition]
  exact Leads.refl _

/-! ### The machine follows the recursion -/

theorem settles_atoms (run : List Token) (start : Nat) (callers : List Caller) (hrest : cursor.rest = rest) :
    Settles cursor.tokens callers ⟨cursor, .working (.atoms run) start callers⟩
      (.ok (.atom (Token.spell (run ++ rest.takeWhile isAtom)), rest.dropWhile isAtom)) := by
  induction rest generalizing run cursor with
  | nil =>
    have hatom : ¬cursor.peek.token.kind = .atom := by
      rw [Cursor.peek_of_rest_nil hrest]
      decide
    rw [List.takeWhile_nil, List.append_nil, List.dropWhile_nil]
    exact (settles_hand _ callers hrest).of_step (if_neg hatom)
  | cons token rest ih =>
    have htoken := Cursor.token_peek hrest
    by_cases hatom : token.kind = .atom
    · have hisAtom : isAtom token = true := by simp [isAtom, hatom]
      have hmore := ih (run ++ [token]) (Cursor.rest_next hrest (by simp [hatom]))
      rw [Cursor.tokens_next, List.append_assoc, List.singleton_append] at hmore
      rw [List.takeWhile_cons_of_pos hisAtom, List.dropWhile_cons_of_pos hisAtom]
      refine hmore.of_step ((if_pos (htoken ▸ hatom)).trans ?_)
      rw [token_next hrest]
    · have hisAtom : ¬isAtom token = true := by simp [isAtom, hatom]
      rw [List.takeWhile_cons_of_neg hisAtom, List.dropWhile_cons_of_neg hisAtom, List.append_nil]
      exact (settles_hand _ callers hrest).of_step (if_neg (htoken ▸ hatom))

theorem settles_closing (inner : Expr) (start : Nat) (callers : List Caller) : cursor.rest = rest →
    Settles cursor.tokens callers ⟨cursor, .working (.closing inner) start callers⟩
      (match rest with
      | [] => .error ⟨.unclosedBracket, []⟩
      | next :: after =>
        if next = Token.closing then .ok (inner, after) else .error ⟨.unclosedBracket, next :: after⟩) := by
  intro hrest
  cases rest with
  | nil =>
    have hclosing : ¬cursor.next.1.token = Token.closing := by
      rw [Cursor.next_fst, Cursor.peek_of_rest_nil hrest]
      decide
    exact (settles_raise .unclosedBracket _ hrest).of_step (if_neg hclosing)
  | cons next after =>
    have htoken := token_next hrest
    dsimp only
    by_cases hnext : next = Token.closing
    · have hmore := settles_hand inner callers (Cursor.rest_next hrest (by simp [hnext, Token.closing]))
      rw [Cursor.tokens_next] at hmore
      rw [if_pos hnext]
      exact hmore.of_step (if_pos (htoken.trans hnext))
    · rw [if_neg hnext]
      exact (settles_raise .unclosedBracket _ hrest).of_step (if_neg (htoken ▸ hnext))

/-- Every call, from wherever it is made and whatever waits for it, comes to what the recursion gives. -/
theorem settles_hereditary : Hereditary
    (fun tokens => ∀ (cursor : Cursor) start callers, cursor.rest = tokens →
      Settles cursor.tokens callers ⟨cursor, .working .operand start callers⟩ (parseOperand tokens))
    (fun minimum tokens => ∀ threshold : ℚ, ⌈threshold⌉₊ = minimum → ∀ (cursor : Cursor) start callers,
      cursor.rest = tokens →
      Settles cursor.tokens callers ⟨cursor, .working (.expression threshold) start callers⟩
        (parsePrefix minimum tokens))
    (fun minimum left tokens => ∀ threshold : ℚ, ⌈threshold⌉₊ = minimum → ∀ (cursor : Cursor) start callers,
      cursor.rest = tokens →
      Settles cursor.tokens callers ⟨cursor, .working (.climb threshold left) start callers⟩
        (climb minimum left tokens)) where
  operand_nil := by
    intro cursor start callers hrest
    rw [parseOperand_nil]
    exact (settles_raise .unexpectedEnd _ hrest).of_step
      (stepOperand_stop (congrArg Token.Element.token (Cursor.peek_of_rest_nil hrest)) rfl)
  operand_atom := by
    intro token rest hkind cursor start callers hrest
    have hatoms := settles_atoms [token] start callers (Cursor.rest_next hrest (by simp [hkind]))
    rw [Cursor.tokens_next] at hatoms
    rw [parseOperand_atom hkind]
    exact hatoms.of_step (stepOperand_atom hrest hkind)
  operand_opening := by
    intro rest hinner cursor start callers hrest
    have hexpression := hinner 0 Nat.ceil_zero cursor.next.2 cursor.next.2.remaining (⟨.inner, start⟩ :: callers)
      (Cursor.rest_next hrest (by decide))
    rw [Cursor.tokens_next] at hexpression
    rw [parseOperand_opening]
    refine Settles.of_step (hexpression.bind ?_) (stepOperand_opening hrest)
    intro inner after _ behind htokens hbehind
    rw [← htokens]
    exact settles_closing inner start callers hbehind
  operand_stop := by
    intro token rest hkind cursor start callers hrest
    rw [parseOperand_stop hkind]
    exact (settles_raise .unexpectedEnd _ hrest).of_step (stepOperand_stop (Cursor.token_peek hrest) hkind)
  operand_operator := by
    intro token rest hkind hopening cursor start callers hrest
    rw [parseOperand_operator hkind hopening]
    exact (settles_raise (.operandExpected token) _ hrest).of_step (stepOperand_operator hrest hkind hopening)
  expression := by
    intro minimum tokens hoperand hclimb threshold hthreshold cursor start callers hrest
    have hfirst := hoperand cursor cursor.remaining (⟨.operand threshold, start⟩ :: callers) hrest
    rw [parsePrefix_eq]
    refine Settles.of_step (hfirst.bind ?_) rfl
    intro operand after hparse behind htokens hbehind
    rw [← htokens]
    exact hclimb operand after hparse threshold hthreshold behind start callers hbehind
  climb_nil := by
    intro minimum left threshold _ cursor start callers hrest
    have hends : ends cursor.peek.token = true := by
      rw [Cursor.peek_of_rest_nil hrest]
      rfl
    rw [climb_nil]
    exact (settles_hand left callers hrest).of_step (stepClimb_ends hends)
  climb_ends := by
    intro token minimum left rest hends threshold _ cursor start callers hrest
    rw [climb_ends hends]
    exact (settles_hand left callers hrest).of_step (stepClimb_ends (Cursor.token_peek hrest ▸ hends))
  climb_atom := by
    intro token minimum left rest hkind threshold _ cursor start callers hrest
    rw [climb_atom hkind]
    exact (settles_raise (.operatorExpected token) _ hrest).of_step (stepClimb_atom hrest hkind)
  climb_unknown := by
    intro token minimum left rest hkind hclosing hpowers threshold _ cursor start callers hrest
    rw [climb_unknown hkind hclosing hpowers]
    exact (settles_raise (.unknownOperator token.lexeme) _ hrest).of_step (stepClimb_unknown hrest hkind hclosing hpowers)
  climb_loose := by
    intro token powers minimum left rest hkind hpowers hloose threshold hthreshold cursor start callers hrest
    have hbelow : powers.left < threshold := Nat.lt_ceil.mp (hthreshold.symm ▸ hloose)
    rw [climb_loose hkind hpowers hloose]
    exact (settles_hand left callers hrest).of_step (stepClimb_loose hrest hkind hpowers hbelow)
  climb_tight := by
    intro token powers minimum left rest hkind hpowers htight hright hclimb threshold hthreshold cursor start callers hrest
    have hreaches : threshold ≤ powers.left := Nat.ceil_le.mp (hthreshold.le.trans htight)
    have hexpression := hright powers.right (Nat.ceil_natCast powers.right) cursor.next.2 cursor.next.2.remaining
      (⟨.right threshold left token.lexeme, start⟩ :: callers) (Cursor.rest_next hrest (by simp [hkind]))
    rw [Cursor.tokens_next] at hexpression
    rw [climb_tight hkind hpowers htight]
    refine Settles.of_step (hexpression.bind ?_) (stepClimb_tight hrest hkind hpowers hreaches)
    intro right after hparse behind htokens hbehind
    rw [← htokens]
    exact hclimb right after hparse threshold hthreshold behind start callers hbehind

theorem exists_outcome?_launch (threshold : ℚ) (cursor : Cursor) : ∃ n, (step^[n] (launch threshold cursor)).outcome? =
    some ((parsePrefix ⌈threshold⌉₊ cursor.rest).mapError fun fault => fault.diagnostic cursor.tokens) := by
  have hsettles := settles_hereditary.parsed ⌈threshold⌉₊ cursor.rest threshold rfl cursor cursor.remaining [] rfl
  cases hparse : parsePrefix ⌈threshold⌉₊ cursor.rest with
  | error fault =>
    rw [hparse] at hsettles
    obtain ⟨after, n, hn⟩ := hsettles
    refine ⟨n, ?_⟩
    change (step^[n] ⟨cursor, .working (.expression threshold) cursor.remaining []⟩).outcome? = _
    rw [hn]
    rfl
  | ok value =>
    rw [hparse] at hsettles
    obtain ⟨behind, -, hbehind, n, hn⟩ := hsettles
    refine ⟨n, ?_⟩
    change (step^[n] ⟨cursor, .working (.expression threshold) cursor.remaining []⟩).outcome? = _
    rw [hn]
    change some (Except.ok (value.1, behind.rest)) = _
    rw [hbehind]
    rfl

end Machine

end Reckoner.Parser
