import Reckoner.Proofs.Parsing.Derivation

/-!
# One sweep with a counter

Whether a token list parses, and if not what is wrong and where, can be seen in one pass that knows no powers and no recursion: it remembers what it saw last and how many brackets are open. A call of the parser and the sweep go through the same tokens, and the sweep cannot tell at which of the pending calls the climb resumes. So it does not matter to it that some of them look at an operator again and leave it to a caller.
-/

open Reckoner.Parser

namespace Reckoner.Sweep

inductive Mode where
  | operand
  | afterAtom
  | afterClose
deriving DecidableEq, Repr

structure State where
  mode : Mode
  /-- The number of open brackets. -/
  depth : Nat
deriving DecidableEq, Repr

inductive Move where
  | go (next : State)
  | halt (outcome : Except Flaw Unit)
deriving DecidableEq

def State.atStop : State → Except Flaw Unit
  | ⟨.operand, _⟩ => .error .unexpectedEnd
  | ⟨_, 0⟩ => .ok ()
  | ⟨_, _ + 1⟩ => .error .unclosedBracket

def State.step (state : State) (token : Token) : Move :=
  match state.mode, token.kind with
  | _, .stop => .halt state.atStop
  | .operand, .atom => .go ⟨.afterAtom, state.depth⟩
  | .operand, .operator =>
    if token = Token.opening then .go ⟨.operand, state.depth + 1⟩ else .halt (.error (.operandExpected token))
  | .afterAtom, .atom => .go ⟨.afterAtom, state.depth⟩
  | .afterClose, .atom => .halt (.error (.operatorExpected token))
  | _, .operator =>
    if token = Token.closing then
      match state.depth with
      | 0 => .halt (.ok ())
      | depth + 1 => .go ⟨.afterClose, depth⟩
    else if (Binding.of? token.lexeme).isSome then .go ⟨.operand, state.depth⟩
    else .halt (.error (.unknownOperator token.lexeme))

/-- The outcome of a sweep, a flaw with the index of the token looked at. -/
def run (state : State) (index : Nat) : List Token → Except (Flaw × Nat) Unit
  | [] => state.atStop.mapError fun flaw => (flaw, index)
  | token :: rest =>
    match state.step token with
    | .go next => run next (index + 1) rest
    | .halt outcome => outcome.mapError fun flaw => (flaw, index)

def sweep (tokens : List Token) : Except (Flaw × Nat) Unit := run ⟨.operand, 0⟩ 0 tokens

/-! ### Moves -/

section
variable {token : Token} {rest : List Token} {state : State} {depth : Nat}

theorem step_stop (hkind : token.kind = .stop) : state.step token = .halt state.atStop := by
  unfold State.step
  rw [hkind]

theorem step_atom {mode : Mode} (hmode : mode ≠ .afterClose) (hkind : token.kind = .atom) (depth : Nat) :
    State.step ⟨mode, depth⟩ token = .go ⟨.afterAtom, depth⟩ := by
  unfold State.step
  rw [hkind]
  cases mode with
  | operand => rfl
  | afterAtom => rfl
  | afterClose => exact absurd rfl hmode

theorem step_closing (hmode : state.mode ≠ .operand) :
    state.step Token.closing = match state.depth with
      | 0 => .halt (.ok ())
      | depth + 1 => .go ⟨.afterClose, depth⟩ := by
  unfold State.step
  cases hstate : state.mode with
  | operand => exact absurd hstate hmode
  | afterAtom => rfl
  | afterClose => rfl

theorem step_operator (hmode : state.mode ≠ .operand) (hkind : token.kind = .operator)
    (hclosing : token ≠ Token.closing) :
    state.step token =
      if (Binding.of? token.lexeme).isSome then .go ⟨.operand, state.depth⟩
      else .halt (.error (.unknownOperator token.lexeme)) := by
  unfold State.step
  rw [hkind]
  cases hstate : state.mode with
  | operand => exact absurd hstate hmode
  | afterAtom => exact if_neg hclosing
  | afterClose => exact if_neg hclosing

/-- Where no bracket is open the end of an expression is what the sweep accepts at. -/
theorem step_of_ends {mode : Mode} (hmode : mode ≠ .operand) (hends : ends token = true) :
    State.step ⟨mode, 0⟩ token = .halt (.ok ()) := by
  by_cases hclosing : token = Token.closing
  · rw [hclosing, step_closing hmode]
  · rw [step_stop (kind_eq_stop_of_ends hends hclosing)]
    cases mode with
    | operand => exact absurd rfl hmode
    | afterAtom => rfl
    | afterClose => rfl

/-- Only atoms tell a closed bracket from an atom. -/
theorem run_afterAtom_eq (hatom : ∀ token ∈ rest.head?, token.kind ≠ .atom) (index : Nat) :
    run ⟨.afterAtom, depth⟩ index rest = run ⟨.afterClose, depth⟩ index rest := by
  cases rest with
  | nil => cases depth <;> rfl
  | cons token rest =>
    have hstep : State.step ⟨.afterAtom, depth⟩ token = State.step ⟨.afterClose, depth⟩ token := by
      cases hkind : token.kind with
      | atom => exact absurd hkind (hatom token rfl)
      | stop =>
        rw [step_stop hkind, step_stop hkind]
        cases depth <;> rfl
      | operator =>
        by_cases hclosing : token = Token.closing
        · rw [hclosing, step_closing (by simp), step_closing (by simp)]
        · rw [step_operator (by simp) hkind hclosing, step_operator (by simp) hkind hclosing]
    rw [run, run, hstep]

theorem run_go {next : State} {total : Nat} (hstep : state.step token = .go next)
    (htotal : (token :: rest).length ≤ total) :
    run state (total - (token :: rest).length) (token :: rest) = run next (total - rest.length) rest := by
  have hindex : total - (token :: rest).length + 1 = total - rest.length := by
    simp only [List.length_cons] at htotal ⊢
    omega
  rw [run, hstep, hindex]

theorem run_halt {outcome : Except Flaw Unit} (hstep : state.step token = .halt outcome) (index : Nat) :
    run state index (token :: rest) = outcome.mapError fun flaw => (flaw, index) := by
  rw [run, hstep]

end

/-! ### The sweep follows the parser -/

/-- The sweep after a call of the parser in a list of a given length: it goes on behind the tree, or fails at the fault. -/
def resume (total depth : Nat) : Except Fault (Expr × List Token) → Except (Flaw × Nat) Unit
  | .error fault => .error (fault.flaw, total - fault.rest.length)
  | .ok (_, rest) => run ⟨.afterClose, depth⟩ (total - rest.length) rest

theorem resume_bind {total depth : Nat} {outcome : Except Fault (Expr × List Token)}
    {next : Expr × List Token → Except Fault (Expr × List Token)}
    (hnext : ∀ value, outcome = .ok value → resume total depth (next value) = resume total depth (.ok value)) :
    resume total depth (outcome.bind next) = resume total depth outcome := by
  cases outcome with
  | error fault => rfl
  | ok value => exact hnext value rfl

theorem run_afterAtom_dropWhile {total : Nat} (depth : Nat) (tokens : List Token) (htotal : tokens.length ≤ total) :
    run ⟨.afterAtom, depth⟩ (total - tokens.length) tokens =
      run ⟨.afterClose, depth⟩ (total - (tokens.dropWhile isAtom).length) (tokens.dropWhile isAtom) := by
  induction tokens with
  | nil => exact run_afterAtom_eq (by simp) _
  | cons token rest ih =>
    by_cases hatom : token.kind = .atom
    · rw [run_go (step_atom (by simp) hatom depth) htotal, ih (by simp only [List.length_cons] at htotal; omega),
        List.dropWhile_cons_of_pos (by simp [isAtom, hatom])]
    · rw [List.dropWhile_cons_of_neg (by simp [isAtom, hatom])]
      exact run_afterAtom_eq (by simp [hatom]) _

theorem resume_hereditary : Hereditary
    (fun tokens => ∀ total depth, tokens.length ≤ total →
      run ⟨.operand, depth⟩ (total - tokens.length) tokens = resume total depth (parseOperand tokens))
    (fun minimum tokens => ∀ total depth, tokens.length ≤ total →
      run ⟨.operand, depth⟩ (total - tokens.length) tokens = resume total depth (parsePrefix minimum tokens))
    (fun minimum left tokens => ∀ total depth, tokens.length ≤ total →
      run ⟨.afterClose, depth⟩ (total - tokens.length) tokens = resume total depth (climb minimum left tokens)) where
  operand_nil := by
    intro total depth _
    rw [parseOperand_nil]
    rfl
  operand_atom := by
    intro token rest hkind total depth htotal
    rw [parseOperand_atom hkind, run_go (step_atom (by simp) hkind depth) htotal]
    exact run_afterAtom_dropWhile depth rest (Nat.le_of_succ_le htotal)
  operand_opening := by
    intro rest hinner total depth htotal
    rw [parseOperand_opening, run_go rfl htotal, hinner total (depth + 1) (Nat.le_of_succ_le htotal)]
    cases hparse : parsePrefix 0 rest with
    | error fault => rfl
    | ok value =>
      obtain ⟨inner, after⟩ := value
      have hends := halts_zero_iff.mp (halts_of_parsePrefix hparse)
      have hshorter := length_lt_of_parsePrefix hparse
      cases after with
      | nil => rfl
      | cons next after =>
        simp only [List.length_cons] at htotal hshorter
        by_cases hnext : next = Token.closing
        · have hstep : State.step ⟨.afterClose, depth + 1⟩ Token.closing = .go ⟨.afterClose, depth⟩ :=
            step_closing (by simp)
          subst hnext
          exact run_go hstep (by simp only [List.length_cons]; omega)
        · have hkind : next.kind = .stop := kind_eq_stop_of_ends (hends next rfl) hnext
          simp only [resume, Except.bind, if_neg hnext]
          exact run_halt (step_stop hkind) _
  operand_stop := by
    intro token rest hkind total depth _
    rw [parseOperand_stop hkind, run_halt (step_stop hkind)]
    rfl
  operand_operator := by
    intro token rest hkind hopening total depth _
    have hstep : State.step ⟨.operand, depth⟩ token = .halt (.error (.operandExpected token)) := by
      unfold State.step
      rw [hkind]
      exact if_neg hopening
    rw [parseOperand_operator hkind hopening, run_halt hstep]
    rfl
  expression := by
    intro minimum tokens hoperand hclimb total depth htotal
    rw [parsePrefix_eq, hoperand total depth htotal, resume_bind]
    rintro ⟨operand, after⟩ hparse
    have hshorter := length_lt_of_parseOperand hparse
    exact (hclimb operand after hparse total depth (by omega)).symm
  climb_nil := by
    intro minimum left total depth _
    rw [climb_nil]
    rfl
  climb_ends := by
    intro token minimum left rest hends total depth _
    rw [climb_ends hends]
    rfl
  climb_atom := by
    intro token minimum left rest hkind total depth _
    have hstep : State.step ⟨.afterClose, depth⟩ token = .halt (.error (.operatorExpected token)) := by
      unfold State.step
      rw [hkind]
    rw [climb_atom hkind, run_halt hstep]
    rfl
  climb_unknown := by
    intro token minimum left rest hkind hclosing hpowers total depth _
    have hstep : State.step ⟨.afterClose, depth⟩ token = .halt (.error (.unknownOperator token.lexeme)) := by
      rw [step_operator (by simp) hkind hclosing, hpowers]
      rfl
    rw [climb_unknown hkind hclosing hpowers, run_halt hstep]
    rfl
  climb_loose := by
    intro token powers minimum left rest hkind hpowers hloose total depth _
    rw [climb_loose hkind hpowers hloose]
    rfl
  climb_tight := by
    intro token powers minimum left rest hkind hpowers htight hright hclimb total depth htotal
    have hstep : State.step ⟨.afterClose, depth⟩ token = .go ⟨.operand, depth⟩ := by
      rw [step_operator (by simp) hkind (ne_closing_of_binding hpowers), hpowers]
      rfl
    rw [climb_tight hkind hpowers htight, run_go hstep htotal, hright total depth (Nat.le_of_succ_le htotal), resume_bind]
    rintro ⟨right, after⟩ hparse
    have hshorter := length_lt_of_parsePrefix hparse
    simp only [List.length_cons] at htotal
    exact (hclimb right after hparse total depth (by omega)).symm

/-! ### Whole token lists -/

theorem run_of_ends {rest : List Token} (hends : ∀ token ∈ rest.head?, ends token = true) (index : Nat) :
    run ⟨.afterClose, 0⟩ index rest = .ok () := by
  cases rest with
  | nil => rfl
  | cons token rest =>
    rw [run_halt (step_of_ends (by simp) (hends token rfl))]
    rfl

theorem sweep_eq (tokens : List Token) :
    sweep tokens = match parsePrefix 0 tokens with
      | .error fault => .error (fault.flaw, tokens.length - fault.rest.length)
      | .ok _ => .ok () := by
  have hresume := resume_hereditary.parsed 0 tokens tokens.length 0 (Nat.le_refl _)
  rw [Nat.sub_self] at hresume
  rw [sweep, hresume]
  cases hparse : parsePrefix 0 tokens with
  | error fault => rfl
  | ok value =>
    obtain ⟨tree, rest⟩ := value
    exact run_of_ends (halts_zero_iff.mp (halts_of_parsePrefix hparse)) _

theorem exists_parseTokens_iff {tokens : List Token} :
    (∃ parsed, parseTokens tokens = .ok parsed) ↔ sweep tokens = .ok () := by
  rw [sweep_eq]
  unfold parseTokens
  cases parsePrefix 0 tokens with
  | error fault => simp
  | ok value => simp

theorem parseTokens_eq_error_iff {tokens : List Token} {d : Diagnostic} :
    parseTokens tokens = .error d ↔ ∃ index : Nat, sweep tokens = .error (d.flaw, index) ∧ d = ⟨d.flaw, tokens, index⟩ := by
  rw [sweep_eq]
  unfold parseTokens
  cases hparse : parsePrefix 0 tokens with
  | error fault =>
    have hlength := (rest_suffix_of_error hparse).length_le
    have hindex : (tokens.length : Int) - fault.rest.length = (tokens.length - fault.rest.length : Nat) := by omega
    simp only [Fault.diagnostic, hindex, Except.error.injEq, Prod.mk.injEq]
    constructor
    · rintro rfl
      exact ⟨_, ⟨rfl, rfl⟩, rfl⟩
    · rintro ⟨index, ⟨hflaw, rfl⟩, hd⟩
      rw [hd, hflaw]
  | ok value => simp

/-- Parsing has the outcome of the sweep: it succeeds if the sweep does, and otherwise reports the same flaw at the same index. -/
theorem parseTokens_map_eq_sweep (tokens : List Token) :
    (parseTokens tokens).map (fun _ => ()) =
      (sweep tokens).mapError fun (flaw, index) => (⟨flaw, tokens, index⟩ : Diagnostic) := by
  cases hparse : parseTokens tokens with
  | error d =>
    obtain ⟨index, hsweep, hd⟩ := parseTokens_eq_error_iff.mp hparse
    rw [hsweep, hd]
    rfl
  | ok parsed =>
    rw [exists_parseTokens_iff.mp ⟨parsed, hparse⟩]
    rfl

example : sweep (Token.scan "a*(b+(1 2)") = .error (.unclosedBracket, 9) := by decide

end Reckoner.Sweep
