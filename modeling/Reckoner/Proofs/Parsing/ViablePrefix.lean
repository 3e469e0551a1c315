import Reckoner.Proofs.Parsing.Sweep
import Mathlib.Order.Bounds.Defs

/-!
# Viable beginnings

A syntax error stands at the first token that no continuation can repair. From every state of the sweep some tokens lead to acceptance, so all the tokens in front of an error have a continuation that parses; and the sweep fails at the token of the error before it has seen any token behind it.
-/

open Reckoner.Parser

namespace Reckoner.Sweep

variable {state next : State} {front back tokens : List Token} {flaw : Flaw}

/-! ### Runs through a beginning -/

def State.walk (state : State) : List Token → Option State
  | [] => some state
  | token :: rest =>
    match state.step token with
    | .go next => next.walk rest
    | .halt _ => none

theorem run_append (hwalk : state.walk front = some next) (index : Nat) (back : List Token) :
    run state index (front ++ back) = run next (index + front.length) back := by
  induction front generalizing state index with
  | nil =>
    obtain rfl : state = next := Option.some.inj hwalk
    rfl
  | cons token rest ih =>
    rw [State.walk] at hwalk
    rw [List.cons_append, run]
    cases hstep : state.step token with
    | halt outcome =>
      rw [hstep] at hwalk
      cases hwalk
    | go after =>
      rw [hstep] at hwalk
      dsimp only
      rw [ih hwalk, List.length_cons, Nat.add_assoc, Nat.add_comm 1]

/-- The sweep fails on the first of the tokens, or at their end. -/
def State.Fails (state : State) (flaw : Flaw) : List Token → Prop
  | [] => state.atStop = .error flaw
  | token :: _ => state.step token = .halt (.error flaw)

theorem run_of_fails (hfails : state.Fails flaw back) (index : Nat) : run state index back = .error (flaw, index) := by
  cases back with
  | nil =>
    rw [run, show state.atStop = .error flaw from hfails]
    rfl
  | cons token rest =>
    rw [run_halt hfails]
    rfl

private theorem mapError_eq_error {outcome : Except Flaw Unit} {index place : Nat}
    (h : (outcome.mapError fun flaw => (flaw, index)) = .error (flaw, place)) : outcome = .error flaw ∧ place = index := by
  cases outcome with
  | error found =>
    obtain ⟨rfl, rfl⟩ := Prod.mk.inj (Except.error.inj h)
    exact ⟨rfl, rfl⟩
  | ok _ => cases h

/-- A failing run goes through the tokens in front of the place that it reports. -/
theorem exists_walk_of_run_eq_error {index place : Nat} (h : run state index tokens = .error (flaw, place)) :
    ∃ front back next, tokens = front ++ back ∧ place = index + front.length ∧ state.walk front = some next ∧
      next.Fails flaw back := by
  induction tokens generalizing state index with
  | nil =>
    obtain ⟨hfails, rfl⟩ := mapError_eq_error h
    exact ⟨[], [], state, rfl, rfl, rfl, hfails⟩
  | cons token rest ih =>
    rw [run] at h
    cases hstep : state.step token with
    | halt outcome =>
      rw [hstep] at h
      obtain ⟨rfl, rfl⟩ := mapError_eq_error h
      exact ⟨[], token :: rest, state, rfl, rfl, rfl, hstep⟩
    | go after =>
      rw [hstep] at h
      obtain ⟨front, back, next, rfl, hplace, hwalk, hfails⟩ := ih h
      refine ⟨token :: front, back, next, rfl, ?_, ?_, hfails⟩
      · rw [hplace, List.length_cons]
        omega
      · rw [State.walk, hstep]
        exact hwalk

/-! ### Every state can be completed -/

/-- Tokens that lead from a state to acceptance: an operand if one is due, and the closing brackets. -/
def State.completion (state : State) : List Token :=
  if state.mode = .operand then ⟨.atom, "0"⟩ :: List.replicate state.depth Token.closing
  else List.replicate state.depth Token.closing

theorem run_replicate_closing {mode : Mode} (hmode : mode ≠ .operand) (depth index : Nat) :
    run ⟨mode, depth⟩ index (List.replicate depth Token.closing) = .ok () := by
  induction depth generalizing mode index with
  | zero =>
    cases mode with
    | operand => exact absurd rfl hmode
    | afterAtom => rfl
    | afterClose => rfl
  | succ depth ih =>
    rw [List.replicate_succ, run, step_closing hmode]
    exact ih (by simp) (index + 1)

theorem run_completion (state : State) (index : Nat) : run state index state.completion = .ok () := by
  obtain ⟨mode, depth⟩ := state
  by_cases hmode : mode = .operand
  · subst hmode
    have hafter : Mode.afterAtom ≠ .operand := by simp
    exact run_replicate_closing hafter depth (index + 1)
  · rw [State.completion, if_neg hmode]
    exact run_replicate_closing hmode depth index

/-! ### The place of an error -/

def Viable (front : List Token) : Prop := ∃ more parsed, parseTokens (front ++ more) = .ok parsed

theorem viable_of_walk (hwalk : State.walk ⟨.operand, 0⟩ front = some next) : Viable front := by
  refine ⟨next.completion, exists_parseTokens_iff.mpr ?_⟩
  rw [sweep, run_append hwalk]
  exact run_completion next _

/-- Nothing behind the token at which the sweep fails changes the error. -/
theorem parseTokens_of_fails {token : Token} {rest : List Token} (hwalk : State.walk ⟨.operand, 0⟩ front = some next)
    (hfails : next.Fails flaw (token :: rest)) (more : List Token) :
    parseTokens (front ++ token :: more) = .error ⟨flaw, front ++ token :: more, front.length⟩ := by
  refine parseTokens_eq_error_iff.mpr ⟨front.length, ?_, rfl⟩
  have hagain : next.Fails flaw (token :: more) := hfails
  rw [sweep, run_append hwalk, run_of_fails hagain, Nat.zero_add]

/-- An error stands behind the longest beginning of the tokens that some continuation repairs, and all token lists that share the tokens up to and including the one at fault have the same flaw at the same index. -/
theorem error_index_isGreatest {d : Diagnostic} (herror : parseTokens tokens = .error d) :
    ∃ index : Nat, d.index = index ∧
      IsGreatest {length | length ≤ tokens.length ∧ Viable (tokens.take length)} index ∧
      (index < tokens.length → ∀ more, ∃ e : Diagnostic,
        parseTokens (tokens.take (index + 1) ++ more) = .error e ∧ e.flaw = d.flaw ∧ e.index = d.index) := by
  obtain ⟨index, hsweep, hd⟩ := parseTokens_eq_error_iff.mp herror
  obtain ⟨front, back, next, rfl, hindex, hwalk, hfails⟩ := exists_walk_of_run_eq_error hsweep
  obtain rfl : index = front.length := by rw [hindex, Nat.zero_add]
  have hplace : d.index = front.length := by rw [hd]
  refine ⟨front.length, hplace, ⟨⟨by simp, by simpa using viable_of_walk hwalk⟩, ?_⟩, ?_⟩
  · rintro length ⟨hlength, more, parsed, hparsed⟩
    refine Nat.not_lt.mp fun hlonger => ?_
    cases back with
    | nil => simp at hlength; omega
    | cons token rest =>
      obtain ⟨extra, rfl⟩ : ∃ extra, length = front.length + (extra + 1) := ⟨length - front.length - 1, by omega⟩
      rw [List.take_length_add_append, List.take_succ_cons, List.append_assoc, List.cons_append,
        parseTokens_of_fails hwalk hfails] at hparsed
      cases hparsed
  · intro hshorter more
    cases back with
    | nil => simp at hshorter
    | cons token rest =>
      have htake : (front ++ token :: rest).take (front.length + 1) ++ more = front ++ token :: more := by
        rw [List.take_length_add_append]
        simp
      have hagain := parseTokens_of_fails hwalk hfails more
      rw [← htake] at hagain
      exact ⟨_, hagain, rfl, hplace.symm⟩

theorem error_index_isGreatest_behind_bracket :
    ∃ d : Diagnostic, parseTokens (Token.scan "2*(1)3+") = .error d ∧ ∃ index : Nat, d.index = index ∧
      IsGreatest {length | length ≤ (Token.scan "2*(1)3+").length ∧ Viable ((Token.scan "2*(1)3+").take length)} index ∧
      (index < (Token.scan "2*(1)3+").length → ∀ more, ∃ e : Diagnostic,
        parseTokens ((Token.scan "2*(1)3+").take (index + 1) ++ more) = .error e ∧ e.flaw = d.flaw ∧
          e.index = d.index) := by
  have herror : parseTokens (Token.scan "2*(1)3+") =
      .error ⟨.operatorExpected ⟨.atom, "3"⟩, Token.scan "2*(1)3+", 5⟩ := by decide +kernel
  exact ⟨_, herror, error_index_isGreatest herror⟩

end Reckoner.Sweep
