import Reckoner.Proofs.Parsing.Machine

/-!
# The parser comes to an end

The loops of the parser say nothing about when they stop, and a cursor in front of the sentinel or at the end of its tokens can be asked for the next one for ever. `Moves` lists all that a step can do, and everything here is read off that list. A step that neither ends a call nor is the first of an expression moves the cursor, so what is left to do gets less with every step. A call for an expression is made behind a token that the call which makes it has used up; the operand of an expression starts where the expression does. So the expressions in progress start further and further on, and there are at most as many of them as there are tokens, and one more.
-/

namespace Reckoner.Parser.Machine

open Token (Cursor)

variable {cursor behind : Cursor} {work : Work} {start limit : Nat} {callers : List Caller} {machine next : Machine}

/-! ### What a step can do -/

structure Over (cursor behind : Cursor) : Prop where
  tokens_eq : behind.tokens = cursor.tokens
  remaining_eq : behind.remaining + 1 = cursor.remaining

theorem over_next (h : cursor.peek.token.kind ≠ .stop) : Over cursor cursor.next.2 := by
  refine ⟨Cursor.tokens_next cursor, ?_⟩
  obtain ⟨passed, ahead⟩ := cursor
  cases ahead with
  | nil => exact absurd rfl h
  | cons element ahead =>
    cases element with
    | own token => rfl
    | sentinel => exact absurd rfl h

/-- A cursor stays where it is or is moved over one token. -/
def Onward (cursor behind : Cursor) : Prop := behind = cursor ∨ Over cursor behind

theorem onward_next (cursor : Cursor) : Onward cursor cursor.next.2 := by
  have htokens := Cursor.tokens_next cursor
  obtain ⟨passed, ahead⟩ := cursor
  cases ahead with
  | nil => exact .inl rfl
  | cons element ahead =>
    cases element with
    | own token => exact .inr ⟨htokens, rfl⟩
    | sentinel => exact .inl rfl

theorem Onward.tokens_eq (h : Onward cursor behind) : behind.tokens = cursor.tokens := by
  rcases h with rfl | hover
  · rfl
  · exact hover.tokens_eq

theorem Onward.remaining_le (h : Onward cursor behind) : behind.remaining ≤ cursor.remaining := by
  rcases h with rfl | hover
  · exact Nat.le_refl _
  · exact Nat.le_of_lt (Nat.lt_of_succ_le hover.remaining_eq.le)

inductive Role where
  | expression
  | operand
deriving DecidableEq, Repr

def Work.role : Work → Role
  | .expression _ => .expression
  | .climb _ _ => .expression
  | .operand => .operand
  | .atoms _ => .operand
  | .closing _ => .operand

def Wait.role : Wait → Role
  | .operand _ => .expression
  | .right _ _ _ => .expression
  | .inner => .operand

/-- Whether a call has not looked at any token yet. -/
def Work.fresh : Work → Bool
  | .expression _ => true
  | .operand => true
  | _ => false

/-- All that a step of a call at work can do. -/
inductive Moves (cursor : Cursor) (work : Work) (start : Nat) (callers : List Caller) : Machine → Prop
  /-- An expression calls for its first operand. -/
  | first {minimum : ℚ} : work = .expression minimum →
    Moves cursor work start callers (call .operand (⟨.operand minimum, start⟩ :: callers) cursor)
  /-- An operand takes an atom. -/
  | atom {run : List Token} {after : Cursor} : work.role = .operand → Over cursor after →
    Moves cursor work start callers ⟨after, .working (.atoms run) start callers⟩
  /-- A call takes a token and calls for an expression. -/
  | nested {minimum : ℚ} {wait : Wait} {after : Cursor} : wait.role = work.role → Over cursor after →
    Moves cursor work start callers (call (.expression minimum) (⟨wait, start⟩ :: callers) after)
  | hand {tree : Expr} {after : Cursor} : work.fresh = false → Onward cursor after →
    Moves cursor work start callers (hand tree after callers)
  | raise {flaw : Flaw} {after : Cursor} : Onward cursor after → Moves cursor work start callers (raise flaw cursor after)

theorem moves_stepOperand (cursor : Cursor) (start : Nat) (callers : List Caller) :
    Moves cursor .operand start callers (stepOperand cursor start callers) := by
  have hnext : cursor.next.1 = cursor.peek := Cursor.next_fst cursor
  unfold stepOperand
  dsimp only
  split_ifs with hatom hopening hstop
  · rw [hnext] at hatom
    exact .atom rfl (over_next (by simp [hatom]))
  · have hpeek : cursor.peek.token.kind ≠ .stop := by
      rw [← hnext, hopening]
      decide
    exact .nested rfl (over_next hpeek)
  · exact .raise (onward_next cursor)
  · exact .raise (onward_next cursor)

theorem moves_stepAtoms (run : List Token) (cursor : Cursor) (start : Nat) (callers : List Caller) :
    Moves cursor (.atoms run) start callers (stepAtoms run cursor start callers) := by
  unfold stepAtoms
  split_ifs with hatom
  · exact .atom rfl (over_next (by simp [hatom]))
  · exact .hand rfl (.inl rfl)

theorem moves_stepClimb (minimum : ℚ) (left : Expr) (cursor : Cursor) (start : Nat) (callers : List Caller) :
    Moves cursor (.climb minimum left) start callers (stepClimb minimum left cursor start callers) := by
  unfold stepClimb
  dsimp only
  split_ifs with hends hoperator
  · exact .hand rfl (.inl rfl)
  · exact .raise (.inl rfl)
  · have hpeek : cursor.peek.token.kind ≠ .stop := by
      rw [not_ne_iff.mp hoperator]
      decide
    split
    · exact .raise (.inl rfl)
    · split_ifs
      · exact .hand rfl (.inl rfl)
      · exact .nested rfl (over_next hpeek)

theorem moves_stepClosing (inner : Expr) (cursor : Cursor) (start : Nat) (callers : List Caller) :
    Moves cursor (.closing inner) start callers (stepClosing inner cursor callers) := by
  unfold stepClosing
  split_ifs
  · exact .hand rfl (onward_next cursor)
  · exact .raise (onward_next cursor)

theorem moves_step (cursor : Cursor) (work : Work) (start : Nat) (callers : List Caller) :
    Moves cursor work start callers (step ⟨cursor, .working work start callers⟩) := by
  cases work with
  | expression minimum => exact .first rfl
  | climb minimum left => exact moves_stepClimb minimum left cursor start callers
  | operand => exact moves_stepOperand cursor start callers
  | atoms run => exact moves_stepAtoms run cursor start callers
  | closing inner => exact moves_stepClosing inner cursor start callers

theorem cases_outcome? (machine : Machine) : (machine.outcome? ≠ none ∧ machine.step = machine) ∨
    machine.outcome? = none ∧ ∃ cursor work start callers, machine = ⟨cursor, .working work start callers⟩ := by
  obtain ⟨cursor, control⟩ := machine
  cases control with
  | working work start callers => exact .inr ⟨rfl, cursor, work, start, callers, rfl⟩
  | returned tree => exact .inl ⟨Option.some_ne_none _, rfl⟩
  | raised diagnostic => exact .inl ⟨Option.some_ne_none _, rfl⟩

/-! ### The cursor -/

theorem cursor_hand (tree : Expr) (cursor : Cursor) (callers : List Caller) : (hand tree cursor callers).cursor = cursor := by
  cases callers with
  | nil => rfl
  | cons caller callers =>
    obtain ⟨wait, start⟩ := caller
    cases wait <;> rfl

theorem Moves.onward (h : Moves cursor work start callers next) : Onward cursor next.cursor := by
  cases h with
  | first _ => exact .inl rfl
  | atom _ hover => exact .inr hover
  | nested _ hover => exact .inr hover
  | hand _ honward =>
    rw [cursor_hand]
    exact honward
  | raise honward => exact honward

theorem onward_step (machine : Machine) : Onward machine.cursor machine.step.cursor := by
  rcases cases_outcome? machine with ⟨-, hstep⟩ | ⟨-, cursor, work, start, callers, rfl⟩
  · rw [hstep]
    exact .inl rfl
  · exact (moves_step cursor work start callers).onward

theorem onward_iterate (n : Nat) (machine : Machine) :
    Onward (step^[n] machine).cursor (step^[n + 1] machine).cursor := by
  rw [Function.iterate_succ_apply']
  exact onward_step _

theorem tokens_iterate (n : Nat) (machine : Machine) : (step^[n] machine).cursor.tokens = machine.cursor.tokens := by
  induction n with
  | zero => rfl
  | succ n ih => exact (onward_iterate n machine).tokens_eq.trans ih

theorem Onward.position_le (h : Onward cursor behind) : cursor.position ≤ behind.position := by
  have htokens : behind.tokens.length = cursor.tokens.length := by rw [h.tokens_eq]
  have hremaining := h.remaining_le
  have hbefore := cursor.position_add_remaining
  have hafter := behind.position_add_remaining
  omega

/-! ### What is left to do -/

/-- An expression has yet to call for its operand and to go on behind it; every other call has one step to take. -/
def Work.weight : Work → Nat
  | .expression _ => 3
  | _ => 1

/-- What is left to do: the work of the innermost call, a return for each call that waits, and four for each token ahead, which pay for the calls made behind it. -/
def load (machine : Machine) : Nat :=
  match machine.control with
  | .working work _ callers => 4 * machine.cursor.remaining + work.weight + callers.length
  | _ => 0

theorem Work.weight_pos (work : Work) : 0 < work.weight := by
  cases work <;> exact Nat.succ_pos _

theorem load_hand_le (tree : Expr) (cursor : Cursor) (callers : List Caller) :
    (hand tree cursor callers).load ≤ 4 * cursor.remaining + callers.length := by
  cases callers with
  | nil => exact Nat.zero_le _
  | cons caller callers =>
    obtain ⟨wait, start⟩ := caller
    cases wait <;> exact (Nat.add_right_comm _ _ _).le

theorem Moves.load_lt (h : Moves cursor work start callers next) :
    next.load < 4 * cursor.remaining + work.weight + callers.length := by
  have hweight := work.weight_pos
  cases h with
  | first hwork =>
    subst hwork
    change 4 * cursor.remaining + 1 + (callers.length + 1) < 4 * cursor.remaining + 3 + callers.length
    omega
  | @atom _ after _ hover =>
    have hremaining := hover.remaining_eq
    change 4 * after.remaining + 1 + callers.length < _
    omega
  | @nested _ _ after _ hover =>
    have hremaining := hover.remaining_eq
    change 4 * after.remaining + 3 + (callers.length + 1) < _
    omega
  | @hand tree after _ honward =>
    have hremaining := honward.remaining_le
    have hhand := load_hand_le tree after callers
    omega
  | raise _ =>
    change 0 < _
    omega

theorem load_step_lt (h : machine.outcome? = none) : machine.step.load < machine.load := by
  rcases cases_outcome? machine with ⟨hended, -⟩ | ⟨-, cursor, work, start, callers, rfl⟩
  · exact absurd h hended
  · exact (moves_step cursor work start callers).load_lt

theorem load_pos (h : machine.outcome? = none) : 0 < machine.load := Nat.zero_lt_of_lt (load_step_lt h)

theorem outcome?_iterate_add {n : Nat} (k : Nat) (h : (step^[n] machine).outcome? ≠ none) :
    step^[k + n] machine = step^[n] machine := by
  rcases cases_outcome? (step^[n] machine) with ⟨-, hstep⟩ | ⟨hnone, -⟩
  · rw [Function.iterate_add_apply]
    exact Function.iterate_fixed hstep k
  · exact absurd hnone h

/-- Every step of a call at work makes what is left to do less. -/
theorem load_iterate_add_le (n : Nat) (h : (step^[n] machine).outcome? = none) :
    (step^[n] machine).load + n ≤ machine.load := by
  induction n with
  | zero => exact Nat.le_refl _
  | succ n ih =>
    have hbefore : (step^[n] machine).outcome? = none := by
      by_contra hended
      rw [Nat.add_comm n 1, outcome?_iterate_add 1 hended] at h
      exact hended h
    have hless := load_step_lt hbefore
    rw [Function.iterate_succ_apply']
    have hsofar := ih hbefore
    omega

theorem outcome?_iterate_load (machine : Machine) : (step^[machine.load] machine).outcome? ≠ none := by
  intro hworking
  have hless := load_iterate_add_le machine.load hworking
  have hpos := load_pos hworking
  omega

theorem outcome?_iterate_eq {n k : Nat} {outcome : Except Diagnostic (Expr × List Token)}
    (h : (step^[n] machine).outcome? = some outcome) (hended : (step^[k] machine).outcome? ≠ none) :
    (step^[k] machine).outcome? = some outcome := by
  rcases Nat.le_total n k with hle | hle
  · have hsome : (step^[n] machine).outcome? ≠ none := h ▸ Option.some_ne_none outcome
    rw [← Nat.sub_add_cancel hle, outcome?_iterate_add (k - n) hsome]
    exact h
  · rw [← outcome?_iterate_add (n - k) hended, Nat.sub_add_cancel hle]
    exact h

/-! ### The calls in progress -/

/-- A call in progress, and how many tokens were ahead when it was made. -/
structure Call where
  role : Role
  start : Nat
deriving DecidableEq, Repr

def Caller.toCall (caller : Caller) : Call := ⟨caller.wait.role, caller.start⟩

def calls (machine : Machine) : List Call :=
  match machine.control with
  | .working work start callers => ⟨work.role, start⟩ :: callers.map Caller.toCall
  | _ => []

/-- An expression is called for with fewer tokens ahead than there were for the call that makes it. An operand is called for by an expression that has not looked at any token yet. -/
def Call.MadeBy (inner outer : Call) : Prop :=
  match inner.role with
  | .expression => inner.start < outer.start
  | .operand => outer.role = .expression ∧ inner.start = outer.start

theorem Call.MadeBy.start_le {inner outer : Call} (h : inner.MadeBy outer) : inner.start ≤ outer.start := by
  obtain ⟨role, start⟩ := inner
  cases role with
  | expression => exact Nat.le_of_lt h
  | operand => exact h.2.le

/-- How much a call has used up: none of its tokens before it looks at them, and some of them ever after. -/
def Work.Progress (work : Work) (remaining start : Nat) : Prop :=
  if work.fresh then remaining = start else remaining < start

theorem Work.Progress.le {remaining : Nat} (h : work.Progress remaining start) : remaining ≤ start := by
  unfold Work.Progress at h
  split_ifs at h
  · exact h.le
  · exact h.le

/-- What holds of a machine at all times. -/
structure Sound (limit : Nat) (machine : Machine) : Prop where
  progress : ∀ work start callers, machine.control = .working work start callers →
    work.Progress machine.cursor.remaining start
  made : machine.calls.IsChain Call.MadeBy
  start_le : ∀ call ∈ machine.calls, call.start ≤ limit

theorem sound_working (hprogress : work.Progress cursor.remaining start)
    (hmade : (⟨work.role, start⟩ :: callers.map Caller.toCall).IsChain Call.MadeBy)
    (hstart : ∀ call ∈ (⟨work.role, start⟩ :: callers.map Caller.toCall : List Call), call.start ≤ limit) :
    Sound limit ⟨cursor, .working work start callers⟩ := by
  refine ⟨?_, hmade, hstart⟩
  rintro work start callers ⟨⟩
  exact hprogress

theorem sound_ended (hended : machine.outcome? ≠ none) : Sound limit machine := by
  obtain ⟨cursor, control⟩ := machine
  cases control with
  | working work start callers => exact absurd rfl hended
  | returned tree =>
    refine ⟨?_, .nil, List.forall_mem_nil _⟩
    rintro work start callers ⟨⟩
  | raised diagnostic =>
    refine ⟨?_, .nil, List.forall_mem_nil _⟩
    rintro work start callers ⟨⟩

theorem sound_hand {call : Call} (tree : Expr) (hmade : (call :: callers.map Caller.toCall).IsChain Call.MadeBy)
    (hstart : ∀ caller ∈ callers.map Caller.toCall, caller.start ≤ limit) (hused : cursor.remaining < call.start) :
    Sound limit (hand tree cursor callers) := by
  cases callers with
  | nil => exact sound_ended (Option.some_ne_none _)
  | cons caller callers =>
    obtain ⟨wait, start⟩ := caller
    obtain ⟨hmadeBy, hmade⟩ := List.isChain_cons_cons.mp hmade
    have hused : cursor.remaining < start := hused.trans_le hmadeBy.start_le
    cases wait <;> exact sound_working hused hmade hstart

theorem Moves.sound (h : Moves cursor work start callers next)
    (hsound : Sound limit ⟨cursor, .working work start callers⟩) : Sound limit next := by
  have hprogress := hsound.progress work start callers rfl
  have hstart : start ≤ limit := hsound.start_le ⟨work.role, start⟩ List.mem_cons_self
  have hmade : (⟨work.role, start⟩ :: callers.map Caller.toCall).IsChain Call.MadeBy := hsound.made
  have hcallers : ∀ caller ∈ callers.map Caller.toCall, caller.start ≤ limit := fun caller hcaller =>
    hsound.start_le caller (List.mem_cons_of_mem _ hcaller)
  cases h with
  | first hwork =>
    subst hwork
    refine sound_working rfl (hmade.cons_cons ⟨rfl, hprogress⟩) ?_
    exact List.forall_mem_cons.mpr ⟨hprogress.le.trans hstart, hsound.start_le⟩
  | atom hrole hover =>
    rw [hrole] at hmade
    have hused := Nat.lt_of_succ_le hover.remaining_eq.le
    exact sound_working (hused.trans_le hprogress.le) hmade (List.forall_mem_cons.mpr ⟨hstart, hcallers⟩)
  | @nested _ wait after hrole hover =>
    rw [← hrole] at hmade
    have hused : after.remaining < start := (Nat.lt_of_succ_le hover.remaining_eq.le).trans_le hprogress.le
    refine sound_working rfl (hmade.cons_cons hused) ?_
    exact List.forall_mem_cons.mpr ⟨hused.le.trans hstart, List.forall_mem_cons.mpr ⟨hstart, hcallers⟩⟩
  | hand hfresh honward =>
    have hused : cursor.remaining < start := by simpa [Work.Progress, hfresh] using hprogress
    exact sound_hand _ hmade hcallers (honward.remaining_le.trans_lt hused)
  | raise _ => exact sound_ended (Option.some_ne_none _)

theorem Sound.step (hsound : Sound limit machine) : Sound limit machine.step := by
  rcases cases_outcome? machine with ⟨-, hstep⟩ | ⟨-, cursor, work, start, callers, rfl⟩
  · rw [hstep]
    exact hsound
  · exact (moves_step cursor work start callers).sound hsound

theorem Sound.iterate (hsound : Sound limit machine) (n : Nat) : Sound limit (Machine.step^[n] machine) := by
  induction n with
  | zero => exact hsound
  | succ n ih =>
    rw [Function.iterate_succ_apply']
    exact ih.step

theorem sound_launch (minimum : ℚ) (cursor : Cursor) : Sound cursor.remaining (launch minimum cursor) :=
  sound_working rfl (.singleton _) (List.forall_mem_singleton.mpr (Nat.le_refl _))

/-! ### Nesting -/

/-- A call further in has fewer tokens ahead, except that an expression and its first operand have as many. -/
def Call.Within (inner outer : Call) : Prop :=
  inner.start < outer.start ∨ inner.start = outer.start ∧ inner.role = .operand ∧ outer.role = .expression

theorem Call.MadeBy.within {inner outer : Call} (h : inner.MadeBy outer) : inner.Within outer := by
  obtain ⟨role, start⟩ := inner
  cases role with
  | expression => exact .inl h
  | operand => exact .inr ⟨h.2, rfl, h.1⟩

theorem Call.Within.start_lt {inner outer : Call} (h : inner.Within outer) (hrole : inner.role = outer.role) :
    inner.start < outer.start := by
  rcases h with hless | ⟨-, hinner, houter⟩
  · exact hless
  · exact absurd (hinner.symm.trans (hrole.trans houter)) (by decide)

instance : Trans Call.Within Call.Within Call.Within where
  trans := by
    rintro inner between outer (hinner | ⟨hinner, -, hfirst⟩) (houter | ⟨houter, hsecond, -⟩)
    · exact .inl (hinner.trans houter)
    · exact .inl (hinner.trans_eq houter)
    · exact .inl (hinner.trans_lt houter)
    · exact absurd (hfirst.symm.trans hsecond) (by decide)

/-- A call of either kind has fewer tokens ahead than every call of the same kind around it. -/
theorem Sound.recursive (hsound : Sound limit machine) :
    machine.calls.Pairwise fun inner outer => inner.role = outer.role → inner.start < outer.start := by
  have hwithin : machine.calls.Pairwise Call.Within := (hsound.made.imp fun _ _ => Call.MadeBy.within).pairwise
  exact hwithin.imp Call.Within.start_lt

/-- The expressions in progress start at different places. -/
theorem Sound.nesting_le (hsound : Sound limit machine) :
    (machine.calls.filter fun call => call.role = .expression).length ≤ limit + 1 := by
  have hdistinct : ((machine.calls.filter fun call => call.role = .expression).map Call.start).Nodup := by
    refine List.pairwise_map.mpr (List.pairwise_filter.mpr (hsound.recursive.imp ?_))
    intro inner outer hstart hinner houter
    exact (hstart ((of_decide_eq_true hinner).trans (of_decide_eq_true houter).symm)).ne
  have hplaces : (machine.calls.filter fun call => call.role = .expression).map Call.start ⊆ List.range (limit + 1) := by
    intro start hmem
    obtain ⟨call, hcall, rfl⟩ := List.mem_map.mp hmem
    exact List.mem_range.mpr (Nat.lt_succ_of_le (hsound.start_le call (List.mem_of_mem_filter hcall)))
  simpa using (List.subperm_of_subset hdistinct hplaces).length_le

/-! ### Loops -/

def atLoop (machine : Machine) : Bool :=
  match machine.control with
  | .working (.climb _ _) _ _ => true
  | .working (.atoms _) _ _ => true
  | _ => false

theorem outcome?_of_atLoop (h : machine.atLoop = true) : machine.outcome? = none := by
  obtain ⟨cursor, control⟩ := machine
  cases control with
  | working work start callers => rfl
  | returned tree => cases h
  | raised diagnostic => cases h

theorem load_of_atLoop (h : machine.atLoop = true) : machine.load = 4 * machine.cursor.remaining + machine.calls.length := by
  obtain ⟨cursor, control⟩ := machine
  cases control with
  | returned tree => cases h
  | raised diagnostic => cases h
  | working work start callers =>
    have hweight : work.weight = 1 := by cases work <;> first | rfl | cases h
    simp only [load, calls, hweight, List.length_cons, List.length_map]
    omega

/-- A loop comes round again further on. -/
theorem remaining_lt_of_atLoop {i j : Nat} (hlater : i < j) (hi : (step^[i] machine).atLoop = true)
    (hj : (step^[j] machine).atLoop = true) (hcalls : (step^[i] machine).calls = (step^[j] machine).calls) :
    (step^[j] machine).cursor.remaining < (step^[i] machine).cursor.remaining := by
  have hsplit : step^[j - i] (step^[i] machine) = step^[j] machine := by
    rw [← Function.iterate_add_apply, Nat.sub_add_cancel hlater.le]
  have hworking := outcome?_of_atLoop hj
  rw [← hsplit] at hworking
  have hless := load_iterate_add_le (j - i) hworking
  rw [hsplit, load_of_atLoop hi, load_of_atLoop hj, hcalls] at hless
  omega

/-! ### Runs of the parser -/

def run (minimum : ℚ) (cursor : Cursor) (n : Nat) : Machine := step^[n] (launch minimum cursor)

/-- From anywhere in any tokens and under any minimum, the parser comes to its outcome within four steps for each token ahead and three more. Its cursor only ever moves on, and not out of the tokens. An expression is called for with fewer tokens ahead than there were for the call that makes it, and so every call has fewer ahead than any call of the same kind that is still in progress. There are never more expressions in progress than there are tokens, and one more. When a loop comes round again, the cursor has moved on. -/
theorem run_halts (minimum : ℚ) (cursor : Cursor) :
    (run minimum cursor (4 * cursor.remaining + 3)).outcome? =
        some ((parsePrefix ⌈minimum⌉₊ cursor.rest).mapError fun fault => fault.diagnostic cursor.tokens) ∧
      (∀ n, (run minimum cursor n).cursor.tokens = cursor.tokens ∧
        (run minimum cursor n).cursor.position ≤ (run minimum cursor (n + 1)).cursor.position ∧
        (run minimum cursor n).cursor.position ≤ cursor.tokens.length) ∧
      (∀ n, (run minimum cursor n).calls.IsChain Call.MadeBy ∧
        ((run minimum cursor n).calls.Pairwise fun inner outer => inner.role = outer.role → inner.start < outer.start) ∧
        ((run minimum cursor n).calls.filter fun call => call.role = .expression).length ≤ cursor.tokens.length + 1) ∧
      ∀ i j, i < j → (run minimum cursor i).atLoop = true → (run minimum cursor j).atLoop = true →
        (run minimum cursor i).calls = (run minimum cursor j).calls →
        (run minimum cursor i).cursor.position < (run minimum cursor j).cursor.position := by
  have htokens : ∀ n, (run minimum cursor n).cursor.tokens = cursor.tokens := fun n =>
    tokens_iterate n (launch minimum cursor)
  have hplace : ∀ n, (run minimum cursor n).cursor.position + (run minimum cursor n).cursor.remaining =
      cursor.tokens.length := fun n => by
    rw [Cursor.position_add_remaining, htokens]
  refine ⟨?_, ?_, ?_, ?_⟩
  · obtain ⟨n, hn⟩ := exists_outcome?_launch minimum cursor
    exact outcome?_iterate_eq hn (outcome?_iterate_load (launch minimum cursor))
  · intro n
    exact ⟨htokens n, (onward_iterate n (launch minimum cursor)).position_le, Nat.le.intro (hplace n)⟩
  · intro n
    have hsound : Sound cursor.remaining (run minimum cursor n) := (sound_launch minimum cursor).iterate n
    have hremaining : cursor.remaining ≤ cursor.tokens.length := Nat.le.intro
      ((Nat.add_comm _ _).trans cursor.position_add_remaining)
    exact ⟨hsound.made, hsound.recursive, hsound.nesting_le.trans (Nat.succ_le_succ hremaining)⟩
  · intro i j hlater hi hj hcalls
    have hless : (run minimum cursor j).cursor.remaining < (run minimum cursor i).cursor.remaining :=
      remaining_lt_of_atLoop hlater hi hj hcalls
    have hplacei := hplace i
    have hplacej := hplace j
    omega

theorem run_halts_at_stop :
    (run (5 / 2) ⟨[.own ⟨.operator, "="⟩], (Token.scan "(1+2").map .own ++ .sentinel :: [.own Token.closing]⟩ 27).outcome? =
        some (.error ⟨.unclosedBracket, Token.scan "=(1+2" ++ [Token.sentinel, Token.closing], 5⟩) ∧
      (run (5 / 2) ⟨[.own ⟨.operator, "="⟩], (Token.scan "(1+2").map .own ++ .sentinel :: [.own Token.closing]⟩ 5).cursor.position <
        (run (5 / 2) ⟨[.own ⟨.operator, "="⟩], (Token.scan "(1+2").map .own ++ .sentinel :: [.own Token.closing]⟩ 10).cursor.position := by
  have hceil : ⌈(5 / 2 : ℚ)⌉₊ = 3 := by norm_num [Nat.ceil_eq_iff]
  obtain ⟨houtcome, -, -, hloops⟩ :=
    run_halts (5 / 2) ⟨[.own ⟨.operator, "="⟩], (Token.scan "(1+2").map .own ++ .sentinel :: [.own Token.closing]⟩
  refine ⟨?_, hloops 5 10 (by decide) (by decide +kernel) (by decide +kernel) (by decide +kernel)⟩
  rw [hceil] at houtcome
  refine Eq.trans houtcome ?_
  decide +kernel

end Reckoner.Parser.Machine
