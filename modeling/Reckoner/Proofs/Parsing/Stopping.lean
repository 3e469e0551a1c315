import Mathlib.Data.List.Induction
import Mathlib.Order.Bounds.Defs
import Reckoner.Number.Computed
import Reckoner.Proofs.Evaluation.Lines
import Reckoner.Proofs.Parsing.RootSplit

/-!
# Where the parser stops

A parse that succeeds ends at the first stop token, or the first closing bracket that closes no bracket in front of it. Nothing from there on matters, so what stands in front of that place can be followed by a terminator and anything else. The pending calls of the parser need not be looked at for this: what has been parsed is balanced and holds no stop token, hence cannot hold a terminator, and what is left over begins with one.
-/

namespace Reckoner.Grammar

variable {tokens front back rest : List Token} {token : Token} {tree : Expr} {level : Level} {place : Nat}

/-- A bracket stands open at the end of the tokens: all that was opened behind it is closed again. -/
def HasOpen (tokens : List Token) : Prop :=
  ∃ before inner, tokens = before ++ Token.opening :: inner ∧ Balanced inner

/-- At a place stands a stop token, or a closing bracket that closes no bracket in front of it. -/
def Terminates (tokens : List Token) (place : Nat) : Prop :=
  ∃ token, tokens[place]? = some token ∧
    (token.kind = .stop ∨ token = Token.closing ∧ ¬HasOpen (tokens.take place))

theorem Balanced.not_hasOpen (h : Balanced tokens) : ¬HasOpen tokens := by
  rintro ⟨before, inner, rfl, hinner⟩
  have hwhole := h.depth_eq
  rw [depth_append, depth_cons, depth_opening, hinner.depth_eq] at hwhole
  have hbefore := h.depth_take before.length
  rw [List.take_left' rfl] at hbefore
  omega

theorem depth_singleton_of_ne (h : token ≠ Token.opening) : depth [token] ≤ 0 := by
  by_cases hclosing : token = Token.closing
  · rw [hclosing, depth_closing]
    decide
  · rw [depth_singleton h hclosing]

/-- Every level below the depth at the end was entered by an opening bracket and not left again. -/
theorem exists_opening {depthThere : Int} (hpositive : 0 < depthThere) (hle : depthThere ≤ depth tokens) :
    ∃ before inner, tokens = before ++ Token.opening :: inner ∧ depth before + 1 = depthThere ∧
      ∀ n, 0 ≤ depth (inner.take n) := by
  induction tokens using List.reverseRecOn with
  | nil =>
    rw [depth_nil] at hle
    omega
  | append_singleton tokens token ih =>
    by_cases hbefore : depthThere ≤ depth tokens
    · obtain ⟨before, inner, rfl, hlevel, hinner⟩ := ih hbefore
      refine ⟨before, inner ++ [token], by simp, hlevel, fun n => ?_⟩
      rw [List.take_append]
      rcases Nat.lt_or_ge inner.length n with hall | hpart
      · rw [depth_append, depth_append, depth_cons, depth_opening] at hle
        rw [List.take_of_length_le (Nat.le_of_lt hall), List.take_of_length_le (by simp; omega), depth_append]
        omega
      · rw [Nat.sub_eq_zero_of_le hpart, List.take_zero, List.append_nil]
        exact hinner n
    · have hopening : token = Token.opening := by
        by_contra hother
        have hsingle := depth_singleton_of_ne hother
        rw [depth_append] at hle
        omega
      rw [hopening, depth_append, depth_opening] at hle
      exact ⟨tokens, [], by rw [hopening], by omega, by simp⟩

theorem hasOpen_of_depth_pos (h : 0 < depth tokens) : HasOpen tokens := by
  obtain ⟨before, inner, rfl, hbefore, hinner⟩ := exists_opening h (Int.le_refl _)
  rw [depth_append, depth_cons, depth_opening] at hbefore
  exact ⟨before, inner, rfl, by omega, hinner⟩

theorem Derives.kind_ne_stop (h : Derives level tokens tree) : ∀ token ∈ tokens, token.kind ≠ .stop := by
  refine h.uniform (motive := fun tokens _ => ∀ token ∈ tokens, token.kind ≠ .stop) ?_ ?_ ?_
  · intro run _ hatoms token htoken
    rw [hatoms token htoken]
    decide
  · intro inner _ hinner token htoken
    simp only [List.cons_append, List.mem_cons, List.mem_append, List.not_mem_nil, or_false] at htoken
    rcases htoken with rfl | htoken | rfl
    · decide
    · exact hinner token htoken
    · decide
  · intro operator front back _ _ _ hfront hback token htoken
    rcases List.mem_append.mp htoken with htoken | htoken
    · exact hfront token htoken
    · rcases List.mem_cons.mp htoken with rfl | htoken
      · exact Token.Kind.noConfusion
      · exact hback token htoken

theorem Derives.not_terminates (h : Derives level front tree) (hplace : place < front.length) :
    ¬Terminates (front ++ rest) place := by
  rintro ⟨token, htoken, hends⟩
  rw [List.getElem?_append_left hplace] at htoken
  rw [List.take_append_of_le_length (Nat.le_of_lt hplace)] at hends
  rcases hends with hstop | ⟨rfl, hunclosed⟩
  · exact h.kind_ne_stop token (List.mem_of_getElem? htoken) hstop
  · have hbehind := h.balanced.depth_take (place + 1)
    rw [List.take_add_one, htoken, depth_append, Option.toList_some, depth_closing] at hbehind
    exact hunclosed (hasOpen_of_depth_pos (by omega))

end Reckoner.Grammar

namespace Reckoner.Parser

open Grammar

variable {tokens front rest more : List Token} {terminator : Token} {tree : Expr} {text : String}

theorem Splits.terminates {token : Token} (h : Splits tokens front (token :: rest) tree) :
    Terminates tokens front.length := by
  rw [h.append]
  refine ⟨token, by simp, ?_⟩
  rw [List.take_left' rfl]
  by_cases hclosing : token = Token.closing
  · exact .inr ⟨hclosing, h.derives.balanced.not_hasOpen⟩
  · exact .inl (kind_eq_stop_of_ends (h.stops token rfl) hclosing)

theorem Splits.isLeast (h : Splits tokens front rest tree) :
    IsLeast {place | place = tokens.length ∨ Terminates tokens place} front.length := by
  constructor
  · cases rest with
    | nil =>
      rw [h.append, List.append_nil]
      exact .inl rfl
    | cons token rest => exact .inr h.terminates
  · rintro place (rfl | hterminates)
    · rw [h.append, List.length_append]
      exact Nat.le_add_right _ _
    · rw [h.append] at hterminates
      exact Nat.not_lt.mp fun hlt => h.derives.not_terminates hlt hterminates

theorem ends_iff : ends terminator = true ↔ terminator.kind = .stop ∨ terminator = Token.closing := by
  simp [ends]

theorem parseTokens_append (h : parseTokens tokens = .ok ⟨tree, rest⟩) (hends : ends terminator = true)
    (more : List Token) :
    parseTokens (tokens ++ terminator :: more) = .ok ⟨tree, rest ++ terminator :: more⟩ := by
  obtain ⟨front, happend, hstops, hderives⟩ := parsePrefix_zero_eq_ok_iff.mp (parseTokens_eq_ok_iff.mp h)
  refine parseTokens_eq_ok_iff.mpr (parsePrefix_zero_eq_ok_iff.mpr ⟨front, by simp [happend], ?_, hderives⟩)
  cases rest with
  | nil => simpa using hends
  | cons token rest => exact hstops

theorem parse_append_closing (h : parse text = .ok ⟨tree, rest⟩) (junk : String) :
    parse (text ++ ")" ++ junk) = .ok ⟨tree, rest ++ Token.closing :: Token.scan junk⟩ := by
  have hscan : Token.scan (text ++ ")" ++ junk) = Token.scan text ++ Token.closing :: Token.scan junk := by
    rw [Token.scan_append, Token.scan_append, List.append_assoc]
    rfl
  rw [parse, hscan]
  exact parseTokens_append h (by decide) _

theorem log_of_splits [Number.Library] (h : Splits tokens front rest tree) :
    (Reading.ofTokens tokens).log.map LogEntry.message =
      (if front.length < tokens.length then
        ["Ignoring " ++ toString (tokens.length - front.length) ++ " trailing token(s) in " ++
          Text.quoted (Token.spell tokens)]
      else []) ++ ["Parsed " ++ Text.quoted (Token.spell tokens) ++ " as " ++ tree.render] := by
  have hparse : parseTokens tokens = .ok ⟨tree, rest⟩ :=
    parseTokens_eq_ok_iff.mpr (parsePrefix_zero_eq_ok_iff.mpr ⟨front, h⟩)
  have hlength : tokens.length = front.length + rest.length := by rw [h.append, List.length_append]
  rw [Reading.ofTokens, hparse, hlength]
  cases rest with
  | nil => simp [LogEntry.message]
  | cons token rest => simp [LogEntry.message]

/-- A parse that succeeds stops at the first terminator or at the end of the tokens. What stands in front of that place parses to the same tree, alone or in front of any terminator and anything else, and what is left over is counted in the log. So a closing bracket and anything else behind a text that parses changes neither its tree nor what becomes of it as a line. -/
theorem parse_stops_at_first_terminator [Number.Library] :
    (∀ tokens tree rest, parseTokens tokens = .ok ⟨tree, rest⟩ → ∃ place,
      IsLeast {place | place = tokens.length ∨ Terminates tokens place} place ∧ rest = tokens.drop place ∧
      parseTokens (tokens.take place) = .ok ⟨tree, []⟩ ∧
      (∀ terminator more, terminator.kind = .stop ∨ terminator = Token.closing →
        parseTokens (tokens.take place ++ terminator :: more) = .ok ⟨tree, terminator :: more⟩) ∧
      (Reading.ofTokens tokens).log.map LogEntry.message =
        (if place < tokens.length then
          ["Ignoring " ++ toString (tokens.length - place) ++ " trailing token(s) in " ++
            Text.quoted (Token.spell tokens)]
        else []) ++ ["Parsed " ++ Text.quoted (Token.spell tokens) ++ " as " ++ tree.render]) ∧
    ∀ text tree rest, parse text = .ok ⟨tree, rest⟩ → ∀ junk,
      (∃ rest, parse (text ++ ")" ++ junk) = .ok ⟨tree, rest⟩) ∧
      ∀ vars, (Line.run (text ++ ")" ++ junk) vars).result = (Line.run text vars).result ∧
        (Line.run (text ++ ")" ++ junk) vars).vars = (Line.run text vars).vars ∧
        ∃ assigned, (Line.run text vars).log = (Reading.ofText text).log ++ assigned ∧
          (Line.run (text ++ ")" ++ junk) vars).log = (Reading.ofText (text ++ ")" ++ junk)).log ++ assigned := by
  constructor
  · intro tokens tree rest hparse
    obtain ⟨front, hsplit⟩ := parsePrefix_zero_eq_ok_iff.mp (parseTokens_eq_ok_iff.mp hparse)
    have htake : tokens.take front.length = front := by rw [hsplit.append, List.take_left' rfl]
    have hdrop : tokens.drop front.length = rest := by rw [hsplit.append, List.drop_left' rfl]
    have hfront : parseTokens front = .ok ⟨tree, []⟩ := parseTokens_of_derives hsplit.derives
    rw [← htake] at hfront
    refine ⟨front.length, hsplit.isLeast, hdrop.symm, hfront, ?_, log_of_splits hsplit⟩
    intro terminator more hterminator
    exact parseTokens_append hfront (ends_iff.mpr hterminator) more
  · intro text tree rest hparse junk
    have hjunk := parse_append_closing hparse junk
    refine ⟨⟨_, hjunk⟩, fun vars => ?_⟩
    rw [Line.run_of_ok hjunk, Line.run_of_ok hparse]
    exact ⟨rfl, rfl, _, rfl, rfl⟩

theorem parse_stops_at_first_terminator_stop_token :
    parseTokens (Token.scan "(1)^2" ++ ⟨.stop, "?"⟩ :: Token.scan "+)") =
        .ok ⟨.operation "^" (.atom "1") (.atom "2"), ⟨.stop, "?"⟩ :: Token.scan "+)"⟩ ∧
      (∃ place, IsLeast {place | place = (Token.scan "(1)^2" ++ ⟨.stop, "?"⟩ :: Token.scan "+)").length ∨
          Terminates (Token.scan "(1)^2" ++ ⟨.stop, "?"⟩ :: Token.scan "+)") place} place ∧
        ⟨.stop, "?"⟩ :: Token.scan "+)" =
          (Token.scan "(1)^2" ++ ⟨.stop, "?"⟩ :: Token.scan "+)").drop place) ∧
      parse "x = 2" = .ok ⟨.operation "=" (.atom "x") (.atom "2"), []⟩ ∧
      ∀ vars, (Line.run ("x = 2" ++ ")" ++ "(=") vars).vars = (Line.run "x = 2" vars).vars := by
  have htokens : parseTokens (Token.scan "(1)^2" ++ ⟨.stop, "?"⟩ :: Token.scan "+)") =
      .ok ⟨.operation "^" (.atom "1") (.atom "2"), ⟨.stop, "?"⟩ :: Token.scan "+)"⟩ := by decide +kernel
  have htext : parse "x = 2" = .ok ⟨.operation "=" (.atom "x") (.atom "2"), []⟩ := by decide +kernel
  obtain ⟨place, hleast, hdrop, -⟩ := parse_stops_at_first_terminator.1 _ _ _ htokens
  exact ⟨htokens, ⟨place, hleast, hdrop⟩, htext,
    fun vars => ((parse_stops_at_first_terminator.2 _ _ _ htext "(=").2 vars).2.1⟩

end Reckoner.Parser
