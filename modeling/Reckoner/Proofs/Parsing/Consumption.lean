import Mathlib.Data.Rat.Floor
import Reckoner.Proofs.Parsing.Caret
import Reckoner.Proofs.Parsing.Joining
import Reckoner.Proofs.Parsing.Stopping

/-!
# What a call of the parser consumes

A call that reads an expression under a minimum uses up at least one token and stops in front of one at which its climb has to stop. What it used up is all in the tree: the words and operators stand there in the order of the tokens, and only brackets are gone. The right operand of an operator that groups to the right is read under a minimum below the operator's left power, so it is not by itself clear that an operator inside it still reaches the minimum of the whole; it does, since no other row of the table has its left power between the two.

Left powers are whole tenths. A minimum that is none therefore has the effect of the next whole tenth above it.
-/

namespace Reckoner

namespace Grammar

variable {minimum : Nat} {tokens : List Token} {token : Token} {tree : Expr} {operator : String} {powers : Binding}
  {level : Level} {place : Nat}

theorem rank_atLeast_left (hpowers : Binding.of? operator = some powers) :
    (Level.atLeast powers.left).rank = tightness operator := by
  rcases binding_cases hpowers with ⟨rfl, rfl⟩ | ⟨rfl | rfl, rfl⟩ | ⟨rfl | rfl, rfl⟩ | ⟨rfl | rfl, rfl⟩ | ⟨rfl, rfl⟩ <;>
    decide

theorem Derives.exists_binding (h : Derives level tokens tree) : ∀ token ∈ tokens, token.kind = .operator →
    token ≠ Token.opening → token ≠ Token.closing → ∃ powers, Binding.of? token.lexeme = some powers := by
  refine h.uniform (motive := fun tokens _ => ∀ token ∈ tokens, token.kind = .operator → token ≠ Token.opening →
    token ≠ Token.closing → ∃ powers, Binding.of? token.lexeme = some powers) ?_ ?_ ?_
  · intro run _ hatoms token htoken hkind
    rw [hatoms token htoken] at hkind
    cases hkind
  · intro inner _ hinner token htoken hkind hopening hclosing
    have hmem : token ∈ inner := by simpa [hopening, hclosing] using htoken
    exact hinner token hmem hkind hopening hclosing
  · intro operator front back _ _ hknown hfront hback token htoken hkind hopening hclosing
    rcases List.mem_append.mp htoken with hmem | hmem
    · exact hfront token hmem hkind hopening hclosing
    · rcases List.mem_cons.mp hmem with rfl | hmem
      · exact Option.isSome_iff_exists.mp hknown
      · exact hback token hmem hkind hopening hclosing

/-- The operators outside all brackets reach the minimum. -/
theorem Derives.minimum_le_left (h : Derives (.atLeast minimum) tokens tree)
    (hmem : (token, place) ∈ outerOperators tokens) :
    ∃ powers, Binding.of? token.lexeme = some powers ∧ minimum ≤ powers.left := by
  obtain ⟨htoken, hkind, hopening, hclosing, -⟩ := mem_outerOperators.mp hmem
  obtain ⟨powers, hpowers⟩ := h.exists_binding token (List.mem_of_getElem? htoken) hkind hopening hclosing
  refine ⟨powers, hpowers, le_left_of_rank_atLeast_le hpowers ?_⟩
  rw [rank_atLeast_left hpowers]
  exact h.rank_le_tightness hmem

end Grammar

namespace Parser

open Grammar

variable {minimum : Nat} {tokens rest : List Token} {token : Token} {tree : Expr} {place : Nat}

theorem foundAt_of_parsePrefix {fault : Fault} (h : parsePrefix minimum tokens = .error fault) :
    fault.flaw.FoundAt fault.rest := by
  have hsweep := Sweep.resume_hereditary.parsed minimum tokens tokens.length 0 (Nat.le_refl _)
  rw [h, Nat.sub_self] at hsweep
  obtain ⟨front, back, state, happend, hplace, -, hfails⟩ := Sweep.exists_walk_of_run_eq_error hsweep
  obtain ⟨before, hbefore⟩ := rest_suffix_of_error h
  have hlength : before.length = front.length := by
    rw [← hbefore, List.length_append] at hplace
    omega
  have hback : fault.rest = back := (List.append_inj (hbefore.trans happend) hlength).2
  rw [hback]
  exact hfails.foundAt

theorem atStop_of_unclosedBracket (h : parsePrefix minimum tokens = .error ⟨.unclosedBracket, rest⟩) :
    Flaw.AtStop rest := by
  cases foundAt_of_parsePrefix h with
  | unclosedBracket hstop => exact hstop

/-- A token at which an expression read under a minimum may stop. -/
inductive Stops (minimum : ℚ) (token : Token) : Prop
  | stop : token.kind = .stop → Stops minimum token
  | closing : token = Token.closing → Stops minimum token
  | loose {powers : Binding} : token.kind = .operator → Binding.of? token.lexeme = some powers →
    powers.left < minimum → Stops minimum token

theorem stops_of_halts {minimum : ℚ} (h : Halts ⌈minimum⌉₊ (token :: rest)) : Stops minimum token := by
  rcases h with hends | ⟨hkind, powers, hpowers, hloose⟩
  · exact (ends_iff.mp hends).elim .stop .closing
  · exact .loose hkind hpowers (Nat.lt_ceil.mp hloose)

theorem Stops.ends {minimum : ℚ} (h : Stops minimum token) (hminimum : minimum ≤ 0) :
    token.kind = .stop ∨ token = Token.closing := by
  cases h with
  | stop hkind => exact .inl hkind
  | closing hclosing => exact .inr hclosing
  | @loose powers _ _ hloose =>
    have hpositive : (0 : ℚ) ≤ powers.left := Nat.cast_nonneg _
    exact absurd (hloose.trans_le hminimum) (not_lt.mpr hpositive)

/-- An expression read from a place on, under a minimum, ends further on, in front of a stop token, a closing bracket, an operator below the minimum or at the end. In between the operators outside all brackets reach the minimum, and the tree has the words and operators in between, one for one and in order. No operator is below the minimum zero, so a bracket is found unclosed only in front of a stop token or at the end. -/
theorem parsePrefix_consumes (tokens : List Token) (place : Nat) (minimum : ℚ) :
    (∀ tree rest, parsePrefix ⌈minimum⌉₊ (tokens.drop place) = .ok (tree, rest) → ∃ stop,
      place < stop ∧ stop ≤ tokens.length ∧ rest = tokens.drop stop ∧
      (∀ token i, (token, i) ∈ outerOperators (tokens.extract place stop) →
        ∃ powers, Binding.of? token.lexeme = some powers ∧ minimum ≤ powers.left) ∧
      tree.yield = Token.condense (tokens.extract place stop) ∧
      (∀ token ∈ tokens[stop]?, Stops minimum token) ∧
      (minimum = 0 → ∀ token ∈ tokens[stop]?, token.kind = .stop ∨ token = Token.closing)) ∧
    ∀ rest, parsePrefix ⌈minimum⌉₊ (tokens.drop place) = .error ⟨.unclosedBracket, rest⟩ → Flaw.AtStop rest := by
  refine ⟨?_, fun rest => atStop_of_unclosedBracket⟩
  intro tree rest hparse
  obtain ⟨front, happend, hderives, hhalts⟩ := derives_hereditary.parsed _ _ tree rest hparse
  have hshorter := length_lt_of_parsePrefix hparse
  have hlength := congrArg List.length happend
  rw [List.length_append, List.length_drop] at hlength
  rw [List.length_drop] at hshorter
  have hinside : tokens.extract place (place + front.length) = front := by
    rw [List.extract_eq_take_drop, Nat.add_sub_cancel_left, happend, List.take_left' rfl]
  have hrest : rest = tokens.drop (place + front.length) := by
    rw [← List.drop_drop, happend, List.drop_left' rfl]
  have hstops : ∀ token ∈ tokens[place + front.length]?, Stops minimum token := by
    intro token htoken
    rw [← List.head?_drop, ← hrest] at htoken
    cases rest with
    | nil => cases htoken
    | cons next rest =>
      obtain rfl : next = token := Option.some.inj htoken
      exact stops_of_halts hhalts
  refine ⟨place + front.length, by omega, by omega, hrest, ?_, ?_, hstops, fun hzero token htoken => ?_⟩
  · intro token i hmem
    rw [hinside] at hmem
    obtain ⟨powers, hpowers, hle⟩ := hderives.minimum_le_left hmem
    exact ⟨powers, hpowers, Nat.ceil_le.mp hle⟩
  · rw [hinside]
    exact hderives.yield_eq
  · exact (hstops token htoken).ends hzero.le

theorem parsePrefix_consumes_between_equals :
    parsePrefix ⌈(15 / 2 : ℚ)⌉₊ ((Token.scan "=a1.2^b^(c=d)*3=e").drop 1) =
        .ok (.operation "*" (.operation "^" (.operation "." (.atom "a1") (.atom "2"))
          (.operation "^" (.atom "b") (.operation "=" (.atom "c") (.atom "d")))) (.atom "3"), Token.scan "=e") ∧
      (∃ stop, 1 < stop ∧ stop ≤ (Token.scan "=a1.2^b^(c=d)*3=e").length ∧
        Token.scan "=e" = (Token.scan "=a1.2^b^(c=d)*3=e").drop stop ∧
        ∀ token ∈ (Token.scan "=a1.2^b^(c=d)*3=e")[stop]?, Stops (15 / 2) token) ∧
      parsePrefix ⌈(15 / 2 : ℚ)⌉₊ ((Token.scan "(1^2" ++ ⟨.stop, "?"⟩ :: Token.scan ")").drop 0) =
        .error ⟨.unclosedBracket, ⟨.stop, "?"⟩ :: Token.scan ")"⟩ ∧
      Flaw.AtStop (⟨.stop, "?"⟩ :: Token.scan ")") := by
  have hceil : ⌈(15 / 2 : ℚ)⌉₊ = 8 := by norm_num [Nat.ceil_eq_iff]
  have htree : parsePrefix ⌈(15 / 2 : ℚ)⌉₊ ((Token.scan "=a1.2^b^(c=d)*3=e").drop 1) =
      .ok (.operation "*" (.operation "^" (.operation "." (.atom "a1") (.atom "2"))
        (.operation "^" (.atom "b") (.operation "=" (.atom "c") (.atom "d")))) (.atom "3"), Token.scan "=e") := by
    rw [hceil]
    decide +kernel
  have hfault : parsePrefix ⌈(15 / 2 : ℚ)⌉₊ ((Token.scan "(1^2" ++ ⟨.stop, "?"⟩ :: Token.scan ")").drop 0) =
      .error ⟨.unclosedBracket, ⟨.stop, "?"⟩ :: Token.scan ")"⟩ := by
    rw [hceil]
    decide +kernel
  obtain ⟨stop, hlt, hle, hrest, -, -, hstops, -⟩ := (parsePrefix_consumes _ 1 (15 / 2)).1 _ _ htree
  exact ⟨htree, ⟨stop, hlt, hle, hrest, hstops⟩, hfault, (parsePrefix_consumes _ 0 (15 / 2)).2 _ hfault⟩

end Parser

end Reckoner
