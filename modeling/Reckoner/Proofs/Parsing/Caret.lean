import Mathlib.Algebra.GroupWithZero.Nat
import Reckoner.Proofs.Parsing.Infix
import Reckoner.Proofs.Parsing.ViablePrefix

/-!
# Where the caret stands

The message about a text that does not parse has three lines: the flaw, the text without its spacing, and a caret under the place. One token is one character there, so the index of the place is its column. The caret stands behind the whole line if the expression ended too early, and else under the character that the first line quotes; the sweep knows which, since it fails either at a stop or at the token that it names. Over any token list the caret stands behind as many spaces as the lexemes in front of the place have characters.
-/

namespace Reckoner

namespace Text

/-- The pieces of a text between its line feeds, one more than there are line feeds. -/
def lines (text : String) : List String := (text.toList.splitOn '\n').map String.ofList

example : lines "a\n\nb\n" = ["a", "", "b", ""] := by decide

theorem lines_of_notMem {text : String} (h : '\n' ∉ text.toList) : lines text = [text] := by
  rw [lines, List.splitOn_eq_singleton h, List.map_singleton, String.ofList_toList]

theorem lines_append (front back : String) : lines (front ++ "\n" ++ back) = lines front ++ lines back := by
  have hchars : (front ++ "\n" ++ back).toList = front.toList ++ '\n' :: back.toList := by simp
  rw [lines, hchars, List.splitOn_append_cons_self, List.map_append]
  rfl

/-! ### Quoted text has no line feed -/

theorem feed_notMem_hexDigits (width n : Nat) : '\n' ∉ hexDigits width n := by
  have hdigits : ∀ digit < 16, '\n' ≠ hexDigit digit := by decide
  induction width generalizing n with
  | zero => simp [hexDigits]
  | succ width ih => simp [hexDigits, ih, hdigits (n % 16) (Nat.mod_lt n (by decide))]

theorem feed_notMem_escapeCode (c : Char) : '\n' ∉ escapeCode c := by
  unfold escapeCode
  dsimp only
  split_ifs <;> simp [feed_notMem_hexDigits]

theorem feed_notMem_escapeChar {quote : Char} (hquote : quote ≠ '\n') (c : Char) : '\n' ∉ escapeChar quote c := by
  unfold escapeChar
  split_ifs with hmark hfeed
  · rcases hmark with rfl | rfl
    · simpa using hquote.symm
    · decide
  · decide
  · decide
  · decide
  · simpa using Ne.symm hfeed
  · exact feed_notMem_escapeCode c

theorem feed_notMem_quoted (text : String) : '\n' ∉ (quoted text).toList := by
  have hquote : quoteFor text.toList ≠ '\n' := by
    unfold quoteFor
    split_ifs <;> decide
  have hchars : (quoted text).toList =
      quoteFor text.toList :: text.toList.flatMap (escapeChar (quoteFor text.toList)) ++ [quoteFor text.toList] :=
    String.toList_ofList
  rw [hchars]
  simp only [List.cons_append, List.mem_cons, List.mem_append, List.mem_flatMap, List.not_mem_nil, or_false, not_or,
    not_exists, not_and]
  exact ⟨hquote.symm, fun c _ => feed_notMem_escapeChar hquote c, hquote.symm⟩

end Text

namespace Token

theorem length_spell (tokens : List Token) : (spell tokens).length = (tokens.map fun token => token.lexeme.length).sum := by
  rw [spell, String.length_join, List.map_map]
  rfl

end Token

/-! ### What a flaw is found at -/

namespace Flaw

theorem feed_notMem_found {announced : String} (hannounced : '\n' ∉ announced.toList) (found : Token) :
    '\n' ∉ (announced ++ found.kind.name ++ " " ++ Text.quoted found.lexeme).toList := by
  have hname : '\n' ∉ found.kind.name.toList := by
    cases found.kind <;> simp [Token.Kind.name]
  simp only [String.toList_append, List.mem_append, not_or]
  exact ⟨⟨⟨hannounced, hname⟩, by simp⟩, Text.feed_notMem_quoted found.lexeme⟩

theorem feed_notMem_message (flaw : Flaw) : '\n' ∉ flaw.message.toList := by
  cases flaw with
  | unexpectedEnd =>
    change '\n' ∉ "Unexpected end of expression".toList
    simp
  | unclosedBracket =>
    change '\n' ∉ "Unclosed bracket, ')' expected".toList
    simp
  | unknownOperator lexeme =>
    change '\n' ∉ ("Unknown operator " ++ Text.quoted lexeme).toList
    rw [String.toList_append, List.mem_append, not_or]
    exact ⟨by simp, Text.feed_notMem_quoted lexeme⟩
  | operandExpected found =>
    have hannounced : '\n' ∉ "Operand expected, found ".toList := by simp
    exact feed_notMem_found hannounced found
  | operatorExpected found =>
    have hannounced : '\n' ∉ "Operator expected, found ".toList := by simp
    exact feed_notMem_found hannounced found

def AtStop (tokens : List Token) : Prop := ∀ token ∈ tokens.head?, token.kind = .stop

/-- The flaws that can be found in front of tokens: two at their end, and else those that name the first token. -/
inductive FoundAt (tokens : List Token) : Flaw → Prop
  | unexpectedEnd : AtStop tokens → FoundAt tokens .unexpectedEnd
  | unclosedBracket : AtStop tokens → FoundAt tokens .unclosedBracket
  | operandExpected {token : Token} : tokens.head? = some token → token.kind = .operator →
    FoundAt tokens (.operandExpected token)
  | operatorExpected {token : Token} : tokens.head? = some token → token.kind = .atom →
    FoundAt tokens (.operatorExpected token)
  | unknownOperator {token : Token} : tokens.head? = some token → token.kind = .operator →
    FoundAt tokens (.unknownOperator token.lexeme)

end Flaw

namespace Sweep

variable {state : State} {flaw : Flaw} {tokens : List Token}

theorem State.foundAt_of_atStop (hstop : Flaw.AtStop tokens) (h : state.atStop = .error flaw) : flaw.FoundAt tokens := by
  unfold State.atStop at h
  split at h
  · cases h
    exact .unexpectedEnd hstop
  · cases h
  · cases h
    exact .unclosedBracket hstop

theorem State.Fails.foundAt (h : state.Fails flaw tokens) : flaw.FoundAt tokens := by
  cases tokens with
  | nil => exact State.foundAt_of_atStop (by simp [Flaw.AtStop]) h
  | cons token rest =>
    have hstep : state.step token = .halt (.error flaw) := h
    unfold State.step at hstep
    split at hstep
    · rename_i hkind
      exact State.foundAt_of_atStop (by simpa [Flaw.AtStop] using hkind) (Move.halt.inj hstep)
    · cases hstep
    · rename_i hkind
      split_ifs at hstep
      cases hstep
      exact .operandExpected rfl hkind
    · cases hstep
    · rename_i hkind
      cases hstep
      exact .operatorExpected rfl hkind
    · rename_i hkind _
      split_ifs at hstep
      · split at hstep <;> cases hstep
      · cases hstep
        exact .unknownOperator rfl hkind

end Sweep

namespace Parser

variable {tokens : List Token} {d : Diagnostic} {text : String}

theorem exists_foundAt (h : parseTokens tokens = .error d) :
    ∃ index : Nat, d.index = index ∧ d.tokens = tokens ∧ index ≤ tokens.length ∧ d.flaw.FoundAt (tokens.drop index) := by
  obtain ⟨index, hsweep, hd⟩ := Sweep.parseTokens_eq_error_iff.mp h
  obtain ⟨front, back, state, rfl, hindex, -, hfails⟩ := Sweep.exists_walk_of_run_eq_error hsweep
  rw [Nat.zero_add] at hindex
  refine ⟨index, by rw [hd], by rw [hd], by simp [hindex], ?_⟩
  rw [hindex, List.drop_left' rfl]
  exact hfails.foundAt

/-! ### The lines of a message -/

theorem caretLine_natCast (tokens : List Token) (index : Nat) : Diagnostic.caretLine tokens index =
    String.ofList (List.replicate ((tokens.take index).map fun token => token.lexeme.length).sum ' ') ++ "^" := by
  have hbefore : Diagnostic.before tokens index = tokens.take index := by
    rw [Diagnostic.before, if_neg (by omega), Int.toNat_natCast]
  rw [Diagnostic.caretLine, hbefore, Token.length_spell]

theorem feed_notMem_caretLine (tokens : List Token) (index : Int) :
    '\n' ∉ (Diagnostic.caretLine tokens index).toList := by
  simp [Diagnostic.caretLine]

/-- The caret has the last line of a message to itself, whatever the tokens are. -/
theorem lines_render (headline : String) (tokens : List Token) (index : Int) :
    Text.lines (Diagnostic.render headline tokens index) =
      Text.lines ("Parser error: " ++ headline) ++ Text.lines (Token.spell tokens) ++
        [Diagnostic.caretLine tokens index] := by
  change Text.lines ("Parser error: " ++ headline ++ "\n" ++ Token.spell tokens ++ "\n" ++
    Diagnostic.caretLine tokens index) = _
  rw [Text.lines_append ("Parser error: " ++ headline ++ "\n" ++ Token.spell tokens),
    Text.lines_append ("Parser error: " ++ headline), Text.lines_of_notMem (feed_notMem_caretLine tokens index)]

theorem feed_notMem_spell_scan (text : String) : '\n' ∉ (Token.spell (Token.scan text)).toList := by
  rw [Token.scan, Grammar.spell_map_ofChar, String.toList_ofList]
  intro hmem
  exact absurd (List.mem_filter.mp hmem).2 (by decide)

theorem sum_length_take_scan (text : String) {index : Nat} (hindex : index ≤ (Token.scan text).length) :
    (((Token.scan text).take index).map fun token => token.lexeme.length).sum = index := by
  have hone : ∀ token ∈ (Token.scan text).take index, token.lexeme.length = 1 := by
    intro token htoken
    obtain ⟨c, -, rfl⟩ := List.mem_map.mp (List.mem_of_mem_take htoken)
    exact String.length_singleton
  rw [List.map_congr_left hone, List.map_const', List.sum_replicate_nat, List.length_take, Nat.min_eq_left hindex,
    Nat.mul_one]

/-- How the first line announces the token that it quotes. -/
def headings : List String :=
  ["Operand expected, found OPERATOR ", "Operator expected, found ATOM ", "Unknown operator "]

theorem message_ne_of_heading {heading : String} (h : heading ∈ headings) (quoted : String) :
    heading ++ quoted ≠ "Unexpected end of expression" ∧ heading ++ quoted ≠ "Unclosed bracket, ')' expected" := by
  simp only [headings, List.mem_cons, List.not_mem_nil, or_false] at h
  constructor
  · intro hequal
    have hchars := congrArg String.toList hequal
    rcases h with rfl | rfl | rfl <;> simp at hchars
  · intro hequal
    have hchars := congrArg String.toList hequal
    rcases h with rfl | rfl | rfl <;> simp at hchars

theorem message_of_foundAt_nil {flaw : Flaw} (h : flaw.FoundAt []) :
    flaw.message = "Unexpected end of expression" ∨ flaw.message = "Unclosed bracket, ')' expected" := by
  cases h with
  | unexpectedEnd => exact .inl rfl
  | unclosedBracket => exact .inr rfl
  | operandExpected htoken => cases htoken
  | operatorExpected htoken => cases htoken
  | unknownOperator htoken => cases htoken

theorem message_of_foundAt_cons {flaw : Flaw} {c : Char} {rest : List Token}
    (h : flaw.FoundAt (Token.ofChar c :: rest)) :
    ∃ heading ∈ headings, flaw.message = heading ++ Text.quoted (String.singleton c) := by
  have hstop : ¬Flaw.AtStop (Token.ofChar c :: rest) := by
    intro hstop
    have hkind := hstop _ rfl
    unfold Token.ofChar at hkind
    split_ifs at hkind
  cases h with
  | unexpectedEnd hend => exact absurd hend hstop
  | unclosedBracket hend => exact absurd hend hstop
  | operandExpected htoken hkind =>
    obtain rfl := Option.some.inj htoken
    refine ⟨"Operand expected, found OPERATOR ", by simp [headings], ?_⟩
    change "Operand expected, found " ++ (Token.ofChar c).kind.name ++ " " ++ Text.quoted (String.singleton c) = _
    rw [hkind]
    rfl
  | operatorExpected htoken hkind =>
    obtain rfl := Option.some.inj htoken
    refine ⟨"Operator expected, found ATOM ", by simp [headings], ?_⟩
    change "Operator expected, found " ++ (Token.ofChar c).kind.name ++ " " ++ Text.quoted (String.singleton c) = _
    rw [hkind]
    rfl
  | unknownOperator htoken _ =>
    obtain rfl := Option.some.inj htoken
    exact ⟨"Unknown operator ", by simp [headings], rfl⟩

/-- What the caret of a message about a text stands under: the end of the characters or the one quoted. -/
theorem message_of_foundAt_drop {flaw : Flaw} {cs : List Char} {column : Nat} (hcolumn : column ≤ cs.length)
    (h : flaw.FoundAt ((cs.map Token.ofChar).drop column)) :
    (column = cs.length ↔
      flaw.message = "Unexpected end of expression" ∨ flaw.message = "Unclosed bracket, ')' expected") ∧
    (column < cs.length → ∃ c, cs[column]? = some c ∧
      ∃ heading ∈ headings, flaw.message = heading ++ Text.quoted (String.singleton c)) := by
  rcases Nat.lt_or_eq_of_le hcolumn with hinside | hend
  · rw [← List.map_drop, List.drop_eq_getElem_cons hinside, List.map_cons] at h
    obtain ⟨heading, hheading, hmessage⟩ := message_of_foundAt_cons h
    have hne := message_ne_of_heading hheading (Text.quoted (String.singleton cs[column]))
    rw [← hmessage] at hne
    exact ⟨iff_of_false (Nat.ne_of_lt hinside) (not_or.mpr hne),
      fun _ => ⟨cs[column], List.getElem?_eq_getElem hinside, heading, hheading, hmessage⟩⟩
  · rw [List.drop_eq_nil_of_le (by simp [hend])] at h
    exact ⟨iff_of_true hend (message_of_foundAt_nil h), fun hinside => absurd hend (Nat.ne_of_lt hinside)⟩

/-- The message about a text that does not parse has three lines: the flaw, the text without spacing, and the caret in the column of the error. That is the end of the second line exactly if the expression ended too early, and else the place of the character that the first line quotes. Over any token list the last line has the caret behind as many spaces as the lexemes in front of the error have characters. -/
theorem message_of_parse_error :
    (∀ text d, parse text = .error d → ∃ (plain : String) (column : Nat),
      plain.toList = text.toList.filter (fun c => !Token.isSpacing c) ∧ d.index = column ∧
      Text.lines d.message =
        ["Parser error: " ++ d.flaw.message, plain, String.ofList (List.replicate column ' ') ++ "^"] ∧
      column ≤ plain.length ∧
      (column = plain.length ↔
        d.flaw.message = "Unexpected end of expression" ∨ d.flaw.message = "Unclosed bracket, ')' expected") ∧
      (column < plain.length → ∃ c, plain.toList[column]? = some c ∧
        ∃ heading ∈ headings, d.flaw.message = heading ++ Text.quoted (String.singleton c))) ∧
    ∀ tokens d, parseTokens tokens = .error d → ∃ index : Nat, d.index = index ∧ index ≤ tokens.length ∧
      (Text.lines d.message).getLast? = some (String.ofList
        (List.replicate ((tokens.take index).map fun token => token.lexeme.length).sum ' ') ++ "^") := by
  constructor
  · intro text d hparse
    obtain ⟨column, hindex, htokens, hcolumn, hfound⟩ := exists_foundAt hparse
    have hplain : (Token.spell (Token.scan text)).toList = text.toList.filter fun c => !Token.isSpacing c := by
      rw [Token.scan, Grammar.spell_map_ofChar, String.toList_ofList]
    have hlines : Text.lines d.message = ["Parser error: " ++ d.flaw.message, Token.spell (Token.scan text),
        String.ofList (List.replicate column ' ') ++ "^"] := by
      have hheadline : '\n' ∉ ("Parser error: " ++ d.flaw.message).toList := by
        simp [d.flaw.feed_notMem_message]
      rw [Diagnostic.message, htokens, hindex, lines_render, Text.lines_of_notMem hheadline,
        Text.lines_of_notMem (feed_notMem_spell_scan text), caretLine_natCast, sum_length_take_scan text hcolumn]
      rfl
    rw [Token.scan] at hfound
    rw [Token.scan, List.length_map, ← hplain] at hcolumn
    rw [← hplain] at hfound
    obtain ⟨hend, hinside⟩ := message_of_foundAt_drop hcolumn hfound
    rw [String.length_toList] at hcolumn hend hinside
    exact ⟨_, column, hplain, hindex, hlines, hcolumn, hend, hinside⟩
  · intro tokens d hparse
    obtain ⟨index, hindex, htokens, hle, -⟩ := exists_foundAt hparse
    refine ⟨index, hindex, hle, ?_⟩
    rw [Diagnostic.message, htokens, hindex, lines_render, List.getLast?_concat, caretLine_natCast]

theorem message_of_parse_error_control_character :
    (parse "a +\t\x0b 1" = .error ⟨.operandExpected ⟨.operator, "\x0b"⟩, Token.scan "a +\t\x0b 1", 2⟩ ∧
      Text.lines (Diagnostic.message ⟨.operandExpected ⟨.operator, "\x0b"⟩, Token.scan "a +\t\x0b 1", 2⟩) =
        ["Parser error: Operand expected, found OPERATOR '\\x0b'", "a+\x0b1", "  ^"]) ∧
    parseTokens [⟨.atom, "ab\n"⟩, ⟨.operator, "**"⟩] =
        .error ⟨.unknownOperator "**", [⟨.atom, "ab\n"⟩, ⟨.operator, "**"⟩], 1⟩ ∧
      (Text.lines (Diagnostic.message ⟨.unknownOperator "**", [⟨.atom, "ab\n"⟩, ⟨.operator, "**"⟩], 1⟩)).getLast? =
        some "   ^" := by
  have htext : parse "a +\t\x0b 1" =
      .error ⟨.operandExpected ⟨.operator, "\x0b"⟩, Token.scan "a +\t\x0b 1", 2⟩ := by decide +kernel
  have htokens : parseTokens [⟨.atom, "ab\n"⟩, ⟨.operator, "**"⟩] =
      .error ⟨.unknownOperator "**", [⟨.atom, "ab\n"⟩, ⟨.operator, "**"⟩], 1⟩ := by decide +kernel
  obtain ⟨plain, column, hplain, hcolumn, hlines, -⟩ := message_of_parse_error.1 _ _ htext
  obtain ⟨index, hindex, -, hlast⟩ := message_of_parse_error.2 _ _ htokens
  obtain rfl : plain = "a+\x0b1" := String.toList_injective (hplain.trans (by decide))
  obtain rfl : column = 2 := (Int.ofNat.inj hcolumn).symm
  obtain rfl : index = 1 := (Int.ofNat.inj hindex).symm
  refine ⟨⟨htext, hlines.trans ?_⟩, htokens, hlast.trans ?_⟩
  · decide +kernel
  · decide +kernel

end Parser

end Reckoner
