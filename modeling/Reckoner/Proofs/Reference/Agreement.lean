import Reckoner.Proofs.Reference.Reading
import Reckoner.Proofs.Reference.Symbols
import Reckoner.Reference.Denotation

/-!
# The reference agrees with the parser

The reference reads an arithmetic text that parses as the tree of the parser. The grammar of the parser and the reader of the reference describe the levels of operators in different ways; production by production of the grammar, the reader takes the same symbols and builds the same term. Signs are where the two could differ, and in a text that parses no operator stands where a sign could.
-/

namespace Reckoner

open Reference Grammar

/-! ### Trees as terms -/

namespace Expr

def number? (text : String) : Option Nat :=
  if text ≠ "" ∧ text.toList.all Char.isDigit then some (Nat.ofDigitChars 10 text.toList 0) else none

def term? : Expr → Option Term
  | atom text => (number? text).map .number
  | operation operator left right => do
    let operator ← Operator.ofText? operator
    let a ← left.term?
    let b ← right.term?
    return .binary operator a b
  | misfit _ => none

section

variable [Library]

/-- The value of a tree of numbers and the five operators in the reference arithmetic, the left operand worked out first. -/
def reckon : Expr → Option (Except Failure Quantity)
  | atom text => (number? text).map fun n : Nat => .ok (.whole n)
  | operation operator left right => do
    let operator ← Operator.ofText? operator
    let a ← left.reckon
    let b ← right.reckon
    return do Quantity.apply operator (← a) (← b)
  | misfit _ => none

theorem reckon_of_term {tree : Expr} {term : Term} (h : tree.term? = some term) :
    ∃ outcome, tree.reckon = some outcome ∧ term.evaluate = outcome.map .quantity := by
  induction tree generalizing term with
  | atom text =>
    obtain ⟨n, hn, rfl⟩ := Option.map_eq_some_iff.mp h
    exact ⟨.ok (.whole n), by rw [reckon, hn]; rfl, rfl⟩
  | operation operator left right ihLeft ihRight =>
    simp only [term?, Option.bind_eq_bind, Option.bind_eq_some_iff] at h
    obtain ⟨op, hop, a, ha, b, hb, hterm⟩ := h
    obtain rfl := Option.some.inj hterm
    obtain ⟨first, hfirst, hevaluateFirst⟩ := ihLeft ha
    obtain ⟨second, hsecond, hevaluateSecond⟩ := ihRight hb
    refine ⟨do Quantity.apply op (← first) (← second), by simp [reckon, hop, hfirst, hsecond], ?_⟩
    rw [Term.evaluate, hevaluateFirst, hevaluateSecond]
    cases first with
    | error e => rfl
    | ok x =>
      cases second with
      | error e => rfl
      | ok y => rfl
  | misfit value => cases h

end

end Expr

/-! ### Tokens of arithmetic texts -/

namespace Expr

theorem isSome_number?_iff {text : String} :
    (number? text).isSome ↔ text ≠ "" ∧ ∀ c ∈ text.toList, c.isDigit = true := by
  unfold number?
  split
  · next h => simpa using h
  · next h => simpa using h

theorem number?_spell {run : List Token} (hne : run ≠ []) (hnumbers : ∀ token ∈ run, (number? token.lexeme).isSome) :
    number? (Token.spell run) = some (Nat.ofDigitChars 10 (Token.spell run).toList 0) := by
  have hwords (token : Token) (htoken : token ∈ run) := isSome_number?_iff.mp (hnumbers token htoken)
  rw [number?, if_pos]
  exact ⟨Token.spell_ne_empty hne fun token htoken => (hwords token htoken).1,
    List.all_eq_true.mpr (Token.forall_mem_spell fun token htoken => (hwords token htoken).2)⟩

end Expr

def Token.Arithmetic (token : Token) : Prop :=
  match token.kind with
  | .atom => (Expr.number? token.lexeme).isSome
  | .operator => (Symbol.ofLexeme? token.lexeme).isSome
  | .stop => False

theorem Reference.Arithmetic.tokens {text : String} (h : Arithmetic text) :
    ∀ token ∈ Token.scan text, token.Arithmetic := by
  intro token htoken
  obtain ⟨c, hc, rfl⟩ := List.mem_map.mp htoken
  obtain ⟨hmem, hspacing⟩ := List.mem_filter.mp hc
  rcases h.alphabet c hmem with hdigit | hmark
  · have hkind : Token.ofChar c = ⟨.atom, String.singleton c⟩ := by simp [Token.ofChar, Char.isAlphanum, hdigit]
    rw [hkind]
    simp [Token.Arithmetic, Expr.number?, hdigit]
  · have hmarks : ∀ c ∈ marks, (!Token.isSpacing c) = true →
        (Token.ofChar c).kind = .operator ∧ (Symbol.ofLexeme? (Token.ofChar c).lexeme).isSome :=
      List.all_iff_forall_prop.mp (by decide)
    obtain ⟨hkind, hsymbol⟩ := hmarks c hmark hspacing
    simpa [Token.Arithmetic, hkind] using hsymbol

namespace Reference

/-! ### Brackets -/

/-- Symbols without a fault of their own, all of whose brackets are matched. -/
def Balanced (symbols : List Symbol) : Prop :=
  ∀ depth rest, Misreading.ofBrackets? .unlimited depth (symbols ++ rest) = Misreading.ofBrackets? .unlimited depth rest

theorem balanced_number (n : Nat) : Balanced [.number n] := fun depth rest => by
  cases depth <;> simp [Misreading.ofBrackets?]

theorem Balanced.bracket {inner : List Symbol} (h : Balanced inner) : Balanced (.opening :: inner ++ [.closing]) := by
  intro depth rest
  have hopening (more : List Symbol) : Misreading.ofBrackets? .unlimited depth (.opening :: more) =
      Misreading.ofBrackets? .unlimited (depth + 1) more := by
    cases depth <;> simp [Misreading.ofBrackets?, Limits.unlimited]
  rw [List.cons_append, List.cons_append, List.append_assoc, hopening, h, List.singleton_append, Misreading.ofBrackets?]

theorem Balanced.operation {front back : List Symbol} (operator : Operator) (hfront : Balanced front)
    (hback : Balanced back) : Balanced (front ++ .operator operator :: back) := by
  intro depth rest
  have hoperator (more : List Symbol) : Misreading.ofBrackets? .unlimited depth (.operator operator :: more) =
      Misreading.ofBrackets? .unlimited depth more := by
    cases depth <;> simp [Misreading.ofBrackets?]
  rw [List.append_assoc, hfront, List.cons_append, hoperator, hback]

/-! ### Levels -/

namespace Term

/-- The reader of a level takes the symbols as the term, whatever follows that is loose enough. -/
def Reads : Level → List Symbol → Term → Prop
  | .assignment, symbols, term | .sum, symbols, term =>
    ∀ rest, Loose 2 rest → takeSum (symbols ++ rest) = takeSummands term rest
  | .product, symbols, term => ∀ rest, Loose 3 rest → takeProduct (symbols ++ rest) = takeFactors term rest
  | .power, symbols, term => ∀ rest, Loose 3 rest → takeSigned (symbols ++ rest) = some (term, rest)
  | .point, symbols, term | .operand, symbols, term =>
    ∀ rest, Loose 4 rest → takePrimary (symbols ++ rest) = some (term, rest)

namespace Reads

variable {symbols front back : List Symbol} {term left right : Term} {operator : Operator}

theorem ofProduct (h : Reads .product symbols term) : Reads .sum symbols term := by
  intro rest hrest
  rw [takeSum_eq, h rest (hrest.mono (by decide)), takeFactors_of_loose hrest]
  rfl

theorem add (hoperator : (Symbol.operator operator).strength = 1) (hleft : Reads .sum front left)
    (hright : Reads .product back right) :
    Reads .sum (front ++ .operator operator :: back) (.binary operator left right) := by
  intro rest hrest
  have hfront : Loose 2 (.operator operator :: (back ++ rest)) := loose_cons.mpr (by omega)
  rw [List.append_assoc, List.cons_append, hleft _ hfront, takeSummands_operator hoperator,
    hright rest (hrest.mono (by decide)), takeFactors_of_loose hrest]
  rfl

theorem ofPower (h : Reads .power symbols term) : Reads .product symbols term := by
  intro rest hrest
  rw [takeProduct_eq, h rest hrest]
  rfl

theorem multiply (hoperator : (Symbol.operator operator).strength = 2) (hleft : Reads .product front left)
    (hright : Reads .power back right) :
    Reads .product (front ++ .operator operator :: back) (.binary operator left right) := by
  intro rest hrest
  have hfront : Loose 3 (.operator operator :: (back ++ rest)) := loose_cons.mpr (by omega)
  rw [List.append_assoc, List.cons_append, hleft _ hfront, takeFactors_operator hoperator, hright rest hrest]
  rfl

theorem ofPoint (hleading : Leading symbols) (h : Reads .point symbols term) : Reads .power symbols term := by
  intro rest hrest
  rw [takeSigned_of_leading (hleading.append rest)]
  exact takePower_of_primary (h rest (hrest.mono (by decide))) hrest

theorem raise (hleading : Leading front) (hleft : Reads .point front left) (hright : Reads .power back right) :
    Reads .power (front ++ .operator .pow :: back) (.binary .pow left right) := by
  intro rest hrest
  have hfront : Loose 4 (.operator .pow :: (back ++ rest)) := loose_cons.mpr (by decide)
  rw [List.append_assoc, List.cons_append, takeSigned_of_leading (hleading.append _)]
  exact takePower_pow (hleft _ hfront) (hright rest hrest)

theorem number (n : Nat) : Reads .operand [.number n] (.number n) :=
  fun rest hrest => takePrimary_of_atom (takeAtom_number n rest) hrest

theorem bracket (hleading : Leading symbols) (h : Reads .assignment symbols term) :
    Reads .operand (.opening :: symbols ++ [.closing]) term := by
  intro rest hrest
  have hclosing (limit : Nat) (hlimit : 0 < limit) : Loose limit (.closing :: rest) := loose_cons.mpr hlimit
  have hsum : takeSum (symbols ++ .closing :: rest) = some (term, .closing :: rest) := by
    rw [h _ (hclosing 2 (by decide)), takeSummands_of_loose (hclosing 1 (by decide))]
  rw [List.cons_append, List.cons_append, List.append_assoc]
  exact takePrimary_of_atom (takeAtom_opening (hleading.append _).head?_ne_closing hsum) hrest

end Reads

end Term

/-! ### Productions -/

/-- The symbols are read as the tree, and nothing is wrong with them. -/
structure Agrees (level : Level) (symbols : List Symbol) (tree : Expr) : Prop where
  leading : Leading symbols
  balanced : Balanced symbols
  reads : ∃ term, tree.term? = some term ∧ Term.Reads level symbols term

namespace Agrees

variable {level other result : Level} {symbols front back : List Symbol} {tree left right : Expr}

theorem relevel (h : Agrees level symbols tree)
    (hreads : ∀ {term : Term}, Term.Reads level symbols term → Term.Reads result symbols term) :
    Agrees result symbols tree := by
  obtain ⟨term, hterm, hlevel⟩ := h.reads
  exact ⟨h.leading, h.balanced, term, hterm, hreads hlevel⟩

theorem operation {text : String} {operator : Operator} (htext : Operator.ofText? text = some operator)
    (hleft : Agrees level front left) (hright : Agrees other back right)
    (hreads : ∀ {a b : Term}, Term.Reads level front a → Term.Reads other back b →
      Term.Reads result (front ++ .operator operator :: back) (.binary operator a b)) :
    Agrees result (front ++ .operator operator :: back) (.operation text left right) := by
  obtain ⟨a, ha, hfront⟩ := hleft.reads
  obtain ⟨b, hb, hback⟩ := hright.reads
  refine ⟨hleft.leading.append _, hleft.balanced.operation operator hright.balanced, .binary operator a b, ?_,
    hreads hfront hback⟩
  simp [Expr.term?, htext, ha, hb]

theorem bracket (h : Agrees .assignment symbols tree) : Agrees .operand (.opening :: symbols ++ [.closing]) tree := by
  obtain ⟨term, hterm, hreads⟩ := h.reads
  exact ⟨trivial, h.balanced.bracket, term, hterm, hreads.bracket h.leading⟩

theorem atom {text : String} {n : Nat} (hnumber : Expr.number? text = some n) :
    Agrees .operand [.number n] (.atom text) :=
  ⟨trivial, balanced_number n, .number n, by rw [Expr.term?, hnumber]; rfl, .number n⟩

end Agrees

theorem Operator.exists_of_sum_sign {text : String} (hsign : text = "+" ∨ text = "-") :
    ∃ operator, ofText? text = some operator ∧ (Symbol.operator operator).strength = 1 := by
  rcases hsign with rfl | rfl
  · exact ⟨.add, rfl, rfl⟩
  · exact ⟨.sub, rfl, rfl⟩

theorem Operator.exists_of_product_sign {text : String} (hsign : text = "*" ∨ text = "/") :
    ∃ operator, ofText? text = some operator ∧ (Symbol.operator operator).strength = 2 := by
  rcases hsign with rfl | rfl
  · exact ⟨.mul, rfl, rfl⟩
  · exact ⟨.div, rfl, rfl⟩

theorem Symbol.ofTokens_operation {text : String} {operator : Operator} (htext : Operator.ofText? text = some operator)
    (front back : List Token) :
    ofTokens none (front ++ ⟨.operator, text⟩ :: back) =
      ofTokens none front ++ .operator operator :: ofTokens none back := by
  have hlexeme : ofLexeme? text = some (.operator operator) := by
    unfold ofLexeme?
    split
    · cases htext
    · cases htext
    · rw [htext]
      rfl
  rw [ofTokens_append_mark (by simp), hlexeme]
  simp

theorem Symbol.ofTokens_bracket (inner : List Token) :
    ofTokens none (Token.opening :: inner ++ [Token.closing]) = .opening :: ofTokens none inner ++ [.closing] := by
  rw [List.cons_append, ofTokens_mark (by decide), ofTokens_append_mark (by decide)]
  simp [Token.opening, Token.closing, ofLexeme?, ofTokens]

/-- The reference reads what the parser reads, level by level. -/
theorem agrees_of_derives {level : Level} {tokens : List Token} {tree : Expr} (h : Derives level tokens tree)
    (harithmetic : ∀ token ∈ tokens, token.Arithmetic) : Agrees level (Symbol.ofTokens none tokens) tree := by
  have hmark {operator : String} {front back : List Token}
      (hall : ∀ token ∈ front ++ ⟨.operator, operator⟩ :: back, token.Arithmetic) :
      (∀ token ∈ front, token.Arithmetic) ∧ (Symbol.ofLexeme? operator).isSome ∧ ∀ token ∈ back, token.Arithmetic :=
    ⟨fun token htoken => hall token (by simp [htoken]), hall ⟨.operator, operator⟩ (by simp),
      fun token htoken => hall token (by simp [htoken])⟩
  induction h with
  | ofSum _ ih => exact (ih harithmetic).relevel id
  | assign _ _ _ _ => exact absurd (hmark harithmetic).2.1 (by decide)
  | ofProduct _ ih => exact (ih harithmetic).relevel .ofProduct
  | add hsign _ _ ihLeft ihRight =>
    obtain ⟨hfront, -, hback⟩ := hmark harithmetic
    obtain ⟨sign, htext, hstrength⟩ := Operator.exists_of_sum_sign hsign
    rw [Symbol.ofTokens_operation htext]
    exact .operation htext (ihLeft hfront) (ihRight hback) (.add hstrength)
  | ofPower _ ih => exact (ih harithmetic).relevel .ofPower
  | multiply hsign _ _ ihLeft ihRight =>
    obtain ⟨hfront, -, hback⟩ := hmark harithmetic
    obtain ⟨sign, htext, hstrength⟩ := Operator.exists_of_product_sign hsign
    rw [Symbol.ofTokens_operation htext]
    exact .operation htext (ihLeft hfront) (ihRight hback) (.multiply hstrength)
  | ofPoint _ ih => exact (ih harithmetic).relevel (.ofPoint (ih harithmetic).leading)
  | raise hsign _ _ ihLeft ihRight =>
    obtain ⟨hfront, hoperator, hback⟩ := hmark harithmetic
    rcases hsign with rfl | rfl
    · rw [Symbol.ofTokens_operation rfl]
      exact .operation rfl (ihLeft hfront) (ihRight hback) (.raise (ihLeft hfront).leading)
    · exact absurd hoperator (by decide)
  | ofOperand _ ih => exact (ih harithmetic).relevel id
  | join _ _ _ _ => exact absurd (hmark harithmetic).2.1 (by decide)
  | atoms hne hatoms =>
    rw [Symbol.ofTokens_atoms hne hatoms]
    refine .atom (Expr.number?_spell hne fun token htoken => ?_)
    have htokens := harithmetic token htoken
    rwa [Token.Arithmetic, hatoms token htoken] at htokens
  | bracket _ ih =>
    rw [Symbol.ofTokens_bracket]
    exact .bracket (ih fun token htoken => harithmetic token (by simp [htoken]))

/-! ### Texts -/

section
variable {text : String} {tree : Expr} (h : Arithmetic text) (hparse : Parser.parse text = .ok ⟨tree, []⟩)
include h hparse

/-- The reference reads an arithmetic text as the tree that it parses to. -/
theorem ofText_of_parse : ∃ term, tree.term? = some term ∧ Term.ofText .unlimited text = .ok term := by
  have hderives : Derives .assignment (Token.scan text) tree := Parser.derives_of_parseTokens hparse
  have hscan := Symbol.scan?_of_attended h hderives.attended.2
  have hagrees := agrees_of_derives hderives h.tokens
  obtain ⟨term, hterm, hreads⟩ := hagrees.reads
  refine ⟨term, hterm, ?_⟩
  have hbrackets : Misreading.ofBrackets? .unlimited 0 (Symbol.ofTokens none (Token.scan text)) = none := by
    have hbalanced := hagrees.balanced 0 []
    rwa [List.append_nil] at hbalanced
  have hsymbols : Term.ofSymbols? (Symbol.ofTokens none (Token.scan text)) = some term := by
    have hsum := hreads [] (Term.loose_nil 2)
    rw [List.append_nil, Term.takeSummands_of_loose (Term.loose_nil 1)] at hsum
    exact Term.ofSymbols?_of_sum hsum
  have hdigits : (Symbol.ofTokens none (Token.scan text)).findSome? (Misreading.ofDigits? .unlimited) = none := by
    rw [List.findSome?_eq_none_iff]
    intro symbol _
    cases symbol <;> rfl
  simp only [Term.ofText, hscan, Term.ofSymbols, hbrackets, hsymbols, hdigits]

theorem denotation_of_reckon [Library] {outcome : Except Failure Quantity} (hreckon : tree.reckon = some outcome) :
    Reference.denotation .unlimited text = (outcome.bind Quantity.result).mapError .failed := by
  obtain ⟨term, hterm, htext⟩ := ofText_of_parse h hparse
  obtain ⟨same, hsame, hevaluate⟩ := Expr.reckon_of_term hterm
  obtain rfl := Option.some.inj (hreckon.symm.trans hsame)
  rw [Reference.denotation, htext]
  dsimp only
  rw [Term.denotation, hevaluate]
  cases outcome <;> rfl

theorem exists_reckon_of_parse [Library] : ∃ outcome, tree.reckon = some outcome := by
  obtain ⟨term, hterm, -⟩ := ofText_of_parse h hparse
  obtain ⟨outcome, houtcome, -⟩ := Expr.reckon_of_term hterm
  exact ⟨outcome, houtcome⟩

end

end Reference

end Reckoner
