import Reckoner.Proofs.Parsing.Spelling
import Reckoner.Reference.Symbol
import Mathlib.Data.Bool.AllAny

/-!
# Two readings of the characters

The calculator makes a token of every character and glues neighbouring digits only when it builds an atom, across spaces as well. The reference reads a whole number at once, spells a caret as two asterisks and takes two asterisks or two slashes for one operator. For arithmetic texts in which every operator stands in front of an operand the two readings agree: the symbols are those that the tokens make up. What a finished number has to wait for is the digit that would go on with it, so the induction over the text carries the number read so far.
-/

namespace Reckoner

/-! ### Arithmetic texts -/

namespace Reference

/-- A zero that begins a number is all of it, behind the given character. -/
def Unpadded : (before : Char) → List Char → Prop
  | _, [] => True
  | before, c :: rest => (c = '0' → before.isDigit = false → ∀ d ∈ rest.head?, d.isDigit = false) ∧ Unpadded c rest

/-- No digit is parted from the next one by spaces. -/
def Unbroken : List Char → Prop
  | [] => True
  | c :: rest =>
    (c.isDigit = true → rest.head? = some ' ' → ∀ d ∈ rest.find? (· != ' '), d.isDigit = false) ∧ Unbroken rest

instance Unpadded.decidable : (before : Char) → (cs : List Char) → Decidable (Unpadded before cs)
  | _, [] => inferInstanceAs (Decidable True)
  | _, c :: rest =>
    haveI := Unpadded.decidable c rest
    haveI : Decidable (∀ d ∈ rest.head?, d.isDigit = false) := Option.decidableForallMem _
    inferInstanceAs (Decidable (_ ∧ _))

instance Unbroken.decidable : (cs : List Char) → Decidable (Unbroken cs)
  | [] => inferInstanceAs (Decidable True)
  | _ :: rest =>
    haveI := Unbroken.decidable rest
    haveI : Decidable (∀ d ∈ rest.find? (· != ' '), d.isDigit = false) := Option.decidableForallMem _
    inferInstanceAs (Decidable (_ ∧ _))

def marks : List Char := ['+', '-', '*', '/', '^', '(', ')', ' ']

/-- Texts of digits, the five operators, brackets and spaces whose numbers have neither zeros in front nor spaces inside. -/
structure Arithmetic (text : String) : Prop where
  alphabet : ∀ c ∈ text.toList, c.isDigit = true ∨ c ∈ marks
  unpadded : Unpadded ' ' text.toList
  unbroken : Unbroken text.toList

/-! ### Symbols of tokens -/

def Operator.ofText? : String → Option Operator
  | "+" => some .add
  | "-" => some .sub
  | "*" => some .mul
  | "/" => some .div
  | "^" => some .pow
  | _ => none

namespace Symbol

def ofLexeme? : String → Option Symbol
  | "(" => some opening
  | ")" => some closing
  | lexeme => (Operator.ofText? lexeme).map operator

/-- The symbols that tokens make up, behind the number that was read last and may go on. -/
def ofTokens : (pending : Option Nat) → List Token → List Symbol
  | pending, [] => (pending.map number).toList
  | pending, token :: rest =>
    if token.kind = .atom then ofTokens (some (Nat.ofDigitChars 10 token.lexeme.toList (pending.getD 0))) rest
    else (pending.map number).toList ++ (ofLexeme? token.lexeme).toList ++ ofTokens none rest

variable {token : Token} {pending : Option Nat}

theorem ofTokens_atom (hkind : token.kind = .atom) (pending : Option Nat) (rest : List Token) :
    ofTokens pending (token :: rest) =
      ofTokens (some (Nat.ofDigitChars 10 token.lexeme.toList (pending.getD 0))) rest := by
  rw [ofTokens, if_pos hkind]

theorem ofTokens_mark (hkind : token.kind ≠ .atom) (pending : Option Nat) (rest : List Token) :
    ofTokens pending (token :: rest) =
      (pending.map number).toList ++ (ofLexeme? token.lexeme).toList ++ ofTokens none rest := by
  rw [ofTokens, if_neg hkind]

theorem ofTokens_of_head (tokens : List Token) (hhead : ∀ token ∈ tokens.head?, token.kind ≠ .atom) :
    ofTokens pending tokens = (pending.map number).toList ++ ofTokens none tokens := by
  cases tokens with
  | nil => simp [ofTokens]
  | cons token rest =>
    have hkind : token.kind ≠ .atom := hhead token rfl
    simp [ofTokens_mark hkind]

theorem ofTokens_append_mark (hkind : token.kind ≠ .atom) (pending : Option Nat) (front back : List Token) :
    ofTokens pending (front ++ token :: back) =
      ofTokens pending front ++ (ofLexeme? token.lexeme).toList ++ ofTokens none back := by
  induction front generalizing pending with
  | nil => rw [List.nil_append, ofTokens_mark hkind, ofTokens]
  | cons first more ih =>
    rw [List.cons_append]
    by_cases hfirst : first.kind = .atom
    · rw [ofTokens_atom hfirst, ofTokens_atom hfirst, ih]
    · rw [ofTokens_mark hfirst, ofTokens_mark hfirst, ih]
      simp only [List.append_assoc]

theorem ofTokens_atoms_some (n : Nat) (run : List Token) (hatoms : ∀ token ∈ run, token.kind = .atom) :
    ofTokens (some n) run = [number (Nat.ofDigitChars 10 (Token.spell run).toList n)] := by
  induction run generalizing n with
  | nil => rfl
  | cons first more ih =>
    have hfirst : first.kind = .atom := hatoms first List.mem_cons_self
    have hmore : ∀ token ∈ more, token.kind = .atom := fun token htoken => hatoms token (List.mem_cons_of_mem _ htoken)
    rw [ofTokens_atom hfirst, ih _ hmore, Token.toList_spell, Token.toList_spell, List.flatMap_cons,
      Nat.ofDigitChars_append]
    rfl

theorem ofTokens_atoms {run : List Token} (hne : run ≠ []) (hatoms : ∀ token ∈ run, token.kind = .atom) :
    ofTokens none run = [number (Nat.ofDigitChars 10 (Token.spell run).toList 0)] := by
  obtain ⟨first, more, rfl⟩ := List.exists_cons_of_ne_nil hne
  rw [← ofTokens_atoms_some 0 _ hatoms]
  have hfirst : first.kind = .atom := hatoms first List.mem_cons_self
  rw [ofTokens_atom hfirst, ofTokens_atom hfirst]
  rfl

end Symbol

end Reference

/-! ### Operators in front of operands -/

namespace Grammar

def Starts (token : Token) : Prop := token.kind = .atom ∨ token = Token.opening

def Binds (token : Token) : Prop := token.kind = .operator ∧ (Binding.of? token.lexeme).isSome

/-- Behind every operator an operand begins. -/
def Attended : List Token → Prop
  | [] => True
  | token :: rest => (Binds token → ∃ next ∈ rest.head?, Starts next) ∧ Attended rest

theorem Attended.append {front back : List Token} (hfront : Attended front) (hback : Attended back) :
    Attended (front ++ back) := by
  induction front with
  | nil => exact hback
  | cons token rest ih =>
    refine ⟨fun hbinds => ?_, ih hfront.2⟩
    obtain ⟨next, hnext, hstarts⟩ := hfront.1 hbinds
    have hhead : (rest ++ back).head? = some next := by rw [List.head?_append, hnext]; rfl
    exact ⟨next, hhead, hstarts⟩

theorem attended_atoms {run : List Token} (hatoms : ∀ token ∈ run, token.kind = .atom) : Attended run := by
  induction run with
  | nil => trivial
  | cons token rest ih =>
    refine ⟨fun hbinds => ?_, ih fun other hother => hatoms other (List.mem_cons_of_mem _ hother)⟩
    have hkind := hbinds.1
    rw [hatoms token List.mem_cons_self] at hkind
    cases hkind

theorem Derives.attended {level : Level} {tokens : List Token} {tree : Expr} (h : Derives level tokens tree) :
    (∃ token ∈ tokens.head?, Starts token) ∧ Attended tokens := by
  refine h.uniform (motive := fun tokens _ => (∃ token ∈ tokens.head?, Starts token) ∧ Attended tokens) ?_ ?_ ?_
  · intro run hne hatoms
    obtain ⟨first, more, rfl⟩ := List.exists_cons_of_ne_nil hne
    exact ⟨⟨first, rfl, .inl (hatoms first List.mem_cons_self)⟩, attended_atoms hatoms⟩
  · intro inner tree ih
    have hopening : ¬ Binds Token.opening := fun hbinds => absurd hbinds.2 (by decide)
    have hclosing : ¬ Binds Token.closing := fun hbinds => absurd hbinds.2 (by decide)
    refine ⟨⟨Token.opening, rfl, .inr rfl⟩, fun hbinds => absurd hbinds hopening, ih.2.append ?_⟩
    exact ⟨fun hbinds => absurd hbinds hclosing, trivial⟩
  · intro operator front back left right hknown ihLeft ihRight
    obtain ⟨first, hfirst, hstarts⟩ := ihLeft.1
    refine ⟨⟨first, by rw [List.head?_append, hfirst]; rfl, hstarts⟩, ihLeft.2.append ?_⟩
    exact ⟨fun _ => ihRight.1, ihRight.2⟩

end Grammar

/-! ### The symbols of a text -/

namespace Reference.Symbol

open Grammar

abbrev tokensOf (cs : List Char) : List Token := (cs.filter fun c => !Token.isSpacing c).map Token.ofChar

/-! #### Tokens of single characters -/

theorem tokensOf_digit {c : Char} (hdigit : c.isDigit = true) (rest : List Char) :
    tokensOf (c :: rest) = ⟨.atom, String.singleton c⟩ :: tokensOf rest := by
  have halphanum : c.isAlphanum = true := by simp [Char.isAlphanum, hdigit]
  simp [tokensOf, Token.isSpacing_of_isAlphanum halphanum, Token.ofChar, halphanum]

theorem tokensOf_space (rest : List Char) : tokensOf (' ' :: rest) = tokensOf rest := rfl

theorem tokensOf_mark {c : Char} (hmark : c ∈ marks) (hspace : c ≠ ' ') (rest : List Char) :
    tokensOf (c :: rest) = ⟨.operator, String.singleton c⟩ :: tokensOf rest := by
  have hmarks : ∀ c ∈ marks, c ≠ ' ' → Token.isSpacing c = false ∧ c.isAlphanum = false :=
      List.all_iff_forall_prop.mp (by decide)
  obtain ⟨hspacing, halphanum⟩ := hmarks c hmark hspace
  simp [tokensOf, hspacing, Token.ofChar, halphanum]

theorem head?_tokensOf {cs : List Char} (halphabet : ∀ c ∈ cs, c.isDigit = true ∨ c ∈ marks) :
    (tokensOf cs).head? = (cs.find? (· != ' ')).map Token.ofChar := by
  rw [tokensOf, List.head?_map, List.head?_filter]
  congr 1
  induction cs with
  | nil => rfl
  | cons c rest ih =>
    have hc : (!Token.isSpacing c) = (c != ' ') := by
      rcases halphabet c List.mem_cons_self with hdigit | hmark
      · have hspace : c ≠ ' ' := by rintro rfl; exact absurd hdigit (by decide)
        have halphanum : c.isAlphanum = true := by simp [Char.isAlphanum, hdigit]
        simp [Token.isSpacing_of_isAlphanum halphanum, hspace]
      · have hmarks : ∀ c ∈ marks, (!Token.isSpacing c) = (c != ' ') := List.all_iff_forall_prop.mp (by decide)
        exact hmarks c hmark
    rw [List.find?_cons, List.find?_cons, hc, ih fun d hd => halphabet d (List.mem_cons_of_mem _ hd)]

/-! #### Symbols of single characters -/

theorem scanFrom_digit {c : Char} (hdigit : c.isDigit = true) (pending : Option Symbol) (rest : List Char) :
    scanFrom pending (c :: rest) = scanFrom (some (withDigit pending (c.toNat - 0x30))) rest := by
  rw [scanFrom, if_pos hdigit]
  · rintro others rfl
    exact absurd hdigit (by decide)
  · rintro others rfl
    exact absurd hdigit (by decide)

theorem scanFrom_space (pending : Option Symbol) (rest : List Char) :
    scanFrom pending (' ' :: rest) = (scanFrom none rest).map (pending.toList ++ ·) := by
  rw [scanFrom, if_neg (by decide), if_pos rfl]
  all_goals
    intro _ h
    exact absurd h (by decide)

theorem scanFrom_mark {c : Char} {symbol : Symbol} {rest : List Char} (hsymbol : ofChar? c = some symbol)
    (hnext : c = '*' ∨ c = '/' → rest.head? ≠ some c) (pending : Option Symbol) :
    scanFrom pending (c :: rest) = (scanFrom none rest).map (pending.toList ++ symbol :: ·) := by
  have hdigit : ¬ c.isDigit = true := by
    intro hdigit
    unfold ofChar? at hsymbol
    split at hsymbol <;> contradiction
  have hspace : c ≠ ' ' := by
    rintro rfl
    cases hsymbol
  rw [scanFrom, if_neg hdigit, if_neg hspace, hsymbol]
  · rintro others rfl rfl
    exact hnext (.inl rfl) rfl
  · rintro others rfl rfl
    exact hnext (.inr rfl) rfl

theorem head?_spellCarets_ne {c : Char} (hc : c = '*' ∨ c = '/') {rest : List Char}
    (hstarts : ∃ next ∈ (tokensOf rest).head?, Starts next) : (spellCarets rest).head? ≠ some c := by
  intro hhead
  cases rest with
  | nil => simp [spellCarets] at hhead
  | cons d more =>
    have hd : d = '*' ∨ d = '/' ∨ d = '^' := by
      by_cases hcaret : d = '^'
      · exact .inr (.inr hcaret)
      · have hdc : d = c := by simpa [spellCarets, hcaret] using hhead
        exact hdc ▸ hc.imp_right .inl
    obtain ⟨next, hnext, hstarts⟩ := hstarts
    have hmark : d ∈ marks ∧ d ≠ ' ' := by rcases hd with rfl | rfl | rfl <;> decide
    rw [tokensOf_mark hmark.1 hmark.2] at hnext
    obtain rfl := Option.some.inj hnext
    rcases hd with rfl | rfl | rfl <;> exact absurd hstarts (by unfold Starts; decide)

/-- An operator or a bracket is one symbol, a caret that is spelled out included. -/
theorem scanFrom_spelled {c : Char} {rest : List Char} (hmark : c ∈ marks) (hspace : c ≠ ' ')
    (hnext : Binds ⟨.operator, String.singleton c⟩ → ∃ next ∈ (tokensOf rest).head?, Starts next)
    (pending : Option Symbol) :
    scanFrom pending (spellCarets (c :: rest)) =
      (scanFrom none (spellCarets rest)).map (pending.toList ++ (ofLexeme? (String.singleton c)).toList ++ ·) := by
  by_cases hcaret : c = '^'
  · subst hcaret
    have hspelled : spellCarets ('^' :: rest) = '*' :: '*' :: spellCarets rest := rfl
    have hsymbol : ofLexeme? (String.singleton '^') = some (operator .pow) := by decide
    rw [hspelled, scanFrom, hsymbol]
    simp
  · have hspelled : spellCarets (c :: rest) = c :: spellCarets rest := by simp [spellCarets, hcaret]
    have hmarks : ∀ c ∈ marks, c ≠ ' ' → c ≠ '^' →
        (ofChar? c).isSome ∧ ofLexeme? (String.singleton c) = ofChar? c := List.all_iff_forall_prop.mp (by decide)
    obtain ⟨hsome, hlexeme⟩ := hmarks c hmark hspace hcaret
    obtain ⟨symbol, hsymbol⟩ := Option.isSome_iff_exists.mp hsome
    have hsecond (hc : c = '*' ∨ c = '/') : (spellCarets rest).head? ≠ some c := by
      refine head?_spellCarets_ne hc (hnext ⟨rfl, ?_⟩)
      rcases hc with rfl | rfl <;> decide
    rw [hspelled, scanFrom_mark hsymbol hsecond, hlexeme, hsymbol]
    simp

/-! #### The induction over the text -/

/-- What is known of the characters behind one at which the pending number has been read. -/
structure Ahead (pending : Option Nat) (before : Char) (cs : List Char) : Prop where
  alphabet : ∀ c ∈ cs, c.isDigit = true ∨ c ∈ marks
  unpadded : Unpadded before cs
  unbroken : Unbroken (before :: cs)
  attended : Attended (tokensOf cs)
  pending_iff : pending.isSome = before.isDigit
  zero : pending = some 0 → ∀ d ∈ cs.head?, d.isDigit = false

namespace Ahead

variable {pending : Option Nat} {before c : Char} {rest : List Char}

theorem digit (h : Ahead pending before (c :: rest)) (hdigit : c.isDigit = true) :
    Ahead (some (10 * pending.getD 0 + (c.toNat - 0x30))) c rest where
  alphabet d hd := h.alphabet d (List.mem_cons_of_mem _ hd)
  unpadded := h.unpadded.2
  unbroken := h.unbroken.2
  attended := by
    have hattended := h.attended
    rw [tokensOf_digit hdigit] at hattended
    exact hattended.2
  pending_iff := by simp [hdigit]
  zero hzero := by
    have hsum : 10 * pending.getD 0 + (c.toNat - 0x30) = 0 := Option.some.inj hzero
    have hfirst : before.isDigit = false := by
      rw [← h.pending_iff]
      cases pending with
      | none => rfl
      | some n =>
        obtain rfl : n = 0 := by
          rw [Option.getD_some] at hsum
          omega
        exact absurd hdigit (by simp [h.zero rfl c rfl])
    have hc : c = '0' := by
      have hlow : '0'.toNat ≤ c.toNat := (Char.isDigit_iff_toNat.mp hdigit).1
      have hhigh : c.toNat ≤ '0'.toNat := by
        show c.toNat ≤ 48
        omega
      exact Char.toNat_inj.mp (Nat.le_antisymm hhigh hlow)
    exact h.unpadded.1 hc hfirst

theorem mark (h : Ahead pending before (c :: rest)) (hdigit : c.isDigit = false) : Ahead none c rest where
  alphabet d hd := h.alphabet d (List.mem_cons_of_mem _ hd)
  unpadded := h.unpadded.2
  unbroken := h.unbroken.2
  attended := by
    have hattended := h.attended
    have hmark : c ∈ marks := (h.alphabet c List.mem_cons_self).resolve_left (by simp [hdigit])
    by_cases hspace : c = ' '
    · subst hspace
      exact hattended
    · rw [tokensOf_mark hmark hspace] at hattended
      exact hattended.2
  pending_iff := by simp [hdigit]
  zero hzero := by cases hzero

theorem scanFrom_pending (h : Ahead pending before (c :: rest)) (hdigit : c.isDigit = true) (symbols : List Char) :
    scanFrom (pending.map number) (c :: symbols) =
      scanFrom ((some (10 * pending.getD 0 + (c.toNat - 0x30))).map number) symbols := by
  rw [scanFrom_digit hdigit]
  match pending, h with
  | none, _ => simp [withDigit]
  | some 0, h => exact absurd hdigit (by simp [h.zero rfl c rfl])
  | some (n + 1), _ => simp [withDigit]

theorem ofTokens_space (h : Ahead pending before (' ' :: rest)) :
    ofTokens pending (tokensOf rest) = (pending.map number).toList ++ ofTokens none (tokensOf rest) := by
  by_cases hbefore : before.isDigit = true
  · refine ofTokens_of_head _ fun token htoken => ?_
    rw [head?_tokensOf fun c hc => h.alphabet c (List.mem_cons_of_mem _ hc)] at htoken
    obtain ⟨c, hc, rfl⟩ := Option.map_eq_some_iff.mp htoken
    have hdigit : c.isDigit = false := h.unbroken.1 hbefore rfl c (by simpa using hc)
    have hmark : c ∈ marks :=
      (h.alphabet c (List.mem_cons_of_mem _ (List.mem_of_find?_eq_some hc))).resolve_left (by simp [hdigit])
    have hmarks : ∀ c ∈ marks, (Token.ofChar c).kind ≠ .atom := List.all_iff_forall_prop.mp (by decide)
    exact hmarks c hmark
  · have hnone : pending = none := by
      rw [← h.pending_iff] at hbefore
      simpa using hbefore
    subst hnone
    rfl

end Ahead

/-- The symbols that are read from a text are those that its tokens make up. -/
theorem scanFrom_spellCarets (cs : List Char) {pending : Option Nat} {before : Char} (h : Ahead pending before cs) :
    scanFrom (pending.map number) (spellCarets cs) = some (ofTokens pending (tokensOf cs)) := by
  induction cs generalizing pending before with
  | nil => simp [spellCarets, scanFrom, ofTokens, tokensOf]
  | cons c rest ih =>
    by_cases hdigit : c.isDigit = true
    · have hcaret : c ≠ '^' := by rintro rfl; exact absurd hdigit (by decide)
      have hspelled : spellCarets (c :: rest) = c :: spellCarets rest := by simp [spellCarets, hcaret]
      rw [hspelled, h.scanFrom_pending hdigit, ih (h.digit hdigit), tokensOf_digit hdigit, ofTokens_atom rfl]
      simp [Nat.ofDigitChars_cons]
    · have hmark : c ∈ marks := (h.alphabet c List.mem_cons_self).resolve_left hdigit
      have hrest : scanFrom none (spellCarets rest) = some (ofTokens none (tokensOf rest)) :=
        ih (h.mark (by simpa using hdigit))
      by_cases hspace : c = ' '
      · subst hspace
        have hspelled : spellCarets (' ' :: rest) = ' ' :: spellCarets rest := rfl
        rw [hspelled, scanFrom_space, hrest, tokensOf_space, h.ofTokens_space]
        cases pending <;> rfl
      · have hattended := h.attended
        rw [tokensOf_mark hmark hspace] at hattended
        rw [scanFrom_spelled hmark hspace hattended.1, hrest, tokensOf_mark hmark hspace, ofTokens_mark (by simp)]
        cases pending <;> rfl

theorem scan?_of_attended {text : String} (h : Arithmetic text) (hattended : Attended (Token.scan text)) :
    scan? text = some (ofTokens none (Token.scan text)) := by
  have hahead : Ahead none ' ' text.toList :=
    { alphabet := h.alphabet
      unpadded := h.unpadded
      unbroken := ⟨fun hdigit => absurd hdigit (by decide), h.unbroken⟩
      attended := hattended
      pending_iff := rfl
      zero := fun hzero => by cases hzero }
  exact scanFrom_spellCarets text.toList hahead

end Reference.Symbol

end Reckoner
