import Reckoner.Proofs.Parsing.Spelling

/-!
# Spacing

Spacing is dropped from a text before anything else happens to it, and every other character becomes a token of its own. So a text without its spacing and the tokens of the text are two forms of the same thing: spelling out the tokens gives the one, scanning it gives back the other. A token list is the scan of what it spells exactly if each of its tokens is one that a character has; a list with any other token spells the text of a different list. Parsing begins with the scan and so cannot tell apart two texts that differ in their spacing.
-/

namespace Reckoner

namespace Token

variable {text other : String} {tokens : List Token} {token : Token}

/-- A token of a text: a single character that is no spacing, which makes an atom if it is an ASCII letter or digit and an operator otherwise. -/
structure Elementary (token : Token) (c : Char) : Prop where
  lexeme : token.lexeme = String.singleton c
  solid : isSpacing c = false
  kind : token.kind = if c.isAlphanum then .atom else .operator

theorem elementary_iff {c : Char} : Elementary token c ↔ isSpacing c = false ∧ token = ofChar c := by
  constructor
  · rintro ⟨hlexeme, hsolid, hkind⟩
    refine ⟨hsolid, ?_⟩
    rw [ofChar, ← hlexeme, ← hkind]
  · rintro ⟨hsolid, rfl⟩
    exact ⟨rfl, hsolid, rfl⟩

/-! ### Scanning and spelling -/

theorem spell_scan (text : String) :
    spell (scan text) = String.ofList (text.toList.filter fun c => !isSpacing c) :=
  Grammar.spell_map_ofChar _

theorem scan_spell_scan (text : String) : scan (spell (scan text)) = scan text := by
  rw [spell_scan, scan, String.toList_ofList, List.filter_filter]
  simp only [Bool.and_self]
  rfl

theorem scan_eq_scan_iff : scan text = scan other ↔ spell (scan text) = spell (scan other) := by
  constructor
  · intro h
    rw [h]
  · intro h
    rw [← scan_spell_scan text, h, scan_spell_scan]

theorem exists_elementary_of_mem_scan (h : token ∈ scan text) : ∃ c, Elementary token c := by
  obtain ⟨c, hc, rfl⟩ := List.mem_map.mp h
  have hsolid : isSpacing c = false := by simpa using (List.mem_filter.mp hc).2
  exact ⟨c, elementary_iff.mpr ⟨hsolid, rfl⟩⟩

theorem scan_cons {c : Char} (hsolid : isSpacing c = false) (cs : List Char) :
    scan (String.ofList (c :: cs)) = ofChar c :: scan (String.ofList cs) := by
  simp [scan, hsolid]

theorem scan_spell_of_elementary (h : ∀ token ∈ tokens, ∃ c, Elementary token c) : scan (spell tokens) = tokens := by
  induction tokens with
  | nil => rfl
  | cons token rest ih =>
    obtain ⟨c, helementary⟩ := h token List.mem_cons_self
    obtain ⟨hsolid, rfl⟩ := elementary_iff.mp helementary
    have hspell : spell (ofChar c :: rest) = String.ofList (c :: (spell rest).toList) := by
      apply String.toList_injective
      simp [toList_spell, ofChar]
    rw [hspell, scan_cons hsolid, String.ofList_toList, ih fun other hother => h other (List.mem_cons_of_mem _ hother)]

theorem scan_spell_eq_iff : scan (spell tokens) = tokens ↔ ∀ token ∈ tokens, ∃ c, Elementary token c := by
  constructor
  · intro h token htoken
    rw [← h] at htoken
    exact exists_elementary_of_mem_scan htoken
  · exact scan_spell_of_elementary

/-! ### Putting in and taking out spacing -/

/-- A text turns into another by putting in and taking out spacing, anywhere. -/
inductive Respaced : List Char → List Char → Prop
  | nil : Respaced [] []
  | keep {cs ds : List Char} (c : Char) : Respaced cs ds → Respaced (c :: cs) (c :: ds)
  | takeOut {cs ds : List Char} {c : Char} : isSpacing c = true → Respaced cs ds → Respaced (c :: cs) ds
  | putIn {cs ds : List Char} {c : Char} : isSpacing c = true → Respaced cs ds → Respaced cs (c :: ds)

theorem Respaced.filter_eq {cs ds : List Char} (h : Respaced cs ds) :
    (cs.filter fun c => !isSpacing c) = ds.filter fun c => !isSpacing c := by
  induction h with
  | nil => rfl
  | keep c _ ih => rw [List.filter_cons, List.filter_cons, ih]
  | takeOut hspacing _ ih => rw [List.filter_cons_of_neg (by simp [hspacing]), ih]
  | putIn hspacing _ ih => rw [List.filter_cons_of_neg (by simp [hspacing]), ih]

theorem respaced_of_filter_eq {cs ds : List Char}
    (h : (cs.filter fun c => !isSpacing c) = ds.filter fun c => !isSpacing c) : Respaced cs ds := by
  induction cs generalizing ds with
  | nil =>
    induction ds with
    | nil => exact .nil
    | cons d ds ih =>
      cases hspacing : isSpacing d with
      | true => exact .putIn hspacing (ih (by simpa [hspacing] using h))
      | false => simp [hspacing] at h
  | cons c cs ih =>
    cases hc : isSpacing c with
    | true => exact .takeOut hc (ih (by simpa [hc] using h))
    | false =>
      induction ds with
      | nil => simp [hc] at h
      | cons d ds ihBehind =>
        cases hd : isSpacing d with
        | true => exact .putIn hd (ihBehind (by simpa [hd] using h))
        | false =>
          obtain ⟨rfl, hrest⟩ : c = d ∧ _ := by simpa [hc, hd] using h
          exact .keep c (ih hrest)

theorem respaced_iff {cs ds : List Char} :
    Respaced cs ds ↔ (cs.filter fun c => !isSpacing c) = ds.filter fun c => !isSpacing c :=
  ⟨Respaced.filter_eq, respaced_of_filter_eq⟩

theorem Respaced.scan_eq (h : Respaced text.toList other.toList) : scan text = scan other := by
  rw [scan, h.filter_eq]
  rfl

end Token

namespace Parser

/-- Spelling out the tokens of a text takes the spacing out of it, and scanning what is left gives the same tokens. The other way round scanning gives a token list back from what it spells exactly if each of its tokens is that of a character. Texts that spell the same are parsed alike, also where they do not parse. -/
theorem scan_inverts_spell :
    (∀ text, Token.spell (Token.scan text) = String.ofList (text.toList.filter fun c => !Token.isSpacing c) ∧
      Token.scan (Token.spell (Token.scan text)) = Token.scan text) ∧
    (∀ tokens, Token.scan (Token.spell tokens) = tokens ↔ ∀ token ∈ tokens, ∃ c, Token.Elementary token c) ∧
    ∀ text other, Token.spell (Token.scan text) = Token.spell (Token.scan other) → parse text = parse other := by
  refine ⟨fun text => ⟨Token.spell_scan text, Token.scan_spell_scan text⟩, fun tokens => Token.scan_spell_eq_iff, ?_⟩
  intro text other h
  rw [parse, parse, Token.scan_eq_scan_iff.mpr h]

theorem scan_inverts_spell_unclosed :
    Token.spell (Token.scan "x 1+\t(2\n") = Token.spell (Token.scan " x1 + ( 2") ∧
      parse "x 1+\t(2\n" = parse " x1 + ( 2" ∧ parse " x1 + ( 2" = .error ⟨.unclosedBracket, Token.scan "x1+(2", 5⟩ := by
  have hspell : Token.spell (Token.scan "x 1+\t(2\n") = Token.spell (Token.scan " x1 + ( 2") := by decide
  exact ⟨hspell, scan_inverts_spell.2.2 _ _ hspell, by decide +kernel⟩

end Parser

end Reckoner
