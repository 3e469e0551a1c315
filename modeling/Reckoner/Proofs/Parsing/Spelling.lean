import Reckoner.Proofs.Parsing.Derivation
import Reckoner.Proofs.Parsing.Infix

/-!
# The trees of texts

The trees that texts parse to are spellable: their atoms are words and their operators have powers. A fact of this kind is the same at every level of the grammar and for every operator, so it is proved by `Derives.uniform`, an induction with three cases in place of twelve.
-/

namespace Reckoner

namespace Token

theorem isSpacing_of_isAlphanum {c : Char} (halphanum : c.isAlphanum = true) : isSpacing c = false := by
  rw [Bool.eq_false_iff]
  intro hspacing
  simp only [isSpacing, Bool.or_eq_true, beq_iff_eq] at hspacing
  rcases hspacing with (((rfl | rfl) | rfl) | rfl) | rfl <;> exact absurd halphanum (by decide)

theorem scan_append (front back : String) : scan (front ++ back) = scan front ++ scan back := by
  simp [scan]

theorem scan_of_isAlphanum {word : String} (hword : ∀ c ∈ word.toList, c.isAlphanum = true) :
    scan word = word.toList.map ofChar := by
  rw [scan, List.filter_eq_self.mpr fun c hc => by simp [isSpacing_of_isAlphanum (hword c hc)]]

theorem ofChar_injective {c d : Char} (h : ofChar c = ofChar d) : c = d := by
  have hlexeme : String.singleton c = String.singleton d := congrArg lexeme h
  simpa using congrArg String.toList hlexeme

theorem kind_ofChar_eq_atom_iff {c : Char} : (ofChar c).kind = .atom ↔ c.isAlphanum = true := by
  simp [ofChar]

theorem spell_ne_empty {run : List Token} (hne : run ≠ []) (hlexemes : ∀ token ∈ run, token.lexeme ≠ "") :
    spell run ≠ "" := by
  obtain ⟨first, more, rfl⟩ := List.exists_cons_of_ne_nil hne
  intro hempty
  have hchars : (spell (first :: more)).toList = [] := by rw [hempty]; rfl
  rw [toList_spell, List.flatMap_cons, List.append_eq_nil_iff] at hchars
  exact hlexemes first List.mem_cons_self (String.toList_eq_nil_iff.mp hchars.1)

theorem forall_mem_spell {run : List Token} {p : Char → Prop} (h : ∀ token ∈ run, ∀ c ∈ token.lexeme.toList, p c) :
    ∀ c ∈ (spell run).toList, p c := by
  intro c hc
  rw [toList_spell] at hc
  obtain ⟨token, htoken, hmem⟩ := List.mem_flatMap.mp hc
  exact h token htoken c hmem

end Token

namespace Grammar

/-- A relation between token lists and trees that holds of atoms, and is kept by brackets and by every operator with powers, holds of all that is derived. -/
theorem Derives.uniform {motive : List Token → Expr → Prop}
    (atoms : ∀ run, run ≠ [] → (∀ token ∈ run, token.kind = .atom) → motive run (.atom (Token.spell run)))
    (bracket : ∀ inner tree, motive inner tree → motive (Token.opening :: inner ++ [Token.closing]) tree)
    (operation : ∀ operator front back left right, (Binding.of? operator).isSome → motive front left →
      motive back right → motive (front ++ ⟨.operator, operator⟩ :: back) (.operation operator left right))
    {level : Level} {tokens : List Token} {tree : Expr} (h : Derives level tokens tree) : motive tokens tree := by
  induction h with
  | ofSum _ ih => exact ih
  | ofProduct _ ih => exact ih
  | ofPower _ ih => exact ih
  | ofPoint _ ih => exact ih
  | ofOperand _ ih => exact ih
  | assign _ _ ihLeft ihRight => exact operation _ _ _ _ _ (by decide) ihLeft ihRight
  | add hsign _ _ ihLeft ihRight =>
    exact operation _ _ _ _ _ (by rcases hsign with rfl | rfl <;> decide) ihLeft ihRight
  | multiply hsign _ _ ihLeft ihRight =>
    exact operation _ _ _ _ _ (by rcases hsign with rfl | rfl <;> decide) ihLeft ihRight
  | raise hsign _ _ ihLeft ihRight =>
    exact operation _ _ _ _ _ (by rcases hsign with rfl | rfl <;> decide) ihLeft ihRight
  | join _ _ ihLeft ihRight => exact operation _ _ _ _ _ (by decide) ihLeft ihRight
  | atoms hne hatoms => exact atoms _ hne hatoms
  | bracket _ ih => exact bracket _ _ ih

/-- The atom tokens are words of ASCII letters and digits. -/
def Worded (tokens : List Token) : Prop :=
  ∀ token ∈ tokens, token.kind = .atom → token.lexeme ≠ "" ∧ ∀ c ∈ token.lexeme.toList, c.isAlphanum = true

theorem Derives.spellable {level : Level} {tokens : List Token} {tree : Expr} (h : Derives level tokens tree) :
    Worded tokens → tree.Spellable := by
  refine h.uniform (motive := fun tokens tree => Worded tokens → tree.Spellable) ?_ ?_ ?_
  · intro run hne hatoms hworded
    have hwords (token : Token) (htoken : token ∈ run) := hworded token htoken (hatoms token htoken)
    exact ⟨Token.spell_ne_empty hne fun token htoken => (hwords token htoken).1,
      Token.forall_mem_spell fun token htoken => (hwords token htoken).2⟩
  · intro inner tree ih hworded
    exact ih fun token htoken => hworded token (by simp [htoken])
  · intro operator front back left right hknown ihLeft ihRight hworded
    exact ⟨hknown, ihLeft fun token htoken => hworded token (by simp [htoken]),
      ihRight fun token htoken => hworded token (by simp [htoken])⟩

end Grammar

namespace Parser

open Grammar

theorem worded_scan (text : String) : Worded (Token.scan text) := by
  intro token htoken hkind
  obtain ⟨c, -, rfl⟩ := List.mem_map.mp htoken
  simpa [Token.ofChar] using Token.kind_ofChar_eq_atom_iff.mp hkind

theorem spellable_of_parse {text : String} {tree : Expr} {rest : List Token}
    (h : parse text = .ok ⟨tree, rest⟩) : tree.Spellable := by
  obtain ⟨front, hsplit⟩ := parsePrefix_zero_eq_ok_iff.mp (parseTokens_eq_ok_iff.mp h)
  refine hsplit.derives.spellable fun token htoken => worded_scan text token ?_
  rw [hsplit.append]
  exact List.mem_append_left rest htoken

theorem parse_of_word {text word : String} (hne : word ≠ "") (hword : ∀ c ∈ word.toList, c.isAlphanum = true)
    (htext : text.toList.filter (fun c => !Token.isSpacing c) = word.toList) : parse text = .ok ⟨.atom word, []⟩ := by
  have hspellable : (Expr.atom word).Spellable := ⟨hne, hword⟩
  have hderives : Derives .assignment (word.toList.map Token.ofChar) (.atom word) :=
    (derives_of_written (.atom word) hspellable).loosen (Nat.zero_le _)
  rw [parse, Token.scan, htext]
  exact parseTokens_of_derives hderives

end Parser

end Reckoner
