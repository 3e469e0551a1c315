import Reckoner.Proofs.Decimal.Reading

/-!
# Words that are numbers

Of the words of ASCII letters and digits only a few kinds are literals. There can be no sign, no point and no underscore in a word, so what is left of the literal grammar is digits with an exponent of digits, and the names of infinity and of no number.
-/

namespace Reckoner.Literal

/-- Digits with or without an exponent of digits, and the three names in any case of letters. -/
inductive NumberWord : List Char → Prop
  | whole {digits : List Char} : digits ≠ [] → (∀ c ∈ digits, c.isDigit = true) → NumberWord digits
  | scaled {digits power : List Char} {letter : Char} : digits ≠ [] → (∀ c ∈ digits, c.isDigit = true) →
    letter = 'e' ∨ letter = 'E' → power ≠ [] → (∀ c ∈ power, c.isDigit = true) →
    NumberWord (digits ++ letter :: power)
  | named {cs : List Char} : cs.map Char.toLower ∈ ["inf".toList, "infinity".toList, "nan".toList] → NumberWord cs

variable {c : Char} {cs rest : List Char}

theorem isSolid_of_isAlphanum (hc : c.isAlphanum = true) : isSolid c = true := by
  have hrange := Text.range_of_isAlphanum hc
  have hunderscore : c ≠ '_' := by
    rintro rfl
    cases hc
  have hspace : c ≠ ' ' := by
    rintro rfl
    cases hc
  simp [isSolid, isPlainBlank, hunderscore, hspace]
  omega

theorem head?_ne_of_isAlphanum (hcs : ∀ c ∈ cs, c.isAlphanum = true) {mark : Char} (hmark : mark.isAlphanum = false) :
    cs.head? ≠ some mark := by
  intro hhead
  rw [hcs mark (List.mem_of_mem_head? hhead)] at hmark
  cases hmark

theorem takeSign_of_isAlphanum (hcs : ∀ c ∈ cs, c.isAlphanum = true) : takeSign cs = (false, cs) :=
  takeSign_of_ne (head?_ne_of_isAlphanum hcs rfl) (head?_ne_of_isAlphanum hcs rfl)

theorem isSome_exponent?_cons (hrest : ∀ c ∈ rest, c.isAlphanum = true) :
    (exponent? (c :: rest)).isSome ↔ (c = 'e' ∨ c = 'E') ∧ rest ≠ [] ∧ ∀ c ∈ rest, c.isDigit = true := by
  rw [exponent?, takeSign_of_isAlphanum hrest]
  dsimp only
  rw [Option.isSome_ite, List.all_eq_true]

theorem exists_leading_digits (hcs : ∀ c ∈ cs, c.isAlphanum = true) : ∃ digits rest, cs = digits ++ rest ∧
    (∀ c ∈ digits, c.isDigit = true) ∧ (∀ c ∈ rest, c.isAlphanum = true) ∧ ∀ c ∈ rest.head?, c.isDigit = false := by
  refine ⟨cs.takeWhile Char.isDigit, cs.dropWhile Char.isDigit, List.takeWhile_append_dropWhile.symm, ?_, ?_, ?_⟩
  · exact fun c hc => List.all_eq_true.mp List.all_takeWhile c hc
  · exact fun c hc => hcs c ((List.dropWhile_suffix _).subset hc)
  · intro c hc
    have hnot := List.head?_dropWhile_not Char.isDigit cs
    rw [Option.mem_def.mp hc] at hnot
    exact hnot

theorem isSome_decimal?_append (hne : cs ≠ []) (hdigits : ∀ c ∈ cs, c.isDigit = true)
    (hrest : ∀ c ∈ rest, c.isAlphanum = true) (hnext : ∀ c ∈ rest.head?, c.isDigit = false) :
    (decimal? (cs ++ rest)).isSome ↔ (exponent? rest).isSome := by
  have hpoint : rest.head? ≠ some '.' := head?_ne_of_isAlphanum hrest rfl
  rw [decimal?_of_digits hne hdigits hnext hpoint, Option.isSome_map]

theorem numberWord_of_decimal? (hcs : ∀ c ∈ cs, c.isAlphanum = true) (hsome : (decimal? cs).isSome) :
    NumberWord cs := by
  obtain ⟨digits, rest, rfl, hdigits, hrest, hnext⟩ := exists_leading_digits hcs
  have hne : digits ≠ [] := by
    rintro rfl
    rw [List.nil_append, decimal?_of_head hnext (head?_ne_of_isAlphanum hrest rfl)] at hsome
    cases hsome
  rw [isSome_decimal?_append hne hdigits hrest hnext] at hsome
  cases rest with
  | nil =>
    rw [List.append_nil]
    exact .whole hne hdigits
  | cons letter power =>
    have hpower : ∀ c ∈ power, c.isAlphanum = true := fun c hc => hrest c (List.mem_cons_of_mem letter hc)
    obtain ⟨hletter, hpowerNe, hpowerDigits⟩ := (isSome_exponent?_cons hpower).mp hsome
    exact .scaled hne hdigits hletter hpowerNe hpowerDigits

theorem isAlphanum_of_isDigit (hc : c.isDigit = true) : c.isAlphanum = true := by simp [Char.isAlphanum, hc]

/-- A word is a literal exactly if it is digits with or without an exponent of digits, or one of the names. -/
theorem isSome_ofPlain?_iff (hcs : ∀ c ∈ cs, c.isAlphanum = true) : (ofPlain? cs).isSome ↔ NumberWord cs := by
  rw [ofPlain?, takeSign_of_isAlphanum hcs]
  dsimp only
  by_cases hinfinite : cs.map Char.toLower = "inf".toList ∨ cs.map Char.toLower = "infinity".toList
  · rw [if_pos hinfinite]
    refine ⟨fun _ => .named ?_, fun _ => rfl⟩
    rcases hinfinite with h | h
    · exact h ▸ List.mem_cons_self
    · exact h ▸ List.mem_cons_of_mem _ List.mem_cons_self
  by_cases hnan : cs.map Char.toLower = "nan".toList
  · rw [if_neg hinfinite, if_pos hnan]
    exact ⟨fun _ => .named (hnan ▸ List.mem_cons_of_mem _ (List.mem_cons_of_mem _ List.mem_cons_self)), fun _ => rfl⟩
  rw [if_neg hinfinite, if_neg hnan, Option.isSome_map]
  refine ⟨numberWord_of_decimal? hcs, fun hword => ?_⟩
  cases hword with
  | whole hne hdigits =>
    have hsome : (decimal? (cs ++ [])).isSome := (isSome_decimal?_append hne hdigits (by simp) (by simp)).mpr rfl
    rwa [List.append_nil] at hsome
  | @scaled digits power letter hne hdigits hletter hpowerNe hpower =>
    have hpowerWord : ∀ c ∈ power, c.isAlphanum = true := fun c hc => isAlphanum_of_isDigit (hpower c hc)
    have hrest : ∀ c ∈ letter :: power, c.isAlphanum = true := fun c hc => hcs c (List.mem_append_right digits hc)
    have hnext : ∀ c ∈ (letter :: power).head?, c.isDigit = false := by
      intro c hc
      obtain rfl := Option.some.inj hc
      rcases hletter with rfl | rfl <;> rfl
    rw [isSome_decimal?_append hne hdigits hrest hnext, isSome_exponent?_cons hpowerWord]
    exact ⟨hletter, hpowerNe, hpower⟩
  | named hname =>
    simp only [List.mem_cons, List.not_mem_nil, or_false, ← or_assoc] at hname
    exact absurd (hname.resolve_left hinfinite) hnan

end Reckoner.Literal
