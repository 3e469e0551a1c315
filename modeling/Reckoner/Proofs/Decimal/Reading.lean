import Mathlib.Data.List.TakeWhile
import Mathlib.Tactic.SplitIfs
import Reckoner.Decimal.Literal

/-!
# Literals of plain characters

Most of the literal grammar is about characters that count as others: spaces at the ends, underscores, digits of other scripts. A text without them is read as it stands. Then a sign, digits on the two sides of a point, and whatever is read as an exponent make up a decimal, for the parts of such a text tell themselves apart by their first characters.
-/

namespace Reckoner.Literal

variable {c : Char} {cs whole fraction rest : List Char}

/-! ### Texts that are read as they stand -/

/-- A character that counts as itself wherever it stands. -/
def isSolid (c : Char) : Bool := decide (c.toNat < 0x80) && c != '_' && !isPlainBlank c

theorem range_of_isDigit (hc : c.isDigit = true) : 48 ≤ c.toNat ∧ c.toNat ≤ 57 := by
  simp only [Char.isDigit, Bool.and_eq_true, decide_eq_true_eq, ge_iff_le, UInt32.le_iff_toNat_le] at hc
  exact hc

theorem isSolid_of_range (hlow : 0x21 ≤ c.toNat) (hhigh : c.toNat < 0x5f) : isSolid c = true := by
  have hunderscore : c ≠ '_' := by
    rintro rfl
    exact absurd hhigh (by decide)
  have hspace : c ≠ ' ' := by
    rintro rfl
    exact absurd hlow (by decide)
  simp [isSolid, isPlainBlank, hunderscore, hspace]
  omega

theorem isSolid_of_isDigit (hc : c.isDigit = true) : isSolid c = true := by
  have hrange := range_of_isDigit hc
  exact isSolid_of_range (by omega) (by omega)

theorem mapM_plainChar? (hcs : ∀ c ∈ cs, isSolid c = true) : cs.mapM plainChar? = some cs := by
  induction cs with
  | nil => rfl
  | cons c rest ih =>
    have hsolid := hcs c List.mem_cons_self
    simp only [isSolid, Bool.and_eq_true, decide_eq_true_eq] at hsolid
    have hplain : plainChar? c = some c := if_pos hsolid.1.1
    rw [List.mapM_cons, hplain, ih fun other hother => hcs other (List.mem_cons_of_mem c hother)]
    rfl

theorem joinDigits?_of_isSolid (hcs : ∀ c ∈ cs, isSolid c = true) (afterDigit : Bool) :
    joinDigits? afterDigit cs = some cs := by
  induction cs generalizing afterDigit with
  | nil => rfl
  | cons c rest ih =>
    have hunderscore : c ≠ '_' := by
      rintro rfl
      exact absurd (hcs '_' List.mem_cons_self) (by decide)
    rw [joinDigits?, if_neg hunderscore, ih fun other hother => hcs other (List.mem_cons_of_mem c hother)]
    rfl

theorem read?_of_isSolid (hne : cs ≠ []) (hcs : ∀ c ∈ cs, isSolid c = true) :
    read? (String.ofList cs) = ofPlain? cs := by
  have hblank : ∀ c ∈ cs, isPlainBlank c = false := by
    intro c hc
    have hsolid := hcs c hc
    simp only [isSolid, Bool.and_eq_true, Bool.not_eq_true'] at hsolid
    exact hsolid.2
  have htrim : Text.trimBy isPlainBlank ([] ++ cs ++ []) = cs :=
    Text.trimBy_append (by simp) (by simp) hne (fun c hc => hblank c (List.mem_of_mem_head? hc))
      fun c hc => hblank c (List.mem_of_mem_getLast? hc)
  rw [List.nil_append, List.append_nil] at htrim
  rw [read?, String.toList_ofList, mapM_plainChar? hcs, Option.bind_some, joinDigits?_of_isSolid hcs,
    Option.bind_some, htrim]

/-! ### Signs and words -/

theorem takeSign_of_ne (hminus : cs.head? ≠ some '-') (hplus : cs.head? ≠ some '+') : takeSign cs = (false, cs) := by
  unfold takeSign
  split
  · exact absurd rfl hminus
  · exact absurd rfl hplus
  · rfl

theorem toLower_of_lt (hc : c.toNat < 65) : c.toLower = c := by
  refine dif_neg fun hupper => ?_
  have hlow : 65 ≤ c.toNat := UInt32.le_iff_toNat_le.mp hupper.1
  omega

/-- What begins with a digit or a point is no word, so it is a number or nothing. -/
theorem ofPlain?_of_head {negative : Bool} (hsign : takeSign cs = (negative, rest)) (hhead : rest.head? = some c)
    (hc : c.toNat < 65) : ofPlain? cs = (decimal? rest).map (finite negative) := by
  have hfirst : (rest.map Char.toLower).head? = some c := by
    rw [List.head?_map, hhead, Option.map_some, toLower_of_lt hc]
  have hword : ∀ letter letters, 65 ≤ letter.toNat → rest.map Char.toLower ≠ letter :: letters := by
    intro letter letters hletter heq
    rw [heq] at hfirst
    obtain rfl := Option.some.inj hfirst
    omega
  rw [ofPlain?, hsign]
  dsimp only
  rw [if_neg, if_neg]
  · exact hword 'n' _ (by decide)
  · intro hinf
    obtain hinf | hinf := hinf
    · exact hword 'i' _ (by decide) hinf
    · exact hword 'i' _ (by decide) hinf

/-! ### Digits, a point and an exponent -/

theorem takeFraction_of_ne (hpoint : rest.head? ≠ some '.') : takeFraction rest = ([], rest) := by
  unfold takeFraction
  split
  · exact absurd rfl hpoint
  · rfl

theorem decimal?_of_head (hrest : ∀ c ∈ rest.head?, c.isDigit = false) (hpoint : rest.head? ≠ some '.') :
    decimal? rest = none := by
  cases rest with
  | nil => rfl
  | cons c more =>
    have hc : ¬c.isDigit = true := by simp [hrest c rfl]
    rw [decimal?, List.takeWhile_cons_of_neg hc, List.dropWhile_cons_of_neg hc, takeFraction_of_ne hpoint]
    exact if_pos ⟨rfl, rfl⟩

theorem decimal?_of_point (hne : whole ++ fraction ≠ []) (hwhole : ∀ c ∈ whole, c.isDigit = true)
    (hfraction : ∀ c ∈ fraction, c.isDigit = true) (hrest : ∀ c ∈ rest.head?, c.isDigit = false) :
    decimal? (whole ++ '.' :: (fraction ++ rest)) =
      (exponent? rest).map fun exponent => ⟨digitsValue (whole ++ fraction), exponent - fraction.length⟩ := by
  have hpoint : ∀ c ∈ ('.' :: (fraction ++ rest)).head?, c.isDigit = false := by
    intro c hc
    obtain rfl := Option.some.inj hc
    rfl
  obtain ⟨htake, hdrop⟩ := Text.span_append hwhole hpoint
  obtain ⟨htake', hdrop'⟩ := Text.span_append hfraction hrest
  have hnone : ¬(whole = [] ∧ fraction = []) := fun h => hne (by simp [h])
  rw [decimal?, htake, hdrop, takeFraction, htake', hdrop']
  exact if_neg hnone

theorem decimal?_of_digits (hne : whole ≠ []) (hwhole : ∀ c ∈ whole, c.isDigit = true)
    (hrest : ∀ c ∈ rest.head?, c.isDigit = false) (hpoint : rest.head? ≠ some '.') :
    decimal? (whole ++ rest) = (exponent? rest).map fun exponent => ⟨digitsValue whole, exponent⟩ := by
  obtain ⟨htake, hdrop⟩ := Text.span_append hwhole hrest
  have hnone : ¬(whole = [] ∧ ([] : List Char) = []) := fun h => hne h.1
  rw [decimal?, htake, hdrop, takeFraction_of_ne hpoint]
  dsimp only
  rw [if_neg hnone]
  simp

end Reckoner.Literal
