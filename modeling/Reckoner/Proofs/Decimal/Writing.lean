import Reckoner.Decimal.Layout
import Reckoner.Proofs.Decimal.Numerals

/-!
# Positional decimals

A decimal written positionally, with or without a minus sign, is a numeral of the same value without a power of ten. If its coefficient has no zeros at its end then the numeral has none that are superfluous: there is none in front unless it is alone before the point, and none at the end behind the point.
-/

namespace Reckoner

namespace Literal

theorem digitsValue_append_zeros (digits : List Char) (n : Nat) :
    digitsValue (digits ++ List.replicate n '0') = digitsValue digits * 10 ^ n := by
  change Nat.ofDigitChars 10 _ 0 = Nat.ofDigitChars 10 _ 0 * _
  rw [Nat.ofDigitChars_append, Nat.ofDigitChars_replicate_zero, Nat.mul_comm]

theorem digitsValue_toDigits (n : Nat) : digitsValue (Nat.toDigits 10 n) = n :=
  Nat.ofDigitChars_toDigits (by decide) (by decide)

end Literal

/-- A numeral without a power of ten and without superfluous zeros or a superfluous point. -/
structure Numeral.Positional (x : Numeral) : Prop where
  power?_eq : x.power? = none
  whole_ne_nil : x.whole ≠ []
  whole_eq_of_head : x.whole.head? = some '0' → x.whole = ['0']
  fraction?_ne : x.fraction? ≠ some []
  getLast?_ne : ∀ fraction ∈ x.fraction?, fraction.getLast? ≠ some '0'

namespace Decimal

/-! ### The digits of a coefficient -/

theorem head?_toDigits {n : Nat} (hn : 0 < n) : (Nat.toDigits 10 n).head? ≠ some '0' := by
  induction n using Nat.strongRecOn with
  | _ n ih =>
    rw [Nat.toDigits_eq_if (by decide)]
    split
    · intro hhead
      have hzero := Nat.digitChar_eq_zero.mp (Option.some.inj hhead)
      omega
    · rw [List.head?_append_of_ne_nil _ Nat.toDigits_ne_nil]
      exact ih (n / 10) (by omega) (by omega)

theorem getLast?_toDigits {n : Nat} (hn : ¬10 ∣ n) : (Nat.toDigits 10 n).getLast? ≠ some '0' := by
  intro hlast
  have hchar : (Nat.toDigits 10 n).getLast? = some (n % 10).digitChar := by
    rw [Nat.toDigits_eq_if (by decide)]
    split
    · rw [Nat.mod_eq_of_lt (by assumption)]
      rfl
    · exact List.getLast?_concat
  rw [hchar] at hlast
  exact hn (Nat.dvd_of_mod_eq_zero (Nat.digitChar_eq_zero.mp (Option.some.inj hlast)))

/-! ### The digits around the point -/

variable (d : Decimal)

theorem digits_ne_nil : d.digits ≠ [] := Nat.toDigits_ne_nil

theorem isDigit_of_mem_digits : ∀ c ∈ d.digits, c.isDigit = true :=
  fun _ hc => Nat.isDigit_of_mem_toDigits (by decide) (by decide) hc

theorem digitsValue_digits : Literal.digitsValue d.digits = d.coefficient := Literal.digitsValue_toDigits d.coefficient

/-- The point stands behind the zeros that are appended, inside the digits, or before the zeros that are put in front. -/
theorem split_cases :
    (∃ n : Nat, d.exponent = n ∧ d.split = (d.digits ++ List.replicate n '0', [])) ∨
    (∃ n : Nat, 0 < n ∧ n < d.digits.length ∧ d.exponent = n - d.digits.length ∧
      d.split = (d.digits.take n, d.digits.drop n)) ∨
    ∃ n : Nat, d.exponent = -(n + d.digits.length : Nat) ∧ d.split = (['0'], List.replicate n '0' ++ d.digits) := by
  have hposition : d.pointPosition = d.digits.length + d.exponent := rfl
  obtain hwhole | hfraction := le_or_gt 0 d.exponent
  · exact .inl ⟨d.exponent.toNat, (Int.toNat_of_nonneg hwhole).symm, if_pos hwhole⟩
  · obtain hpoint | hpoint := lt_or_ge 0 d.pointPosition
    · refine .inr (.inl ⟨d.pointPosition.toNat, by omega, by omega, by omega, ?_⟩)
      rw [split, if_neg hfraction.not_ge, if_pos hpoint]
    · refine .inr (.inr ⟨(-d.pointPosition).toNat, by omega, ?_⟩)
      rw [split, if_neg hfraction.not_ge, if_neg hpoint.not_gt]

theorem split_fst_ne_nil : d.split.1 ≠ [] := by
  obtain ⟨n, -, hsplit⟩ | ⟨n, hpos, hlt, -, hsplit⟩ | ⟨n, -, hsplit⟩ := d.split_cases
  · rw [hsplit]
    exact List.append_ne_nil_of_left_ne_nil d.digits_ne_nil _
  · refine List.ne_nil_of_length_pos ?_
    rw [hsplit, List.length_take]
    omega
  · rw [hsplit]
    exact List.cons_ne_nil _ _

theorem isDigit_of_mem_split :
    (∀ c ∈ d.split.1, c.isDigit = true) ∧ (∀ c ∈ d.split.2, c.isDigit = true) := by
  have hdigits := d.isDigit_of_mem_digits
  have hzeros (n : Nat) : ∀ c ∈ List.replicate n '0', c.isDigit = true := by
    intro c hc
    rw [List.eq_of_mem_replicate hc]
    rfl
  obtain ⟨n, -, hsplit⟩ | ⟨n, -, -, -, hsplit⟩ | ⟨n, -, hsplit⟩ := d.split_cases
  · rw [hsplit]
    exact ⟨List.forall_mem_append.mpr ⟨hdigits, hzeros n⟩, by simp⟩
  · rw [hsplit]
    exact ⟨fun c hc => hdigits c (List.mem_of_mem_take hc), fun c hc => hdigits c (List.mem_of_mem_drop hc)⟩
  · rw [hsplit]
    exact ⟨by simp, List.forall_mem_append.mpr ⟨hzeros n, hdigits⟩⟩

theorem value_split :
    Decimal.value ⟨Literal.digitsValue (d.split.1 ++ d.split.2), -d.split.2.length⟩ = d.value := by
  obtain ⟨n, hexponent, hsplit⟩ | ⟨n, -, hlt, hexponent, hsplit⟩ | ⟨n, hexponent, hsplit⟩ := d.split_cases
  · rw [hsplit, List.append_nil, Literal.digitsValue_append_zeros, d.digitsValue_digits, value, value, hexponent]
    simp
  · rw [hsplit, List.take_append_drop, List.length_drop, d.digitsValue_digits]
    congr 2
    omega
  · have hzeros : Literal.digitsValue (['0'] ++ (List.replicate n '0' ++ d.digits)) = d.coefficient := by
      rw [← d.digitsValue_digits]
      change Nat.ofDigitChars 10 _ 0 = Nat.ofDigitChars 10 _ 0
      simp [Nat.ofDigitChars_append, Nat.ofDigitChars_replicate_zero, Nat.ofDigitChars_cons]
    rw [hsplit, hzeros, List.length_append, List.length_replicate, ← hexponent]

theorem split_minimal {d : Decimal} (hpos : 0 < d.coefficient) (hten : ¬10 ∣ d.coefficient) :
    (d.split.1.head? = some '0' → d.split.1 = ['0']) ∧ d.split.2.getLast? ≠ some '0' := by
  have hhead : d.digits.head? ≠ some '0' := head?_toDigits hpos
  have hlast : d.digits.getLast? ≠ some '0' := getLast?_toDigits hten
  obtain ⟨n, -, hsplit⟩ | ⟨n, hn, hlt, -, hsplit⟩ | ⟨n, -, hsplit⟩ := d.split_cases
  · rw [hsplit, List.head?_append_of_ne_nil _ d.digits_ne_nil]
    exact ⟨fun hzero => absurd hzero hhead, by simp⟩
  · rw [hsplit, List.head?_take, if_neg hn.ne', List.getLast?_drop, if_neg hlt.not_ge]
    exact ⟨fun hzero => absurd hzero hhead, hlast⟩
  · rw [hsplit, List.getLast?_append_of_ne_nil _ d.digits_ne_nil]
    exact ⟨fun _ => rfl, hlast⟩

end Decimal

/-! ### Positional decimals as numerals -/

namespace Numeral

def ofDecimal (negative : Bool) (d : Decimal) : Numeral where
  sign := if negative then .minus else .absent
  whole := d.split.1
  fraction? := if d.split.2 = [] then none else some d.split.2
  power? := none
  isDigit_of_mem_whole := d.isDigit_of_mem_split.1
  isDigit_of_mem_fraction := by
    split
    · simp
    · exact d.isDigit_of_mem_split.2
  digits_ne_nil := List.append_ne_nil_of_left_ne_nil d.split_fst_ne_nil _

variable (negative : Bool) (d : Decimal)

theorem getD_fraction?_ofDecimal : (ofDecimal negative d).fraction?.getD [] = d.split.2 := by
  simp only [ofDecimal]
  split
  · exact (by assumption : d.split.2 = []).symm
  · rfl

theorem text_ofDecimal : (ofDecimal negative d).text =
    if negative then "-" ++ d.positional false else d.positional false := by
  have hpositional : d.positional false = String.ofList (ofDecimal negative d).body := by
    by_cases hnone : d.split.2 = []
    · simp [Decimal.positional, body, ofDecimal, hnone]
    · simp [Decimal.positional, body, ofDecimal, hnone]
  rw [text, String.ofList_append, hpositional]
  cases negative <;> rfl

theorem magnitude_ofDecimal : (ofDecimal negative d).magnitude = d.value := by
  rw [← value_decimal, decimal, getD_fraction?_ofDecimal]
  exact (congrArg (fun exponent => Decimal.value ⟨_, exponent⟩) (zero_sub _)).trans d.value_split

theorem positional_ofDecimal {d : Decimal} (hpos : 0 < d.coefficient) (hten : ¬10 ∣ d.coefficient) :
    (ofDecimal negative d).Positional := by
  obtain ⟨hwhole, hfraction⟩ := Decimal.split_minimal hpos hten
  refine ⟨rfl, d.split_fst_ne_nil, hwhole, ?_, ?_⟩
  · simp only [ofDecimal]
    split
    · exact nofun
    · exact fun hnil => absurd (Option.some.inj hnil) (by assumption)
  · simp only [ofDecimal]
    split
    · exact nofun
    · intro fraction heq
      obtain rfl := Option.some.inj heq
      exact hfraction

end Numeral

end Reckoner
