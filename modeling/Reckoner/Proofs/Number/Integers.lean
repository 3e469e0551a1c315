import Reckoner.Proofs.Binary.Exactness
import Reckoner.Proofs.Number.Reading
import Reckoner.Proofs.Number.Writing

/-!
# Whole numbers read and written

A whole number of at most twenty-four bits is read exactly and, if the library writes numbers shortest, written with its own digits, without a point. Its shortest decimal stands on the grid of the whole numbers or a coarser one, since the number itself is a hit there, and the interval of what rounds to it holds no other whole number. Only at the very end, where the steps get longer above, there is one more, but the number itself is nearer.
-/

namespace Reckoner

open Binary

/-! ### Digits of whole numbers -/

section

variable {c : Char} {digits : List Char}

theorem digitChar_toNat_sub (hc : c.isDigit = true) : Nat.digitChar (c.toNat - 48) = c := by
  have hrange := Literal.range_of_isDigit hc
  rw [← Char.toNat_inj, Nat.toNat_digitChar_of_lt_ten (by omega)]
  omega

theorem ofDigitChars_concat (digits : List Char) (c : Char) :
    Nat.ofDigitChars 10 (digits ++ [c]) 0 = 10 * Nat.ofDigitChars 10 digits 0 + (c.toNat - 48) := by
  rw [Nat.ofDigitChars_append]
  rfl

theorem ofDigitChars_lt (hdigits : ∀ c ∈ digits, c.isDigit = true) :
    Nat.ofDigitChars 10 digits 0 < 10 ^ digits.length := by
  induction digits using List.reverseRecOn with
  | nil => decide
  | append_singleton digits c ih =>
    obtain ⟨hinit, hlast⟩ := List.forall_mem_append.mp hdigits
    have hrange := Literal.range_of_isDigit (hlast c List.mem_cons_self)
    have hbelow := ih hinit
    rw [ofDigitChars_concat, List.length_append, List.length_singleton, Nat.pow_succ]
    omega

theorem ofDigitChars_pos (hdigits : ∀ c ∈ digits, c.isDigit = true) (hne : digits ≠ [])
    (hlast : digits.getLast? ≠ some '0') : 0 < Nat.ofDigitChars 10 digits 0 := by
  induction digits using List.reverseRecOn with
  | nil => exact absurd rfl hne
  | append_singleton digits c =>
    have hc := List.forall_mem_append.mp hdigits |>.2 c List.mem_cons_self
    have hchar := digitChar_toNat_sub hc
    rw [List.getLast?_concat] at hlast
    rw [ofDigitChars_concat]
    refine Nat.pos_of_ne_zero fun hzero => hlast ?_
    obtain hzero : c.toNat - 48 = 0 := by omega
    rw [← hchar, hzero]
    rfl

/-- Digits without superfluous zeros in front are the digits of their value. -/
theorem toDigits_ofDigitChars (hdigits : ∀ c ∈ digits, c.isDigit = true) (hne : digits ≠ [])
    (hhead : digits.head? = some '0' → digits = ['0']) : Nat.toDigits 10 (Nat.ofDigitChars 10 digits 0) = digits := by
  induction digits using List.reverseRecOn with
  | nil => exact absurd rfl hne
  | append_singleton digits c ih =>
    obtain ⟨hinit, hlast⟩ := List.forall_mem_append.mp hdigits
    have hc := hlast c List.mem_cons_self
    have hrange := Literal.range_of_isDigit hc
    have hchar : Nat.toDigits 10 (c.toNat - 48) = [c] := by
      rw [Nat.toDigits_of_lt_base (by omega), digitChar_toNat_sub hc]
    rw [ofDigitChars_concat]
    cases digits with
    | nil => rwa [Nat.ofDigitChars_nil, Nat.mul_zero, Nat.zero_add]
    | cons first rest =>
      have hfirst : first ≠ '0' := by
        rintro rfl
        exact absurd (hhead rfl) (by simp)
      have hvalue := ih hinit (List.cons_ne_nil _ _) fun hzero => absurd (Option.some.inj hzero) hfirst
      have hpos : 0 < Nat.ofDigitChars 10 (first :: rest) 0 := by
        refine Nat.pos_of_ne_zero fun hzero => hfirst ?_
        rw [hzero] at hvalue
        exact (List.cons.inj hvalue).1.symm
      rw [← Nat.toDigits_append_toDigits (by decide) hpos (by omega), hvalue, hchar]

/-- A positional numeral of a whole number has its digits and nothing else. -/
theorem Numeral.Positional.text_eq {x : Numeral} (hx : x.Positional) {n : Nat} (hmagnitude : x.magnitude = n) :
    x.text = String.ofList (x.sign.text ++ Nat.toDigits 10 n) := by
  have hexponent : x.exponent = 0 := by rw [Numeral.exponent, hx.power?_eq, Option.elim_none]
  rw [Numeral.magnitude, hexponent, zpow_zero, mul_one] at hmagnitude
  rw [Numeral.text, Numeral.body, hx.power?_eq, Option.elim_none, List.append_nil]
  cases hfraction : x.fraction? with
  | none =>
    rw [hfraction, Option.getD_none] at hmagnitude
    obtain rfl : Nat.ofDigitChars 10 x.whole 0 = n := by
      rw [← Nat.cast_inj (R := ℚ), ← hmagnitude]
      simp
    rw [Option.elim_none, List.append_nil,
      toDigits_ofDigitChars x.isDigit_of_mem_whole hx.whole_ne_nil hx.whole_eq_of_head]
  | some fraction =>
    have hdigits := x.isDigit_of_mem_fraction
    have hlast := hx.getLast?_ne fraction hfraction
    rw [hfraction, Option.getD_some] at hmagnitude hdigits
    have hne : fraction ≠ [] := by
      rintro rfl
      exact hx.fraction?_ne hfraction
    have hpos := ofDigitChars_pos hdigits hne hlast
    have hlt := ofDigitChars_lt hdigits
    have hten : (10 ^ fraction.length : ℚ) ≠ 0 := by positivity
    have hwhole : Nat.ofDigitChars 10 x.whole 0 * 10 ^ fraction.length + Nat.ofDigitChars 10 fraction 0 =
        n * 10 ^ fraction.length := by
      rw [← Nat.cast_inj (R := ℚ)]
      push_cast
      rw [← hmagnitude, add_mul, div_mul_cancel₀ _ hten]
    have hdvd : 10 ^ fraction.length ∣ Nat.ofDigitChars 10 fraction 0 :=
      (Nat.dvd_add_right (Nat.dvd_mul_left ..)).mp (hwhole ▸ Nat.dvd_mul_left ..)
    exact absurd (Nat.le_of_dvd hpos hdvd) hlt.not_ge

end

namespace Decimal

variable {f : Format} {rank n : Nat}

/-! ### Shortest decimals of whole numbers -/

/-- Below the whole numbers of one bit more than the format has, the steps are at most one. -/
theorem two_pow_exponent_le (hsmall : f.units rank < 2 * f.binade * f.one) : 2 ^ f.exponent rank ≤ f.one := by
  apply Nat.pow_le_pow_right Nat.two_pos
  obtain hzero | hsignificand := f.binade_le_significand rank
  · omega
  · have hlt : f.binade * 2 ^ f.exponent rank < f.binade * 2 ^ (f.scale + 1) :=
      calc f.binade * 2 ^ f.exponent rank ≤ f.significand rank * 2 ^ f.exponent rank :=
            Nat.mul_le_mul_right _ hsignificand
        _ = f.units rank := (f.units_eq rank).symm
        _ < 2 * f.binade * f.one := hsmall
        _ = f.binade * 2 ^ (f.scale + 1) := by
          simp only [Format.one, Nat.pow_eq]
          ring
    have hpower := (Nat.pow_lt_pow_iff_right (by decide)).mp (Nat.lt_of_mul_lt_mul_left hlt)
    omega

theorem exponent_shortest_nonneg (hrank : 0 < rank) (hunits : f.units rank = n * f.one) :
    0 ≤ (shortest f rank).exponent := by
  apply exponent_le_shortest hrank (n := n)
  rw [zpow_zero, mul_one]
  exact_mod_cast hunits ▸ f.nearest_units rank

theorem value_shortest_of_lt (hrank : 0 < rank) (hunits : f.units rank = n * f.one) (hsmall : n < 2 * f.binade) :
    (shortest f rank).value = n := by
  obtain ⟨power, hpower⟩ := Int.eq_ofNat_of_zero_le (exponent_shortest_nonneg hrank hunits)
  have hone : (0 : ℚ) < f.one := by exact_mod_cast f.one_pos
  have hstep : (2 ^ f.exponent rank : ℚ) ≤ f.one := by
    exact_mod_cast two_pow_exponent_le (hunits ▸ Nat.mul_lt_mul_of_pos_right hsmall f.one_pos)
  have hvalue : (shortest f rank).value = ((shortest f rank).coefficient * 10 ^ power : Nat) := by
    rw [Decimal.value, hpower]
    push_cast
    rfl
  have hclose := (shortest_spec f hrank).1.abs_le
  rw [hvalue, hunits] at hclose
  rw [hvalue]
  generalize (shortest f rank).coefficient * 10 ^ power = whole at hclose ⊢
  have hhalf : 2 * |(whole : ℚ) - n| ≤ 1 := by
    refine le_of_mul_le_mul_right ?_ hone
    rw [mul_assoc, ← abs_of_pos hone, ← abs_mul, abs_of_pos hone, sub_mul, one_mul]
    exact_mod_cast hclose.trans hstep
  have hdistance : 2 * |(whole : Int) - n| ≤ 1 := by exact_mod_cast hhalf
  have hsame : (whole : Int) - n = 0 := Int.abs_lt_one_iff.mp (by omega)
  exact_mod_cast sub_eq_zero.mp hsame

/-- At the last whole number whose neighbours are all whole numbers of the format, the steps above are longer already. -/
theorem shortest_twoPow : Format.single.units 1266679808 = 2 ^ 24 * Format.single.one ∧
    shortest .single 1266679808 = ⟨16777216, 0⟩ := by
  decide +kernel

theorem value_shortest (hunits : Format.single.units rank = n * Format.single.one) (hn : n ≤ 2 ^ 24) :
    (shortest .single rank).value = n := by
  obtain hlt | rfl := hn.lt_or_eq
  · obtain rfl | hrank := Nat.eq_zero_or_pos rank
    · rw [Format.units_zero, eq_comm, Nat.mul_eq_zero, or_iff_left Format.single.one_pos.ne'] at hunits
      simp [hunits, shortest, Decimal.value]
    · exact value_shortest_of_lt hrank hunits hlt
  · obtain ⟨hlast, hshortest⟩ := shortest_twoPow
    obtain rfl := Format.single.units_strictMono.injective (hunits.trans hlast.symm)
    rw [hshortest]
    norm_num [Decimal.value]

/-- Every shortest number of the rank of a whole number is that number. -/
theorem IsShortest.eq_natCast {count : Nat} {y : ℚ} (hshortest : IsShortest .single rank count y)
    (hunits : Format.single.units rank = n * Format.single.one) (hn : n ≤ 2 ^ 24) : y = n := by
  obtain ⟨other, hfound⟩ := exists_isShortest rank
  have hdistance := hshortest.abs_le hfound
  have hone : (Format.single.one : ℚ) ≠ 0 := by exact_mod_cast Format.single.one_pos.ne'
  rw [value_shortest hunits hn, hunits, Nat.cast_mul, mul_div_cancel_right₀ _ hone, sub_self, abs_zero] at hdistance
  exact sub_eq_zero.mp (abs_nonpos_iff.mp hdistance)

end Decimal

namespace Number

variable {x : Number} {n : Int}

/-- The whole numbers up to which every whole number is a number of the format. -/
def wholeBound : Nat := 2 ^ 24

theorem intCast_mem_values (hn : n.natAbs ≤ wholeBound) : ((n : ℚ) : Extended) ∈ values .single :=
  Binary.intCast_mem_values (by decide +kernel) hn

theorem intCast_mem_values_double (hn : n.natAbs ≤ wholeBound) : ((n : ℚ) : Extended) ∈ values .double :=
  Binary.intCast_mem_values (by decide +kernel) (hn.trans (by decide))

theorem readValue?_of_digits {digits : List Char} (hne : digits ≠ []) (hdigits : ∀ c ∈ digits, c.isDigit = true)
    (hsmall : Nat.ofDigitChars 10 digits 0 ≤ wholeBound) :
    readValue? (String.ofList digits) = some ((Nat.ofDigitChars 10 digits 0 : ℚ) : Extended) := by
  let x : Numeral := ⟨.absent, digits, none, none, hdigits, by simp, by simpa using hne⟩
  have hvalue : x.value = Nat.ofDigitChars 10 digits 0 := by
    simp [x, Numeral.value, Numeral.magnitude, Numeral.exponent, Numeral.Sign.isMinus]
  have htext : x.text = String.ofList digits := by simp [x, Numeral.text, Numeral.body, Numeral.Sign.text]
  have hmem : (x.value : Extended) ∈ values .single := by
    rw [hvalue]
    exact_mod_cast intCast_mem_values (n := Nat.ofDigitChars 10 digits 0) hsmall
  rw [← htext, ← hvalue]
  exact readValue?_of_mem hmem

theorem toString_neg {m : Nat} (hm : 0 < m) : toString (-(m : Int)) = String.ofList ('-' :: Nat.toDigits 10 m) := by
  obtain ⟨less, rfl⟩ := Nat.exists_eq_succ_of_ne_zero hm.ne'
  rw [← List.singleton_append, String.ofList_append]
  rfl

/-- The sign of a whole number is that of the rank that has its value. -/
theorem exists_units_eq {f : Format} {negative : Bool} {rank : Nat} (hunits : signedUnits f negative rank = n * f.one) :
    ∃ m : Nat, n = (if negative then -(m : Int) else m) ∧ f.units rank = m * f.one := by
  have hone : (0 : Int) < f.one := Int.natCast_pos.mpr f.one_pos
  have hnonneg := Int.natCast_nonneg (f.units rank)
  cases negative with
  | false =>
    have hunits : (f.units rank : Int) = n * f.one := hunits
    obtain ⟨m, rfl⟩ := Int.eq_ofNat_of_zero_le (nonneg_of_mul_nonneg_left (hunits ▸ hnonneg) hone)
    exact ⟨m, rfl, by exact_mod_cast hunits⟩
  | true =>
    have hunits : (f.units rank : Int) = -n * f.one := by
      rw [neg_mul, ← hunits]
      exact (neg_neg _).symm
    obtain ⟨m, hm⟩ := Int.eq_ofNat_of_zero_le (nonneg_of_mul_nonneg_left (hunits ▸ hnonneg) hone)
    rw [hm] at hunits
    exact ⟨m, neg_eq_iff_eq_neg.mp hm, by exact_mod_cast hunits⟩

/-- A small whole number is written with its own digits. Zero keeps its sign. -/
theorem write_of_value? [Library] (hwrites : Library.WritesShortest) (hvalue : x.value? = some ((n : ℚ) : Extended))
    (hsmall : n.natAbs ≤ wholeBound) :
    (n ≠ 0 → x.write = toString n) ∧ (n = 0 → x.write = "0" ∨ x.write = "-0") := by
  have hone : (Format.single.one : ℚ) ≠ 0 := by exact_mod_cast Format.single.one_pos.ne'
  obtain ⟨negative, rank, hfinite, rfl, hplace⟩ := value?_eq_some_iff.mp hvalue
  rw [div_eq_iff hone] at hplace
  obtain ⟨m, rfl, hunits⟩ := exists_units_eq (n := n) (by exact_mod_cast hplace)
  have hbound : m ≤ 2 ^ 24 := by cases negative <;> simpa [wholeBound] using hsmall
  obtain ⟨numeral, count, hwrite, hpositional, hsign, hshortest⟩ := hwrites negative rank hfinite
  rw [write_signed negative hfinite, hwrite, hpositional.text_eq (hshortest.eq_natCast hunits hbound), hsign]
  obtain rfl | hpos := Nat.eq_zero_or_pos m
  · refine ⟨fun hne => absurd (by simp) hne, fun _ => ?_⟩
    cases negative with
    | false => exact .inl rfl
    | true => exact .inr rfl
  · cases negative with
    | false => exact ⟨fun _ => rfl, fun hzero => absurd (show (m : Int) = 0 from hzero) (by omega)⟩
    | true => exact ⟨fun _ => (toString_neg hpos).symm, fun hzero => absurd (show -(m : Int) = 0 from hzero) (by omega)⟩

end Number

end Reckoner
