import Mathlib.Data.Nat.Log
import Reckoner.Proofs.Decimal.Minimality

/-!
# Shortest decimals have the fewest digits

A decimal with fewer digits than the shortest one, or with as many on a finer grid, is below the power of ten at which the shortest one begins. That power is then between two numbers that round to the rank, so it rounds to the rank as well, and it is a multiple of the next larger power of ten, which misses the rank. Only a shortest decimal of one digit escapes this, since the power of ten is then on its own grid. It is nearer all the same, but for ranks below ten that takes a look at each of them.
-/

namespace Reckoner.Decimal

open Binary

variable {f : Format} {rank : Nat} {x : ℚ}

/-- A number of at most so many digits, not counting the zeros in front of them and behind them. -/
def HasDigits (count : Nat) (x : ℚ) : Prop :=
  ∃ (n : Nat) (exponent : Int), n < 10 ^ count ∧ x = n * 10 ^ exponent

theorem HasDigits.nonneg {count : Nat} (hdigits : HasDigits count x) : 0 ≤ x := by
  obtain ⟨n, exponent, -, rfl⟩ := hdigits
  positivity

/-- What rounds to a rank with so many digits that no number of fewer digits does, and none of as many digits that does is nearer to the value. -/
structure IsShortest (f : Format) (rank count : Nat) (x : ℚ) : Prop where
  hasDigits : HasDigits count x
  roundsTo : f.RoundsTo x rank
  fewest : ∀ other y, HasDigits other y → f.RoundsTo y rank → count ≤ other
  nearest : ∀ y, HasDigits count y → f.RoundsTo y rank →
    |x - f.units rank / f.one| ≤ |y - f.units rank / f.one|

/-- What rounds to a rank goes below the leading power of ten of the shortest decimal only if that has one digit. -/
theorem eq_zero_of_le_leading (hrank : 0 < rank) {lead : Nat} (hlead : 10 ^ lead ≤ (shortest f rank).coefficient)
    (hx : f.Nearest (x * f.one) rank) (hle : x ≤ 10 ^ lead * 10 ^ (shortest f rank).exponent) : lead = 0 := by
  cases lead with
  | zero => rfl
  | succ less =>
    have hcoefficient : (10 ^ (less + 1) : ℚ) ≤ (shortest f rank).coefficient := by exact_mod_cast hlead
    have hpower : (10 ^ (less + 1) * 10 ^ (shortest f rank).exponent : ℚ) =
        (10 ^ less : Nat) * 10 ^ ((shortest f rank).exponent + 1) := by
      rw [zpow_add_one₀ (by norm_num)]
      push_cast
      ring
    refine absurd (hx.of_between (shortest_spec f hrank).1 ?_ ?_) (not_nearest_next_grid hrank (10 ^ less))
    · rw [← hpower]
      gcongr
    · rw [← hpower, Decimal.value]
      gcongr

theorem lt_ten_of_tenth {tenth : ℚ} (hbinade : 10 ≤ f.binade) (hx : f.Nearest x rank) (hle : x ≤ 9 * tenth)
    (hpower : f.Nearest (10 * tenth) rank) (hlt : f.units rank < 10 * tenth) : rank < 10 := by
  have hxClose := abs_le.mp (show |x - f.units rank| ≤ 2 ^ f.exponent rank / 2 by linarith [hx.abs_le])
  have hpowerClose := abs_le.mp (show |10 * tenth - f.units rank| ≤ 2 ^ f.exponent rank / 2 by linarith [hpower.abs_le])
  have hstep : (0 : ℚ) < 2 ^ f.exponent rank := by positivity
  have hunits : (f.units rank : ℚ) = f.significand rank * 2 ^ f.exponent rank := by exact_mod_cast f.units_eq rank
  have hsignificand : (f.significand rank : ℚ) < 10 := by
    refine lt_of_mul_lt_mul_right ?_ hstep.le
    rw [← hunits]
    linarith
  have hsmall : f.significand rank < 10 := by exact_mod_cast hsignificand
  have hsplit := f.exponent_mul_add_significand rank
  obtain hzero | hge := f.binade_le_significand rank
  · rw [hzero, Nat.zero_mul, Nat.zero_add] at hsplit
    omega
  · omega

/-! ### Shortest decimals of one digit -/

theorem exponent_shortest_of_lt_ten : ∀ rank < 10, 0 < rank → (shortest .single rank).exponent = -45 ∨
    rank = 7 ∧ (shortest .single rank).exponent = -44 := by
  decide +kernel

variable {d : Decimal}

theorem power_le_units (hrank : 0 < rank) (hd : shortest .single rank = d)
    (hx : Format.single.Nearest (x * Format.single.one) rank) (hle : x ≤ 9 * 10 ^ (d.exponent - 1))
    (hpower : Format.single.Nearest (10 ^ d.exponent * Format.single.one) rank) :
    (10 ^ d.exponent * Format.single.one : ℚ) ≤ Format.single.units rank := by
  by_contra hlt
  have hone : (Format.single.one : ℚ) = 2 ^ 149 := by norm_num [Format.one, Format.single]
  have hgrid : (10 ^ d.exponent * Format.single.one : ℚ) = 10 * (10 ^ (d.exponent - 1) * Format.single.one) := by
    rw [zpow_sub_one₀ (by norm_num)]
    ring
  have hxTenth : x * Format.single.one ≤ 9 * (10 ^ (d.exponent - 1) * Format.single.one) := by
    rw [← mul_assoc]
    exact mul_le_mul_of_nonneg_right hle (Nat.cast_nonneg _)
  rw [hgrid] at hpower hlt
  have hsmall : rank < 10 := lt_ten_of_tenth (by decide) hx hxTenth hpower (not_le.mp hlt)
  rw [hone] at hlt hxTenth
  obtain hexponent | ⟨rfl, hexponent⟩ := exponent_shortest_of_lt_ten rank hsmall hrank
  · have hunits : (1 : ℚ) ≤ Format.single.units rank := by
      exact_mod_cast Format.units_pos (f := .single) hrank
    rw [← hd, hexponent] at hlt
    norm_num at hlt
    linarith
  · have hlow := hx.low
    have hunits : Format.single.units 6 = 6 ∧ Format.single.units 7 = 7 := by decide +kernel
    rw [← hd, hexponent] at hxTenth
    rw [hone] at hlow
    norm_num [hunits] at hlow hxTenth
    linarith

/-- What rounds to a rank below the power of ten of its shortest decimal is no nearer to it. -/
theorem abs_le_of_le_tenth (hrank : 0 < rank) (hd : shortest .single rank = d)
    (hx : Format.single.Nearest (x * Format.single.one) rank) (hle : x ≤ 9 * 10 ^ (d.exponent - 1)) :
    |d.value * Format.single.one - Format.single.units rank| ≤ |x * Format.single.one - Format.single.units rank| := by
  obtain ⟨hnearest, hclosest⟩ := shortest_spec .single hrank
  have hcoefficient := coefficient_shortest_pos (f := .single) hrank
  rw [hd] at hnearest hclosest hcoefficient
  have hxPower : x ≤ 10 ^ d.exponent := by
    have htenth : (0 : ℚ) < 10 ^ (d.exponent - 1) := by positivity
    rw [← sub_add_cancel d.exponent 1, zpow_add_one₀ (by norm_num)]
    linarith
  have hpowerValue : (10 ^ d.exponent : ℚ) ≤ d.value := by
    have hcast : (1 : ℚ) ≤ d.coefficient := by exact_mod_cast hcoefficient
    exact le_mul_of_one_le_left (by positivity) hcast
  have hxScaled := mul_le_mul_of_nonneg_right hxPower (Nat.cast_nonneg (α := ℚ) Format.single.one)
  have hpower : Format.single.Nearest (10 ^ d.exponent * Format.single.one) rank :=
    hx.of_between hnearest hxScaled (mul_le_mul_of_nonneg_right hpowerValue (Nat.cast_nonneg _))
  have hbelow := power_le_units hrank hd hx hle hpower
  have hstep := hclosest 1 (by rwa [Nat.cast_one, one_mul])
  rw [Nat.cast_one, one_mul] at hstep
  refine hstep.trans ?_
  rw [abs_of_nonpos (by linarith), abs_of_nonpos (by linarith)]
  linarith

/-! ### Fewest digits, and nearest among those -/

theorem eq_zero_of_few (hrank : 0 < rank) {lead n other : Nat} {exponent : Int}
    (hlead : 10 ^ lead ≤ (shortest f rank).coefficient) (hx : f.Nearest (n * 10 ^ exponent * f.one) rank)
    (hn : n < 10 ^ other) (hfew : other + exponent ≤ lead + (shortest f rank).exponent) : lead = 0 := by
  refine eq_zero_of_le_leading hrank hlead hx ?_
  have hcast : (n : ℚ) ≤ 10 ^ other := by exact_mod_cast hn.le
  calc (n * 10 ^ exponent : ℚ) ≤ 10 ^ other * 10 ^ exponent := by gcongr
    _ = 10 ^ (other + exponent) := by rw [zpow_add₀ (by norm_num), zpow_natCast]
    _ ≤ 10 ^ (lead + (shortest f rank).exponent) := zpow_le_zpow_right₀ (by norm_num) hfew
    _ = 10 ^ lead * 10 ^ (shortest f rank).exponent := by rw [zpow_add₀ (by norm_num), zpow_natCast]

theorem exists_fewest (hrank : 0 < rank) : ∃ count, HasDigits count (shortest .single rank).value ∧
    ∀ other x, HasDigits other x → Format.single.Nearest (x * Format.single.one) rank → count ≤ other ∧
      (other = count → |(shortest .single rank).value * Format.single.one - Format.single.units rank| ≤
        |x * Format.single.one - Format.single.units rank|) := by
  have hcoefficient := coefficient_shortest_pos (f := .single) hrank
  have hlead := Nat.pow_log_le_self 10 hcoefficient.ne'
  have hcount := Nat.lt_pow_succ_log_self (by decide : 1 < 10) (shortest .single rank).coefficient
  generalize Nat.log 10 (shortest .single rank).coefficient = lead at hlead hcount
  refine ⟨lead + 1, ⟨_, _, hcount, rfl⟩, fun other x hdigits hx => ?_⟩
  obtain ⟨n, exponent, hn, rfl⟩ := hdigits
  have hexponent := exponent_le_shortest hrank hx
  have hpos : n ≠ 0 := fun hzero => hx.ne_zero hrank (by rw [hzero, Nat.cast_zero, zero_mul, zero_mul])
  constructor
  · by_contra hfew
    obtain rfl := eq_zero_of_few hrank hlead hx hn (by omega)
    obtain rfl : other = 0 := by omega
    omega
  · intro hsame
    rw [hsame] at hn
    obtain heq | hfiner := hexponent.eq_or_lt
    · rw [heq] at hx ⊢
      exact (shortest_spec .single hrank).2 n hx
    · obtain rfl := eq_zero_of_few hrank hlead hx hn (by omega)
      have hnine : (n : ℚ) ≤ 9 := by exact_mod_cast (by omega : n ≤ 9)
      have hgrid : (10 ^ exponent : ℚ) ≤ 10 ^ ((shortest .single rank).exponent - 1) :=
        zpow_le_zpow_right₀ (by norm_num) (by omega)
      exact abs_le_of_le_tenth hrank rfl hx (mul_le_mul hnine hgrid (by positivity) (by norm_num))

theorem isShortest_zero : IsShortest .single 0 0 0 where
  hasDigits := ⟨0, 0, by decide, by simp⟩
  roundsTo := by
    rw [Format.roundsTo_iff_nearest le_rfl, zero_mul]
    exact Format.nearest_zero le_rfl (by norm_num)
  fewest _ _ _ _ := Nat.zero_le _
  nearest _ _ _ := by simp

/-- The shortest decimal of a rank has the fewest digits of all that round to it, and is the nearest of those. -/
theorem exists_isShortest (rank : Nat) : ∃ count, IsShortest .single rank count (shortest .single rank).value := by
  obtain rfl | hpos := Nat.eq_zero_or_pos rank
  · have hzero : (shortest .single 0).value = 0 := by simp [shortest, Decimal.value]
    exact ⟨0, hzero ▸ isShortest_zero⟩
  · obtain ⟨count, hdigits, hminimal⟩ := exists_fewest hpos
    refine ⟨count, hdigits, ?_, fun other y hother hrounds => ?_, fun y hother hrounds => ?_⟩
    · rw [Format.roundsTo_iff_nearest hdigits.nonneg]
      exact (shortest_spec .single hpos).1
    · rw [Format.roundsTo_iff_nearest hother.nonneg] at hrounds
      exact (hminimal other y hother hrounds).1
    · rw [Format.roundsTo_iff_nearest hother.nonneg] at hrounds
      have hnearest := (hminimal count y hother hrounds).2 rfl
      have hone : (0 : ℚ) < Format.single.one := by exact_mod_cast Format.single.one_pos
      rwa [Format.abs_sub_units, Format.abs_sub_units, mul_le_mul_iff_of_pos_right hone] at hnearest

/-! ### Any shortest decimal -/

section

variable {count : Nat}

theorem IsShortest.nearest_units (hshortest : IsShortest f rank count x) : f.Nearest (x * f.one) rank :=
  (Format.roundsTo_iff_nearest hshortest.hasDigits.nonneg).mp hshortest.roundsTo

theorem IsShortest.exists_decimal (hshortest : IsShortest f rank count x) :
    ∃ d : Decimal, d.coefficient < 10 ^ count ∧ d.value = x := by
  obtain ⟨n, exponent, hn, rfl⟩ := hshortest.hasDigits
  exact ⟨⟨n, exponent⟩, hn, rfl⟩

/-- All shortest decimals of a rank are equally far from it. -/
theorem IsShortest.abs_le {other : Nat} {y : ℚ} (hx : IsShortest f rank count x) (hy : IsShortest f rank other y) :
    |x - f.units rank / f.one| ≤ |y - f.units rank / f.one| := by
  have hsame : other = count :=
    le_antisymm (hy.fewest count x hx.hasDigits hx.roundsTo) (hx.fewest other y hy.hasDigits hy.roundsTo)
  exact hx.nearest y (hsame ▸ hy.hasDigits) hy.roundsTo

theorem HasDigits.succ {n : Nat} (hcount : 0 < count) (hn : n < 10 ^ count) (exponent : Int) :
    HasDigits count ((n + 1 : Nat) * 10 ^ exponent) := by
  obtain hlt | heq := Nat.lt_or_eq_of_le (Nat.succ_le_of_lt hn)
  · exact ⟨n + 1, exponent, hlt, rfl⟩
  · refine ⟨1, exponent + count, Nat.one_lt_pow hcount.ne' (by decide), ?_⟩
    rw [← Nat.succ_eq_add_one, heq, zpow_add₀ (by norm_num), zpow_natCast]
    push_cast
    ring

/-- For an odd rank a shortest decimal is at most half a step of its grid away. -/
theorem IsShortest.within (hf : 0 < f.fractionBits) (hodd : ¬Even rank) {d : Decimal}
    (hcoefficient : d.coefficient < 10 ^ count) (hshortest : IsShortest f rank count d.value) :
    2 * |d.value * f.one - f.units rank| ≤ 10 ^ d.exponent * f.one := by
  have hrank : 0 < rank := Nat.pos_of_ne_zero fun hzero => hodd (hzero ▸ Even.zero)
  have hgrain : (0 : ℚ) < f.one := by exact_mod_cast f.one_pos
  have hgrid : (0 : ℚ) < 10 ^ d.exponent * f.one := by positivity
  have hnearest := hshortest.nearest_units
  have hpos : 0 < d.coefficient := by
    refine Nat.pos_of_ne_zero fun hzero => hnearest.ne_zero hrank ?_
    rw [Decimal.value, hzero, Nat.cast_zero, zero_mul, zero_mul]
  have hcount : 0 < count := by
    refine Nat.pos_of_ne_zero fun hzero => ?_
    rw [hzero, Nat.pow_zero] at hcoefficient
    omega
  have hall : ∀ n : Nat, HasDigits count (n * 10 ^ d.exponent) →
      |d.value * f.one - f.units rank| ≤ |n * (10 ^ d.exponent * f.one) - (f.units rank : ℚ)| := by
    intro n hdigits
    rw [← mul_assoc]
    by_cases hn : f.Nearest (n * 10 ^ d.exponent * f.one) rank
    · have hcloser := hshortest.nearest _ hdigits ((Format.roundsTo_iff_nearest hdigits.nonneg).mpr hn)
      rwa [Format.abs_sub_units, Format.abs_sub_units, mul_le_mul_iff_of_pos_right hgrain]
    · rw [Format.nearest_iff_of_odd hf hodd] at hn hnearest
      linarith
  have hnext := hall (d.coefficient + 1) (HasDigits.succ hcount hcoefficient d.exponent)
  have hprev := hall (d.coefficient - 1) ⟨_, _, by omega, rfl⟩
  have hvalue : d.value * f.one = d.coefficient * (10 ^ d.exponent * f.one) := by
    rw [Decimal.value, mul_assoc]
  rw [hvalue] at hnext hprev ⊢
  rw [Nat.cast_sub hpos, Nat.cast_one] at hprev
  push_cast at hnext
  generalize (10 ^ d.exponent * f.one : ℚ) = grid at *
  obtain hbelow | habove := le_total (d.coefficient * grid) (f.units rank : ℚ)
  · rw [abs_of_nonpos (by linarith)] at hnext ⊢
    obtain hcase | hcase := abs_cases ((d.coefficient + 1) * grid - (f.units rank : ℚ)) <;> linarith
  · rw [abs_of_nonneg (by linarith)] at hprev ⊢
    obtain hcase | hcase := abs_cases ((d.coefficient - 1) * grid - (f.units rank : ℚ)) <;> linarith

theorem IsShortest.exists_grid {y : ℚ} (hrank : 0 < rank) (hlead : 10 ≤ (shortest .single rank).coefficient)
    (hshortest : IsShortest .single rank count y) : ∃ n : Nat, y = n * 10 ^ (shortest .single rank).exponent := by
  have hpos := coefficient_shortest_pos (f := .single) hrank
  have hlog := Nat.pow_log_le_self 10 hpos.ne'
  have hbelow := Nat.lt_pow_succ_log_self (by decide : 1 < 10) (shortest .single rank).coefficient
  have hlogPos : 0 < Nat.log 10 (shortest .single rank).coefficient := Nat.log_pos (by decide) hlead
  generalize Nat.log 10 (shortest .single rank).coefficient = lead at hlog hbelow hlogPos
  obtain ⟨n, exponent, hn, rfl⟩ := hshortest.hasDigits
  have hnearest := hshortest.nearest_units
  have hfew : count ≤ lead + 1 := by
    have hdigits : HasDigits (lead + 1) (shortest .single rank).value := ⟨_, _, hbelow, rfl⟩
    apply hshortest.fewest (lead + 1) _ hdigits
    rw [Format.roundsTo_iff_nearest hdigits.nonneg]
    exact (shortest_spec .single hrank).1
  have hle := exponent_le_shortest hrank hnearest
  have hge : ¬exponent < (shortest .single rank).exponent := by
    intro hlt
    have hzero := eq_zero_of_few hrank hlog hnearest hn (by omega)
    omega
  obtain rfl : exponent = (shortest .single rank).exponent := by omega
  exact ⟨n, rfl⟩

end

end Reckoner.Decimal
