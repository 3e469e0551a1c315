import Reckoner.Proofs.Binary.DoubleRounding
import Reckoner.Proofs.Decimal.Separation
import Reckoner.Proofs.Decimal.Significance

/-!
# Shortest decimals rounded twice

A shortest decimal of a four-byte number goes back to that number, even though it is rounded to an eight-byte number on the way. For an even rank this is so because the first rounding stays between the midpoints. For an odd rank it could end on a midpoint only if the decimal were very close to it, and decimals of so few digits are not, with a single exception, which goes on to the next number.
-/

namespace Reckoner.Decimal

open Binary Binary.Format

variable {rank wide : Nat}

/-- The rank whose shortest decimal is so close to a midpoint that it is rounded up to it. -/
def strayRank : Nat := 363742205

theorem exponent_single_lt (hrank : rank < Format.single.infinity) : Format.single.exponent rank < 254 := by
  have hdiv : rank / Format.single.binade < 255 := Nat.div_lt_of_lt_mul (by rwa [Nat.mul_comm])
  rw [Format.exponent]
  omega

/-- A number cannot be close to both a value and a midpoint next to it. -/
theorem step_le_distances {x step significand half : ℚ}
    (hhalf : half = 2 * significand - 1 ∨ half = 2 * significand + 1) :
    step ≤ 2 * |x - significand * step| + |2 * x - half * step| := by
  obtain rfl | rfl := hhalf
  · have hvalue := neg_abs_le (x - significand * step)
    have hmidpoint := le_abs_self (2 * x - (2 * significand - 1) * step)
    linarith
  · have hvalue := le_abs_self (x - significand * step)
    have hmidpoint := neg_abs_le (2 * x - (2 * significand + 1) * step)
    linarith

/-- A decimal inside the interval of a value, at most half a step of its grid away and close to a midpoint, is exceptional. -/
theorem half_of_close {power significand half : Nat} (hpower : power < 254) (hsignificand : significand < 2 ^ 24)
    (hhalf : half + 1 = 2 * significand ∨ half = 2 * significand + 1) {d : Decimal} (hcoefficient : 0 < d.coefficient)
    (hinside : 2 * |d.value * 2 ^ 149 - (significand * 2 ^ power : ℚ)| < 2 ^ power)
    (hwithin : 2 * |d.value * 2 ^ 149 - (significand * 2 ^ power : ℚ)| ≤ 10 ^ d.exponent * 2 ^ 149)
    (hclose : |d.value * 2 ^ 150 - (half * 2 ^ power : ℚ)| * (midpointTolerance : ℚ) ≤ 2 ^ power) :
    power = 42 ∧ half = 22841339 := by
  have hstep : (0 : ℚ) < 2 ^ power := by positivity
  have hhalfCast : (half : ℚ) = 2 * significand - 1 ∨ (half : ℚ) = 2 * significand + 1 := by
    refine hhalf.imp (fun hbelow => ?_) fun habove => by exact_mod_cast habove
    rw [eq_sub_iff_add_eq]
    exact_mod_cast hbelow
  have hdistances : (2 ^ power : ℚ) ≤ 2 * |d.value * 2 ^ 149 - significand * 2 ^ power| +
      |2 * (d.value * 2 ^ 149) - half * 2 ^ power| := step_le_distances hhalfCast
  have htwice : 2 * (d.value * 2 ^ 149) = d.value * 2 ^ 150 := by ring
  rw [htwice] at hdistances
  have hgrid : 2 ^ power * (midpointTolerance - 1 : ℚ) ≤ 10 ^ d.exponent * 2 ^ 149 * midpointTolerance := by
    have htolerance : (0 : ℚ) ≤ midpointTolerance := Nat.cast_nonneg _
    have hscaled := mul_le_mul_of_nonneg_right (hdistances.trans (add_le_add_left hwithin _)) htolerance
    linarith
  have hsize : d.value * 2 ^ 150 ≤ 2 ^ 25 * 2 ^ power := by
    have habove := le_abs_self (d.value * 2 ^ 149 - significand * 2 ^ power)
    have hcast : (significand + 1 : ℚ) ≤ 2 ^ 24 := by exact_mod_cast hsignificand
    have hscaled := mul_le_mul_of_nonneg_right hcast hstep.le
    linarith
  have hne : d.value * 2 ^ 150 ≠ half * 2 ^ power := by
    intro heq
    rw [heq, sub_self, abs_zero, add_zero] at hdistances
    linarith
  obtain ⟨hpowerEq, times, htimes, hwhole⟩ := eq_of_close hpower hcoefficient hgrid hsize hne hclose
  obtain rfl : times = 1 := by omega
  exact ⟨hpowerEq, by omega⟩

section

variable {count : Nat} {y : ℚ}

theorem eq_strayRank_of_close (hfinite : rank < Format.single.infinity) (hodd : ¬Even rank)
    (hshortest : IsShortest .single rank count y) {half : Nat}
    (hhalf : half + 1 = 2 * Format.single.significand rank ∨ half = 2 * Format.single.significand rank + 1)
    (hclose : |2 * (y * Format.single.one) - (half * 2 ^ Format.single.exponent rank : ℚ)| *
      2 ^ (Format.double.fractionBits - Format.single.fractionBits) ≤ 2 ^ Format.single.exponent rank) :
    rank = strayRank := by
  have hf : 0 < Format.single.fractionBits := by decide
  have hpos : 0 < rank := Nat.pos_of_ne_zero fun hzero => hodd (hzero ▸ Even.zero)
  obtain ⟨d, hcoefficient, rfl⟩ := hshortest.exists_decimal
  have hnearest := hshortest.nearest_units
  have hcoefficientPos : 0 < d.coefficient := by
    refine Nat.pos_of_ne_zero fun hzero => hnearest.ne_zero hpos ?_
    rw [Decimal.value, hzero, Nat.cast_zero, zero_mul, zero_mul]
  have hinside := (nearest_iff_of_odd hf hodd).mp hnearest
  have hwithin := hshortest.within hf hodd hcoefficient
  have hunits : (Format.single.units rank : ℚ) = Format.single.significand rank * 2 ^ Format.single.exponent rank := by
    exact_mod_cast Format.single.units_eq rank
  have hone : (Format.single.one : ℚ) = 2 ^ 149 := by norm_num [Format.one, Format.single]
  have htolerance : (2 ^ (Format.double.fractionBits - Format.single.fractionBits) : ℚ) = midpointTolerance := by
    norm_num [midpointTolerance, Format.single, Format.double]
  have htwice : 2 * (d.value * 2 ^ 149) = d.value * 2 ^ 150 := by ring
  rw [hunits, hone] at hinside hwithin
  rw [hone, htwice, htolerance] at hclose
  obtain ⟨hpower, hhalfEq⟩ := half_of_close (exponent_single_lt hfinite) (Format.single.significand_lt rank) hhalf
    hcoefficientPos hinside hwithin hclose
  have hsplit : Format.single.exponent rank * 2 ^ 23 + Format.single.significand rank = rank :=
    Format.single.exponent_mul_add_significand rank
  rw [Nat.not_even_iff_odd, Nat.odd_iff] at hodd
  rw [strayRank]
  omega

theorem nearest_again (hfinite : rank < Format.single.infinity) (hregular : rank ≠ strayRank)
    (hshortest : IsShortest .single rank count y) (hwide : Format.double.Nearest (y * Format.double.one) wide) :
    Format.single.Nearest (Format.double.units wide * Format.single.one / Format.double.one) rank := by
  have hnearest := hshortest.nearest_units
  by_cases heven : Even rank
  · exact single_widens.nearest_of_even heven hnearest hwide
  · obtain hagain | ⟨half, hhalf, hclose⟩ := single_widens.nearest_or_close heven hnearest hwide
    · exact hagain
    · exact absurd (eq_strayRank_of_close hfinite heven hshortest hhalf hclose) hregular

theorem units_infinity_lt : Format.single.units Format.single.infinity * Format.double.one <
    Format.double.units Format.double.infinity * Format.single.one := by
  decide +kernel

/-- What is between the midpoints of a finite rank is not rounded to infinity on the way. -/
theorem wide_lt_infinity (hfinite : rank < Format.single.infinity)
    (hnearest : Format.single.Nearest (y * Format.single.one) rank)
    (hwide : Format.double.Nearest (y * Format.double.one) wide) : wide < Format.double.infinity := by
  by_contra hlarge
  have hbelow := (single_widens.between hnearest hwide).2
  have hrank : (Format.single.units rank : ℚ) ≤ Format.single.units Format.single.infinity := by
    exact_mod_cast Format.single.units_strictMono.monotone hfinite.le
  have hnext : (Format.single.units (rank + 1) : ℚ) ≤ Format.single.units Format.single.infinity := by
    exact_mod_cast Format.single.units_strictMono.monotone (Nat.succ_le_of_lt hfinite)
  have hunits : (Format.double.units Format.double.infinity : ℚ) ≤ Format.double.units wide := by
    exact_mod_cast Format.double.units_strictMono.monotone (not_lt.mp hlarge)
  have hfar : (Format.single.units Format.single.infinity * Format.double.one : ℚ) <
      Format.double.units Format.double.infinity * Format.single.one := by
    exact_mod_cast units_infinity_lt
  have hgrain : (0 : ℚ) < Format.double.one := by exact_mod_cast Format.double.one_pos
  have hscaled := mul_le_mul_of_nonneg_right hunits (Nat.cast_nonneg (α := ℚ) Format.single.one)
  have hle : (Format.double.units wide * Format.single.one / Format.double.one : ℚ) ≤
      Format.single.units Format.single.infinity := by linarith
  rw [div_le_iff₀ hgrain] at hle
  linarith

theorem convert_ofDecimal (hfinite : rank < Format.single.infinity) (hregular : rank ≠ strayRank) (negative : Bool)
    {d : Decimal} (hshortest : IsShortest .single rank count d.value) :
    (ofDecimal .double negative d).convert .single = signed negative rank hfinite.le := by
  obtain ⟨wide, hwide, hread⟩ := exists_ofDecimal (f := .double) (by decide) (by decide) negative d
  have hagain := nearest_again hfinite hregular hshortest hwide
  have hlt := wide_lt_infinity hfinite hshortest.nearest_units hwide
  obtain ⟨other, hother, hconvert⟩ := exists_convert (g := .single) (by decide) negative hlt
  obtain rfl := hother.unique hagain
  simp only [min_eq_right hlt.le, min_eq_right hfinite.le] at hread hconvert
  rw [hread, hconvert]

/-! ### The exception -/

/-- The shortest decimal of the exceptional rank. -/
def stray : Decimal := ⟨7038531, -32⟩

theorem shortest_strayRank : shortest .single strayRank = stray := by decide +kernel

theorem value_of_strayRank (hshortest : IsShortest .single strayRank count y) : y = stray.value := by
  obtain ⟨other, hfound⟩ := exists_isShortest strayRank
  obtain ⟨n, hgrid⟩ := hshortest.exists_grid (by decide) (by rw [shortest_strayRank]; decide)
  have hdistance := hshortest.abs_le hfound
  rw [shortest_strayRank] at hgrid hdistance
  have hunits : Format.single.units strayRank = 11420669 * 2 ^ 42 := by decide +kernel
  have hone : (Format.single.one : ℚ) = 2 ^ 149 := by norm_num [Format.one, Format.single]
  have hnear : |stray.value - Format.single.units strayRank / Format.single.one| < 1 / 2 * 10 ^ (-32 : Int) := by
    rw [hunits, hone, abs_lt]
    norm_num [Decimal.value, stray]
  have hstep : |(n : ℚ) - 7038531| * 10 ^ (-32 : Int) < 1 * 10 ^ (-32 : Int) :=
    calc |(n : ℚ) - 7038531| * 10 ^ (-32 : Int) = |y - stray.value| := by
          rw [hgrid, ← abs_of_pos (show (0 : ℚ) < 10 ^ (-32 : Int) by positivity), ← abs_mul, sub_mul]
          rfl
      _ ≤ |y - Format.single.units strayRank / Format.single.one| +
          |stray.value - Format.single.units strayRank / Format.single.one| := by
        rw [abs_sub_comm stray.value]
        exact abs_sub_le ..
      _ < 1 * 10 ^ (-32 : Int) := by linarith
  have hclose : |(n : Int) - 7038531| < 1 := by exact_mod_cast lt_of_mul_lt_mul_right hstep (by positivity)
  obtain rfl : n = 7038531 := by
    have hsame := Int.abs_lt_one_iff.mp hclose
    omega
  exact hgrid

theorem convert_stray (negative : Bool) {d : Decimal} (hshortest : IsShortest .single strayRank count d.value) :
    (ofDecimal .double negative d).convert .single = signed negative (strayRank + 1) (by decide) := by
  rw [ofDecimal_congr (by decide) (by decide) negative (value_of_strayRank hshortest)]
  cases negative with
  | false => decide +kernel
  | true => decide +kernel

end

end Reckoner.Decimal
