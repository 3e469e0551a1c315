import Mathlib.Algebra.Order.Field.Power
import Mathlib.Tactic.Qify
import Reckoner.Binary.OfDecimal
import Reckoner.Proofs.Binary.Rounding

/-!
# Decimals and conversions, rounded

A decimal number becomes the binary number nearest to its exact value, also where the value is far too large or far too small to be computed. A finite number converted to another format becomes the one nearest to it there.
-/

namespace Reckoner

def Decimal.value (d : Decimal) : ℚ := d.coefficient * 10 ^ d.exponent

namespace Binary

variable {f g : Format} {rank : Nat}

theorem Format.nearest_zero {x : ℚ} (hx : 0 ≤ x) (hhalf : 2 * x ≤ 1) : f.Nearest x 0 := by
  have hone : f.units 1 = 1 := by simpa [Format.exponent] using f.units_succ 0
  exact ⟨by simpa using hx, by simpa [hone] using hhalf, fun _ => Even.zero, fun _ => Even.zero⟩

theorem Format.Nearest.ne_zero {x : ℚ} (hnearest : f.Nearest x rank) (hrank : 0 < rank) : x ≠ 0 := by
  intro hzero
  rw [hzero] at hnearest
  exact hrank.ne ((Format.nearest_zero le_rfl (by norm_num)).unique hnearest)

theorem Format.units_infinity_le (hscale : f.fractionBits ≤ f.scale + 1) :
    f.units f.infinity ≤ 2 ^ (2 ^ f.exponentBits) * f.one := by
  obtain hzero | hpos := Nat.eq_zero_or_pos f.exponentBits
  · simp [Format.infinity, hzero]
  · have hbits : 2 ≤ 2 ^ f.exponentBits := Nat.le_self_pow hpos.ne' 2
    have hexponent : f.exponent f.infinity = 2 ^ f.exponentBits - 2 := by
      rw [Format.exponent, Format.infinity, Nat.mul_div_cancel _ f.binade_pos]
      rfl
    rw [Format.units_eq, hexponent]
    calc f.significand f.infinity * 2 ^ (2 ^ f.exponentBits - 2)
        ≤ 2 * f.binade * 2 ^ (2 ^ f.exponentBits - 2) := Nat.mul_le_mul_right _ (f.significand_lt _).le
      _ = 2 ^ (1 + f.fractionBits + (2 ^ f.exponentBits - 2)) := by
        rw [Nat.pow_add, Nat.pow_add]
        rfl
      _ ≤ 2 ^ (2 ^ f.exponentBits + f.scale) := Nat.pow_le_pow_right Nat.two_pos (by omega)
      _ = 2 ^ (2 ^ f.exponentBits) * f.one := Nat.pow_add ..

theorem two_pow_le_ten_pow (power : Nat) : 2 ^ (3 * power) ≤ 10 ^ power := by
  rw [Nat.pow_mul]
  exact Nat.pow_le_pow_left (by decide) _

theorem infinity_le_of_nearest (hscale : f.fractionBits ≤ f.scale + 1) {coefficient power : Nat}
    (hpos : 0 < coefficient) (hlarge : 2 ^ f.exponentBits ≤ 3 * power)
    (hnearest : f.Nearest ((coefficient * 10 ^ power * f.one : Nat) : ℚ) rank) : f.infinity ≤ rank := by
  refine (f.nearest_units f.infinity).le_of_le hnearest ?_
  have hunits : f.units f.infinity ≤ coefficient * 10 ^ power * f.one :=
    calc f.units f.infinity ≤ 2 ^ (2 ^ f.exponentBits) * f.one := Format.units_infinity_le hscale
      _ ≤ 2 ^ (3 * power) * f.one := Nat.mul_le_mul_right _ (Nat.pow_le_pow_right Nat.two_pos hlarge)
      _ ≤ 10 ^ power * f.one := Nat.mul_le_mul_right _ (two_pow_le_ten_pow power)
      _ ≤ coefficient * 10 ^ power * f.one := Nat.mul_le_mul_right _ (Nat.le_mul_of_pos_left _ hpos)
  exact_mod_cast hunits

theorem nearest_zero_of_small {coefficient power : Nat} (hsmall : coefficient.log2 + 2 + f.scale ≤ 3 * power) :
    f.Nearest (coefficient * f.one / 10 ^ power) 0 := by
  have hunits : 2 * (coefficient * f.one) ≤ 10 ^ power :=
    calc 2 * (coefficient * f.one) ≤ 2 * (2 ^ (coefficient.log2 + 1) * f.one) :=
          Nat.mul_le_mul_left _ (Nat.mul_le_mul_right _ Nat.lt_log2_self.le)
      _ = 2 ^ (coefficient.log2 + 2 + f.scale) := by
        simp only [Format.one, Nat.pow_eq]
        ring
      _ ≤ 2 ^ (3 * power) := Nat.pow_le_pow_right Nat.two_pos hsmall
      _ ≤ 10 ^ power := two_pow_le_ten_pow power
  refine Format.nearest_zero (by positivity) ?_
  rw [← mul_div_assoc, div_le_one (by positivity)]
  exact_mod_cast hunits

/-- A decimal becomes the nearest number, whether or not its power of ten is computed. -/
theorem exists_ofDecimal (hf : 0 < f.fractionBits) (hscale : f.fractionBits ≤ f.scale + 1) (negative : Bool)
    (d : Decimal) : ∃ rank, f.Nearest (d.value * f.one) rank ∧
      ofDecimal f negative d = signed negative (min f.infinity rank) (Nat.min_le_left ..) := by
  obtain ⟨coefficient, exponent⟩ := d
  obtain rfl | hpos := Nat.eq_zero_or_pos coefficient
  · exact ⟨0, by simpa [Decimal.value] using f.nearest_units 0, by simp [ofDecimal, zero]⟩
  obtain hnonneg | hneg := le_or_gt 0 exponent
  · lift exponent to Nat using hnonneg
    have hvalue : Decimal.value ⟨coefficient, exponent⟩ * f.one =
        ((coefficient * 10 ^ exponent * f.one : Nat) : ℚ) := by
      simp [Decimal.value]
    obtain ⟨rank, hnearest, -⟩ := f.exists_nearest hf (coefficient * 10 ^ exponent * f.one) Nat.one_pos
    have hrounded := rounded_eq_signed hf negative Nat.one_pos hnearest
    rw [Nat.cast_one, div_one] at hnearest
    refine ⟨rank, hvalue ▸ hnearest, ?_⟩
    rw [ofDecimal, if_neg hpos.ne']
    dsimp only
    rw [if_pos (Int.natCast_nonneg _), Int.natAbs_natCast]
    split
    · have hinfinity := infinity_le_of_nearest hscale hpos (by assumption) hnearest
      simp only [infinity, min_eq_left hinfinity]
    · exact hrounded
  · obtain ⟨power, rfl⟩ := Int.exists_eq_neg_ofNat hneg.le
    have hvalue : Decimal.value ⟨coefficient, -power⟩ * f.one = (coefficient * f.one : Nat) / (10 ^ power : Nat) := by
      rw [Decimal.value, zpow_neg, zpow_natCast]
      push_cast
      ring
    have hten : 0 < 10 ^ power := Nat.pow_pos (by decide)
    obtain ⟨rank, hnearest, -⟩ := f.exists_nearest hf (coefficient * f.one) hten
    have hrounded := rounded_eq_signed hf negative hten hnearest
    refine ⟨rank, hvalue ▸ hnearest, ?_⟩
    rw [ofDecimal, if_neg hpos.ne']
    dsimp only
    rw [if_neg hneg.not_ge, Int.natAbs_neg, Int.natAbs_natCast]
    split
    · have hzero : f.Nearest (coefficient * f.one / 10 ^ power) 0 := nearest_zero_of_small (by assumption)
      obtain rfl : rank = 0 := hnearest.unique (by exact_mod_cast hzero)
      simp only [zero, Nat.min_zero]
    · exact hrounded

theorem ofDecimal_congr (hf : 0 < f.fractionBits) (hscale : f.fractionBits ≤ f.scale + 1) (negative : Bool)
    {d d' : Decimal} (hvalue : d.value = d'.value) : ofDecimal f negative d = ofDecimal f negative d' := by
  obtain ⟨rank, hrank, hread⟩ := exists_ofDecimal hf hscale negative d
  obtain ⟨other, hother, hread'⟩ := exists_ofDecimal hf hscale negative d'
  rw [hvalue] at hrank
  obtain rfl := hrank.unique hother
  rw [hread, hread']

theorem exists_convert (hg : 0 < g.fractionBits) (negative : Bool) (hrank : rank < f.infinity) :
    ∃ other, g.Nearest (f.units rank * g.one / f.one) other ∧
      convert g (signed negative rank hrank.le) = signed negative (min g.infinity other) (Nat.min_le_left ..) := by
  obtain ⟨other, hother, -⟩ := g.exists_nearest hg (f.units rank * g.one) f.one_pos
  refine ⟨other, by exact_mod_cast hother, ?_⟩
  rw [convert, if_neg hrank.ne, rounded_eq_signed hg negative f.one_pos hother]

end Binary

end Reckoner
