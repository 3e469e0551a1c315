import Reckoner.Proofs.Binary.Decimals

/-!
# Rounding twice

A number rounded to a wide format first and to a narrow one from there. The midpoints of the narrow format are values of the wide one, so the first rounding never crosses a midpoint. It may end on one: then the second rounding goes to the even neighbour, whichever side the number was on. That takes a number which is very close to the midpoint.
-/

namespace Reckoner.Binary.Format

/-- A format that holds the midpoints of another one, and has at least as many more powers of two below as it has more bits. -/
structure Widens (f g : Format) : Prop where
  fractionBits_pos : 0 < f.fractionBits
  fractionBits_lt : f.fractionBits < g.fractionBits
  scale_le : f.scale + (g.fractionBits - f.fractionBits) ≤ g.scale

theorem single_widens : single.Widens double := ⟨by decide, by decide, by decide⟩

variable {f g : Format} {rank wide : Nat} {y : ℚ}

theorem units_add_units_succ (f : Format) (rank : Nat) :
    f.units rank + f.units (rank + 1) = (2 * f.significand rank + 1) * 2 ^ f.exponent rank := by
  rw [units_succ, units_eq]
  ring

theorem mul_one_div_one (g : Format) (y : ℚ) : y * g.one * f.one / g.one = y * f.one := by
  have hgrain : (g.one : ℚ) ≠ 0 := by exact_mod_cast g.one_pos.ne'
  rw [mul_right_comm, mul_div_cancel_right₀ _ hgrain]

namespace Widens

theorem exists_midpoint (hwidens : f.Widens g) (rank : Nat) : ∃ middle,
    2 * (g.units middle * f.one) = (f.units rank + f.units (rank + 1)) * g.one := by
  have hbits := hwidens.fractionBits_lt
  have hscale := hwidens.scale_le
  have hsteps : 2 * f.significand rank + 1 ≤ 2 * g.binade := by
    have hlt := f.significand_lt rank
    have hbinade : 2 * f.binade ≤ g.binade :=
      calc 2 * f.binade = 2 ^ (f.fractionBits + 1) := by rw [Nat.pow_succ']; rfl
        _ ≤ g.binade := Nat.pow_le_pow_right Nat.two_pos hbits
    omega
  obtain ⟨middle, hmiddle⟩ := g.exists_units_eq hsteps (f.exponent rank + (g.scale - f.scale - 1))
  refine ⟨middle, ?_⟩
  have hpowers : 2 ^ (f.exponent rank + (g.scale - f.scale - 1)) * f.one * 2 = 2 ^ f.exponent rank * g.one := by
    simp only [one, Nat.pow_eq]
    rw [← Nat.pow_add, ← Nat.pow_succ, ← Nat.pow_add]
    congr 1
    omega
  rw [hmiddle, units_add_units_succ]
  linear_combination (2 * f.significand rank + 1) * hpowers

/-- Being below or above a midpoint is being below or above a value of the wide format. -/
theorem exists_comparison (hwidens : f.Widens g) (rank : Nat) : ∃ middle, ∀ z : ℚ,
    (2 * (z * f.one / g.one) ≤ f.units rank + f.units (rank + 1) ↔ z ≤ g.units middle) ∧
      ((f.units rank + f.units (rank + 1) : ℚ) ≤ 2 * (z * f.one / g.one) ↔ g.units middle ≤ z) := by
  obtain ⟨middle, hmiddle⟩ := hwidens.exists_midpoint rank
  have hnarrow : (0 : ℚ) < 2 * f.one := by exact_mod_cast Nat.mul_pos Nat.two_pos f.one_pos
  have hgrain : (0 : ℚ) < g.one := by exact_mod_cast g.one_pos
  have hsum : (f.units rank + f.units (rank + 1) : ℚ) = g.units middle * (2 * f.one) / g.one := by
    rw [eq_div_iff hgrain.ne', mul_left_comm]
    exact_mod_cast hmiddle.symm
  refine ⟨middle, fun z => ?_⟩
  rw [hsum, ← mul_div_assoc, mul_left_comm, div_le_div_iff_of_pos_right hgrain, div_le_div_iff_of_pos_right hgrain,
    mul_le_mul_iff_of_pos_right hnarrow, mul_le_mul_iff_of_pos_right hnarrow]
  exact ⟨Iff.rfl, Iff.rfl⟩

/-- Rounding to the wide format leaves a number on its side of a midpoint. -/
theorem le_midpoint (hwidens : f.Widens g) (hwide : g.Nearest (y * g.one) wide)
    (hle : 2 * (y * f.one) ≤ f.units rank + f.units (rank + 1)) :
    2 * (g.units wide * f.one / g.one : ℚ) ≤ f.units rank + f.units (rank + 1) := by
  obtain ⟨middle, hmiddle⟩ := hwidens.exists_comparison rank
  rw [← mul_one_div_one g y, (hmiddle _).1] at hle
  rw [(hmiddle _).1]
  exact_mod_cast g.units_strictMono.monotone (hwide.le_of_le (g.nearest_units middle) hle)

theorem midpoint_le (hwidens : f.Widens g) (hwide : g.Nearest (y * g.one) wide)
    (hle : f.units rank + f.units (rank + 1) ≤ 2 * (y * f.one)) :
    f.units rank + f.units (rank + 1) ≤ 2 * (g.units wide * f.one / g.one : ℚ) := by
  obtain ⟨middle, hmiddle⟩ := hwidens.exists_comparison rank
  rw [← mul_one_div_one g y, (hmiddle _).2] at hle
  rw [(hmiddle _).2]
  exact_mod_cast g.units_strictMono.monotone ((g.nearest_units middle).le_of_le hwide hle)

theorem between (hwidens : f.Widens g) (hnearest : f.Nearest (y * f.one) rank) (hwide : g.Nearest (y * g.one) wide) :
    f.units (rank - 1) + f.units rank ≤ 2 * (g.units wide * f.one / g.one : ℚ) ∧
      2 * (g.units wide * f.one / g.one : ℚ) ≤ f.units rank + f.units (rank + 1) := by
  refine ⟨?_, hwidens.le_midpoint hwide hnearest.high⟩
  obtain rfl | hpos := Nat.eq_zero_or_pos rank
  · simp only [Nat.zero_sub, units_zero, Nat.cast_zero, add_zero]
    positivity
  · have hlow := hnearest.low
    rw [← Nat.sub_add_cancel hpos, Nat.add_sub_cancel] at hlow ⊢
    exact hwidens.midpoint_le hwide hlow

/-- An even rank takes its midpoints, so it is not missed. -/
theorem nearest_of_even (hwidens : f.Widens g) (heven : Even rank) (hnearest : f.Nearest (y * f.one) rank)
    (hwide : g.Nearest (y * g.one) wide) : f.Nearest (g.units wide * f.one / g.one) rank := by
  obtain ⟨hlow, hhigh⟩ := hwidens.between hnearest hwide
  exact ⟨hlow, hhigh, fun _ => heven, fun _ => heven⟩

/-- At a midpoint the steps of the wide format are finer than those of the narrow one by the bits it has more. -/
theorem exponent_le (hwidens : f.Widens g) {half power : Nat} (hhalf : half < 4 * f.binade)
    (hunits : 2 * (g.units wide * f.one) = half * 2 ^ power * g.one) :
    2 ^ g.exponent wide * 2 ^ (g.fractionBits - f.fractionBits) * f.one ≤ 2 ^ power * g.one := by
  have hbits := hwidens.fractionBits_lt
  have hscale := hwidens.scale_le
  have hexponents : g.exponent wide + (g.fractionBits - f.fractionBits) + f.scale ≤ power + g.scale := by
    obtain hzero | hsignificand := g.binade_le_significand wide
    · omega
    · have hlt : 2 ^ (1 + g.fractionBits + g.exponent wide + f.scale) < 2 ^ (2 + f.fractionBits + power + g.scale) :=
        calc 2 ^ (1 + g.fractionBits + g.exponent wide + f.scale) = 2 * (g.binade * 2 ^ g.exponent wide * f.one) := by
              simp only [binade, one, Nat.pow_eq]
              ring
          _ ≤ 2 * (g.units wide * f.one) := by
              rw [g.units_eq]
              exact Nat.mul_le_mul_left _ (Nat.mul_le_mul_right _ (Nat.mul_le_mul_right _ hsignificand))
          _ = half * 2 ^ power * g.one := hunits
          _ < 4 * f.binade * 2 ^ power * g.one :=
              Nat.mul_lt_mul_of_pos_right (Nat.mul_lt_mul_of_pos_right hhalf (Nat.two_pow_pos _)) g.one_pos
          _ = 2 ^ (2 + f.fractionBits + power + g.scale) := by
              simp only [binade, one, Nat.pow_eq]
              ring
      have hpowers := (Nat.pow_lt_pow_iff_right (by decide)).mp hlt
      omega
  simp only [one, Nat.pow_eq, ← Nat.pow_add]
  exact Nat.pow_le_pow_right Nat.two_pos hexponents

theorem close_of_eq (hwidens : f.Widens g) (hwide : g.Nearest (y * g.one) wide) {half power : Nat}
    (hhalf : half < 4 * f.binade) (heq : 2 * (g.units wide * f.one / g.one : ℚ) = half * 2 ^ power) :
    |2 * (y * f.one) - (half * 2 ^ power : ℚ)| * 2 ^ (g.fractionBits - f.fractionBits) ≤ 2 ^ power := by
  have hnarrow : (0 : ℚ) < f.one := by exact_mod_cast f.one_pos
  have hgrain : (0 : ℚ) < g.one := by exact_mod_cast g.one_pos
  rw [← mul_div_assoc, div_eq_iff hgrain.ne'] at heq
  have hsteps : (2 ^ g.exponent wide * 2 ^ (g.fractionBits - f.fractionBits) * f.one : ℚ) ≤ 2 ^ power * g.one := by
    exact_mod_cast hwidens.exponent_le hhalf (by exact_mod_cast heq)
  have hdistance : |2 * (y * f.one) - (half * 2 ^ power : ℚ)| * g.one = 2 * |y * g.one - g.units wide| * f.one := by
    calc |2 * (y * f.one) - (half * 2 ^ power : ℚ)| * g.one
        = |(2 * (y * f.one) - half * 2 ^ power) * g.one| := by rw [abs_mul, abs_of_pos hgrain]
      _ = |2 * (y * g.one - g.units wide) * f.one| := by
        congr 1
        linear_combination heq
      _ = 2 * |y * g.one - g.units wide| * f.one := by rw [abs_mul, abs_mul, abs_two, abs_of_pos hnarrow]
  refine le_of_mul_le_mul_right ?_ hgrain
  calc |2 * (y * f.one) - (half * 2 ^ power : ℚ)| * 2 ^ (g.fractionBits - f.fractionBits) * g.one
      = 2 * |y * g.one - g.units wide| * (2 ^ (g.fractionBits - f.fractionBits) * f.one) := by
        linear_combination 2 ^ (g.fractionBits - f.fractionBits) * hdistance
    _ ≤ 2 ^ g.exponent wide * (2 ^ (g.fractionBits - f.fractionBits) * f.one) :=
      mul_le_mul_of_nonneg_right hwide.abs_le (by positivity)
    _ ≤ 2 ^ power * g.one := by linarith

/-- If an odd rank is missed then the number is close to one of its midpoints. -/
theorem nearest_or_close (hwidens : f.Widens g) (hodd : ¬Even rank) (hnearest : f.Nearest (y * f.one) rank)
    (hwide : g.Nearest (y * g.one) wide) :
    f.Nearest (g.units wide * f.one / g.one) rank ∨
      ∃ half : Nat, (half + 1 = 2 * f.significand rank ∨ half = 2 * f.significand rank + 1) ∧
        |2 * (y * f.one) - (half * 2 ^ f.exponent rank : ℚ)| * 2 ^ (g.fractionBits - f.fractionBits) ≤
          2 ^ f.exponent rank := by
  obtain ⟨hlow, hhigh⟩ := hwidens.between hnearest hwide
  have hlt := f.significand_lt rank
  by_cases hlowTie : 2 * (g.units wide * f.one / g.one : ℚ) = f.units (rank - 1) + f.units rank
  · have hprev := units_pred_of_odd hwidens.fractionBits_pos hodd
    have hsignificand := significand_pos_of_odd hwidens.fractionBits_pos hodd
    obtain ⟨half, hhalf⟩ : ∃ half, half + 1 = 2 * f.significand rank := ⟨2 * f.significand rank - 1, by omega⟩
    refine .inr ⟨half, .inl hhalf, hwidens.close_of_eq hwide (by omega) ?_⟩
    have hsum : f.units (rank - 1) + f.units rank + 2 ^ f.exponent rank = (half + 1) * 2 ^ f.exponent rank := by
      rw [hhalf, Nat.mul_assoc, ← units_eq]
      omega
    have hcast : (f.units (rank - 1) + f.units rank + 2 ^ f.exponent rank : ℚ) = (half + 1) * 2 ^ f.exponent rank := by
      exact_mod_cast hsum
    rw [hlowTie]
    linarith
  by_cases hhighTie : 2 * (g.units wide * f.one / g.one : ℚ) = f.units rank + f.units (rank + 1)
  · refine .inr ⟨2 * f.significand rank + 1, .inr rfl, hwidens.close_of_eq hwide (by omega) ?_⟩
    rw [hhighTie]
    exact_mod_cast f.units_add_units_succ rank
  · exact .inl ⟨hlow, hhigh, fun htie => absurd htie hlowTie, fun htie => absurd htie hhighTie⟩

end Widens

end Reckoner.Binary.Format
