import Reckoner.Proofs.Decimal.Shortest

/-!
# No coarser grid hits

The search for the shortest decimal goes through the grids from coarse to fine and stops at the first hit, so no multiple of a larger power of ten rounds to the same rank. A grid that is not searched is so coarse that its least positive multiple is beyond everything that rounds to the rank. Grids are nested: what misses the next coarser one misses all of them.
-/

namespace Reckoner.Decimal

open Binary

variable {f : Format} {rank : Nat}

namespace Target

variable {target : Target}

theorem Proper.not_holds_of_nearest?_eq_none (hproper : target.Proper) (hnone : target.nearest? = none) (n : Nat) :
    ¬target.holds n = true := by
  intro hn
  have hneighbour : target.holds (target.value / target.denominator) = true ∨
      target.holds (target.value / target.denominator + 1) = true := by
    obtain hle | hlt := le_or_gt n (target.value / target.denominator)
    · exact .inl (hproper.below hn hle).1
    · exact .inr (hproper.above hn hlt).1
  unfold nearest? at hnone
  dsimp only at hnone
  obtain hbelow | habove := hneighbour
  · rw [if_pos hbelow] at hnone
    cases hnone
  · rw [if_pos habove] at hnone
    split at hnone <;> cases hnone

/-- A search ends on its first grid, or on one whose predecessor was missed. -/
theorem search_misses (target : Target) (steps : Nat) (exponent : Int) :
    (target.search steps exponent).exponent = exponent ∨
      (target.scaleTo ((target.search steps exponent).exponent + 1)).nearest? = none := by
  induction steps generalizing exponent with
  | zero => exact .inl rfl
  | succ steps ih =>
    rw [search]
    split
    · exact .inl rfl
    · have hmissed : (target.scaleTo exponent).nearest? = none := by assumption
      obtain hfirst | hlater := ih (exponent - 1)
      · exact .inr (by rwa [hfirst, sub_add_cancel])
      · exact .inr hlater

/-! ### The first grid -/

theorem two_zpow_le_ten_zpow (bits : Int) :
    (2 : ℚ) ^ bits ≤ 10 ^ (if 0 ≤ bits then bits / 3 + 1 else bits * 3 / 10 + 1) := by
  split
  · obtain ⟨count, rfl⟩ := Int.eq_ofNat_of_zero_le (by assumption : 0 ≤ bits)
    have hpower : 2 ^ count ≤ 10 ^ (count / 3 + 1) :=
      (Nat.pow_le_pow_right Nat.two_pos (by omega)).trans (two_pow_le_ten_pow (count / 3 + 1))
    exact_mod_cast hpower
  · obtain ⟨count, hcount⟩ : ∃ count : Nat, bits = -count := ⟨bits.natAbs, by omega⟩
    obtain ⟨power, hpower⟩ : ∃ power : Nat, bits * 3 / 10 + 1 = -power := ⟨(bits * 3 / 10 + 1).natAbs, by omega⟩
    have htenth : (10 ^ power) ^ 10 ≤ (2 ^ count) ^ 10 := by
      calc (10 ^ power) ^ 10 = 10 ^ (power * 10) := (Nat.pow_mul ..).symm
        _ ≤ 10 ^ (3 * count) := Nat.pow_le_pow_right (by decide) (by omega)
        _ = 1000 ^ count := Nat.pow_mul ..
        _ ≤ 1024 ^ count := Nat.pow_le_pow_left (by decide) _
        _ = (2 ^ 10) ^ count := rfl
        _ = (2 ^ count) ^ 10 := Nat.pow_right_comm ..
    have hle : 10 ^ power ≤ 2 ^ count := (Nat.pow_le_pow_iff_left (by decide)).mp htenth
    rw [hpower, hcount, zpow_neg, zpow_neg, zpow_natCast, zpow_natCast]
    exact inv_anti₀ (by positivity) (by exact_mod_cast hle)

theorem value_lt_startExponent (hdenominator : 0 < target.denominator) :
    (target.value : ℚ) < 10 ^ target.startExponent * target.denominator := by
  have hvalue : (target.value : ℚ) < 2 ^ (target.value.log2 + 1) := by exact_mod_cast Nat.lt_log2_self
  have hlog : (2 ^ target.denominator.log2 : ℚ) ≤ target.denominator := by
    exact_mod_cast Nat.log2_self_le hdenominator.ne'
  have hbits := two_zpow_le_ten_zpow ((target.value.log2 : Int) + 1 - target.denominator.log2)
  calc (target.value : ℚ) < 2 ^ (target.value.log2 + 1) := hvalue
    _ = 2 ^ ((target.value.log2 : Int) + 1 - target.denominator.log2) * 2 ^ target.denominator.log2 := by
      rw [← zpow_natCast, ← zpow_natCast, ← zpow_add₀ (by norm_num)]
      push_cast
      congr 1
      ring
    _ ≤ 10 ^ target.startExponent * target.denominator := by gcongr; exact hbits

end Target

theorem units_succ_le (hrank : 0 < rank) : f.units (rank + 1) ≤ 2 * f.units rank := by
  have hpos := Format.units_pos (f := f) hrank
  have hunits := f.units_eq rank
  have hsignificand : 0 < f.significand rank := by
    refine Nat.pos_of_ne_zero fun hzero => ?_
    rw [hzero, Nat.zero_mul] at hunits
    omega
  have hstep : 2 ^ f.exponent rank ≤ f.units rank := hunits ▸ Nat.le_mul_of_pos_left _ hsignificand
  rw [Format.units_succ]
  omega

theorem units_lt_startExponent (f : Format) (rank : Nat) :
    (f.units rank : ℚ) < 10 ^ (Target.ofRank f rank).startExponent * f.one := by
  have hvalue := (Target.ofRank f rank).value_lt_startExponent (Nat.mul_pos Nat.two_pos f.one_pos)
  simp only [Target.ofRank] at hvalue ⊢
  push_cast at hvalue
  linarith

/-- The grid above the first one that is searched has no positive number within reach of the rank. -/
theorem not_nearest_above_start (hrank : 0 < rank) (n : Nat) :
    ¬f.Nearest (n * 10 ^ ((Target.ofRank f rank).startExponent + 1) * f.one) rank := by
  intro hnearest
  have hstart := units_lt_startExponent f rank
  have hunits : (0 : ℚ) < f.units rank := by exact_mod_cast Format.units_pos hrank
  have hnext : (f.units (rank + 1) : ℚ) ≤ 2 * f.units rank := by exact_mod_cast units_succ_le hrank
  have hhigh := hnearest.high
  have hn : n ≠ 0 := fun hzero => hnearest.ne_zero hrank (by rw [hzero, Nat.cast_zero, zero_mul, zero_mul])
  have hone : (1 : ℚ) ≤ n := by exact_mod_cast Nat.one_le_iff_ne_zero.mpr hn
  rw [zpow_add_one₀ (by norm_num)] at hhigh
  have hscaled := mul_le_mul_of_nonneg_right hone (hunits.trans hstart).le
  linarith

theorem not_nearest_next_grid (hrank : 0 < rank) (n : Nat) :
    ¬f.Nearest (n * 10 ^ ((shortest f rank).exponent + 1) * f.one) rank := by
  rw [shortest, if_neg hrank.ne']
  dsimp only
  obtain hfirst | hmissed := (Target.ofRank f rank).search_misses
    ((Target.ofRank f rank).startExponent + f.scale).toNat (Target.ofRank f rank).startExponent
  · rw [hfirst]
    exact not_nearest_above_start hrank n
  · rw [← Target.holds_scaleTo_ofRank]
    exact ((Target.ofRank_proper f hrank).scaleTo _).not_holds_of_nearest?_eq_none hmissed n

/-- No multiple of a larger power of ten than that of the shortest decimal rounds to the same rank. -/
theorem exponent_le_shortest (hrank : 0 < rank) {n : Nat} {exponent : Int}
    (hnearest : f.Nearest (n * 10 ^ exponent * f.one) rank) : exponent ≤ (shortest f rank).exponent := by
  by_contra hlt
  obtain ⟨extra, hextra⟩ : ∃ extra : Nat, exponent = (shortest f rank).exponent + 1 + extra :=
    ⟨(exponent - (shortest f rank).exponent - 1).toNat, by omega⟩
  apply not_nearest_next_grid hrank (n * 10 ^ extra)
  have hvalue : ((n * 10 ^ extra : Nat) * 10 ^ ((shortest f rank).exponent + 1) : ℚ) = n * 10 ^ exponent := by
    rw [hextra, zpow_add₀ (by norm_num) _ (extra : Int), zpow_natCast]
    push_cast
    ring
  rwa [hvalue]

theorem not_ten_dvd_coefficient (hrank : 0 < rank) : ¬10 ∣ (shortest f rank).coefficient := by
  intro hten
  obtain ⟨tenth, htenth⟩ := hten
  have hnearest := (shortest_spec f hrank).1
  have hvalue : (shortest f rank).value = tenth * 10 ^ ((shortest f rank).exponent + 1) := by
    rw [Decimal.value, htenth, zpow_add_one₀ (by norm_num)]
    push_cast
    ring
  rw [hvalue] at hnearest
  have hle := exponent_le_shortest hrank hnearest
  omega

end Reckoner.Decimal
