import Mathlib.Algebra.Order.Group.Abs
import Mathlib.Tactic.FieldSimp
import Reckoner.Decimal.Shortest
import Reckoner.Proofs.Binary.Decimals

/-!
# Shortest decimals round to their rank

The search for the shortest decimal ends on a decimal that the rank is nearest to, and none of the others on the same grid of powers of ten that round to the rank lies closer to its value.
-/

namespace Reckoner.Decimal

open Binary

variable {f : Format} {rank : Nat} {exponent : Int}

namespace Target

variable {target : Target} {coefficient n m : Nat}

structure Proper (target : Target) : Prop where
  low_lt : target.low < target.value
  lt_high : target.value < target.high
  denominator_pos : 0 < target.denominator

theorem holds_iff : target.holds n = true ↔
    if target.closed then target.low ≤ n * target.denominator ∧ n * target.denominator ≤ target.high
    else target.low < n * target.denominator ∧ n * target.denominator < target.high := by
  unfold holds
  split <;> simp

theorem Proper.holds_of_between (hproper : target.Proper) (hn : target.holds n = true)
    (hbetween : n * target.denominator ≤ m * target.denominator ∧ m * target.denominator ≤ target.value ∨
      target.value ≤ m * target.denominator ∧ m * target.denominator ≤ n * target.denominator) :
    target.holds m = true := by
  have hlow := hproper.low_lt
  have hhigh := hproper.lt_high
  rw [holds_iff] at hn ⊢
  by_cases hclosed : target.closed = true
  · rw [if_pos hclosed] at hn ⊢
    omega
  · rw [if_neg hclosed] at hn ⊢
    omega

def distance (target : Target) (n : Nat) : Nat := Int.natAbs ((n * target.denominator : Nat) - (target.value : Int))

theorem distance_divHalfEven_le (hdenominator : 0 < target.denominator) (n : Nat) :
    target.distance (divHalfEven target.value target.denominator) ≤ target.distance n := by
  obtain ⟨hlow, hhigh⟩ := divHalfEven_bounds (n := target.value) hdenominator
  simp only [distance]
  generalize divHalfEven target.value target.denominator = nearest at *
  obtain hlt | rfl | hgt := Nat.lt_trichotomy n nearest
  · have hstep := Nat.mul_le_mul_right target.denominator (Nat.succ_le_of_lt hlt)
    rw [Nat.succ_mul] at hstep
    omega
  · exact Nat.le_refl _
  · have hstep := Nat.mul_le_mul_right target.denominator (Nat.succ_le_of_lt hgt)
    rw [Nat.succ_mul] at hstep
    omega

theorem Proper.below (hproper : target.Proper) (hn : target.holds n = true)
    (hle : n ≤ target.value / target.denominator) :
    target.holds (target.value / target.denominator) = true ∧
      target.distance (target.value / target.denominator) ≤ target.distance n := by
  have hfloor := Nat.div_mul_le_self target.value target.denominator
  have hstep := Nat.mul_le_mul_right target.denominator hle
  refine ⟨hproper.holds_of_between hn (.inl ⟨hstep, hfloor⟩), ?_⟩
  simp only [distance]
  omega

theorem Proper.above (hproper : target.Proper) (hn : target.holds n = true)
    (hlt : target.value / target.denominator < n) :
    target.holds (target.value / target.denominator + 1) = true ∧
      target.distance (target.value / target.denominator + 1) ≤ target.distance n := by
  have hceil := Nat.lt_mul_of_div_lt (Nat.lt_succ_self (target.value / target.denominator)) hproper.denominator_pos
  have hstep := Nat.mul_le_mul_right target.denominator (Nat.succ_le_of_lt hlt)
  rw [Nat.succ_eq_add_one] at hceil
  refine ⟨hproper.holds_of_between hn (.inr ⟨hceil.le, hstep⟩), ?_⟩
  rw [Nat.succ_eq_add_one] at hstep
  simp only [distance]
  omega

/-- The neighbour that is taken lies in the interval, and no other number of the interval is closer to the value. -/
theorem Proper.nearest?_spec (hproper : target.Proper) (hsome : target.nearest? = some coefficient) :
    target.holds coefficient = true ∧
      ∀ n, target.holds n = true → target.distance coefficient ≤ target.distance n := by
  have hbelow := fun n hn => hproper.below (n := n) hn
  have habove := fun n hn => hproper.above (n := n) hn
  have hclosest := distance_divHalfEven_le hproper.denominator_pos
  have hge := div_le_divHalfEven target.value target.denominator
  have hle := divHalfEven_le target.value target.denominator
  unfold nearest? at hsome
  dsimp only at hsome
  generalize target.value / target.denominator = below at *
  by_cases hfirst : target.holds below = true
  · rw [if_pos hfirst] at hsome
    by_cases hsecond : target.holds (below + 1) = true
    · rw [if_pos hsecond] at hsome
      obtain rfl := Option.some.inj hsome
      refine ⟨?_, fun n _ => hclosest n⟩
      obtain hsame | hsame : divHalfEven target.value target.denominator = below ∨
          divHalfEven target.value target.denominator = below + 1 := by omega
      · rwa [hsame]
      · rwa [hsame]
    · rw [if_neg hsecond] at hsome
      obtain rfl := Option.some.inj hsome
      refine ⟨hfirst, fun n hn => ?_⟩
      obtain hnle | hnlt := le_or_gt n below
      · exact (hbelow n hn hnle).2
      · exact absurd (habove n hn hnlt).1 hsecond
  · rw [if_neg hfirst] at hsome
    by_cases hsecond : target.holds (below + 1) = true
    · rw [if_pos hsecond] at hsome
      obtain rfl := Option.some.inj hsome
      refine ⟨hsecond, fun n hn => ?_⟩
      obtain hnle | hnlt := le_or_gt n below
      · exact absurd (hbelow n hn hnle).1 hfirst
      · exact (habove n hn hnlt).2
    · rw [if_neg hsecond] at hsome
      cases hsome

/-! ### Scaled targets -/

/-- Measuring in a power of ten multiplies a target by a number, and its denominator by the power of ten as well. -/
theorem exists_scaleTo (target : Target) (exponent : Int) : ∃ factor : Nat, 0 < factor ∧
    (target.scaleTo exponent).closed = target.closed ∧
    (target.scaleTo exponent).value = target.value * factor ∧ (target.scaleTo exponent).low = target.low * factor ∧
    (target.scaleTo exponent).high = target.high * factor ∧
    ((target.scaleTo exponent).denominator : ℚ) = target.denominator * (10 ^ exponent * factor) := by
  obtain hnonneg | hneg := le_or_gt 0 exponent
  · lift exponent to Nat using hnonneg
    refine ⟨1, Nat.one_pos, ?_⟩
    simp [scaleTo]
  · obtain ⟨power, rfl⟩ : ∃ power : Nat, exponent = -power := ⟨exponent.natAbs, by omega⟩
    refine ⟨10 ^ power, Nat.pow_pos (by decide), ?_⟩
    rw [scaleTo, if_neg hneg.not_ge, Int.natAbs_neg, Int.natAbs_natCast]
    simp

theorem Proper.scaleTo (hproper : target.Proper) (exponent : Int) : (target.scaleTo exponent).Proper := by
  obtain ⟨factor, hfactor, -, hvalue, hlow, hhigh, hdenominator⟩ := target.exists_scaleTo exponent
  refine ⟨?_, ?_, ?_⟩
  · rw [hlow, hvalue]
    exact Nat.mul_lt_mul_of_pos_right hproper.low_lt hfactor
  · rw [hhigh, hvalue]
    exact Nat.mul_lt_mul_of_pos_right hproper.lt_high hfactor
  · have hpos := hproper.denominator_pos
    have hcast : (0 : ℚ) < (target.scaleTo exponent).denominator := by
      rw [hdenominator]
      positivity
    exact_mod_cast hcast

/-- A search ends on a hit of the grid of its exponent, or on the last grid with the value rounded down. -/
theorem search_cases (target : Target) (steps : Nat) (exponent : Int) :
    let found := target.search steps exponent
    (target.scaleTo found.exponent).nearest? = some found.coefficient ∨
      found.exponent = exponent - steps ∧
        found.coefficient = (target.scaleTo found.exponent).value / (target.scaleTo found.exponent).denominator := by
  induction steps generalizing exponent with
  | zero => exact .inr ⟨by simp [search], rfl⟩
  | succ steps ih =>
    rw [search]
    split
    · exact .inl (by assumption)
    · obtain hhit | ⟨hlast, hcoefficient⟩ := ih (exponent - 1)
      · exact .inl hhit
      · refine .inr ⟨?_, hcoefficient⟩
        rw [hlast]
        push_cast
        ring

/-! ### Targets of ranks -/

theorem ofRank_proper (f : Format) (hrank : 0 < rank) : (ofRank f rank).Proper := by
  have hprev := f.units_strictMono (Nat.sub_lt hrank Nat.one_pos)
  have hnext := f.units_strictMono (Nat.lt_add_one rank)
  refine ⟨?_, ?_, Nat.mul_pos Nat.two_pos f.one_pos⟩
  · show f.units (rank - 1) + f.units rank < 2 * f.units rank
    omega
  · show 2 * f.units rank < f.units rank + f.units (rank + 1)
    omega

theorem holds_scaleTo_ofRank :
    ((ofRank f rank).scaleTo exponent).holds n = true ↔ f.Nearest (n * 10 ^ exponent * f.one) rank := by
  obtain ⟨factor, hfactor, hclosed, -, hlow, hhigh, hdenominator⟩ := (ofRank f rank).exists_scaleTo exponent
  generalize (ofRank f rank).scaleTo exponent = target at *
  have hpos : (0 : ℚ) < factor := by exact_mod_cast hfactor
  have hx : ((n * target.denominator : Nat) : ℚ) = 2 * (n * 10 ^ exponent * f.one) * factor := by
    rw [Nat.cast_mul, hdenominator]
    simp only [ofRank]
    push_cast
    ring
  have hlow' : (target.low : ℚ) = (f.units (rank - 1) + f.units rank) * factor := by
    rw [hlow]
    simp only [ofRank]
    push_cast
    rfl
  have hhigh' : (target.high : ℚ) = (f.units rank + f.units (rank + 1)) * factor := by
    rw [hhigh]
    simp only [ofRank]
    push_cast
    rfl
  generalize (n * 10 ^ exponent * f.one : ℚ) = x at *
  rw [holds_iff, hclosed]
  simp only [← Nat.cast_le (α := ℚ), ← Nat.cast_lt (α := ℚ), hx, hlow', hhigh', mul_le_mul_iff_of_pos_right hpos,
    mul_lt_mul_iff_of_pos_right hpos]
  by_cases heven : Even rank
  · rw [if_pos (by simpa [ofRank, Nat.even_iff] using heven)]
    exact ⟨fun h => ⟨h.1, h.2, fun _ => heven, fun _ => heven⟩, fun h => ⟨h.low, h.high⟩⟩
  · rw [if_neg (by simpa [ofRank, Nat.even_iff] using heven)]
    refine ⟨fun h => ⟨h.1.le, h.2.le, fun htie => absurd htie h.1.ne', fun htie => absurd htie h.2.ne⟩, fun h => ?_⟩
    exact ⟨lt_of_le_of_ne h.low fun htie => heven (h.even_of_low htie.symm),
      lt_of_le_of_ne h.high fun htie => heven (h.even_of_high htie)⟩

theorem distance_scaleTo_ofRank (f : Format) (rank : Nat) (exponent : Int) : ∃ factor : ℚ, 0 < factor ∧
    ∀ n, (((ofRank f rank).scaleTo exponent).distance n : ℚ) =
      |(n : ℚ) * 10 ^ exponent * f.one - f.units rank| * factor := by
  obtain ⟨factor, hfactor, -, hvalue, -, -, hdenominator⟩ := (ofRank f rank).exists_scaleTo exponent
  generalize (ofRank f rank).scaleTo exponent = target at *
  have hpos : (0 : ℚ) < 2 * factor := by positivity
  refine ⟨2 * factor, hpos, fun n => ?_⟩
  rw [distance, Nat.cast_natAbs, hvalue, ← abs_of_pos hpos, ← abs_mul]
  push_cast
  rw [hdenominator]
  simp only [ofRank]
  push_cast
  congr 1
  ring

end Target

/-! ### The decimal that is found -/

theorem denominator_dvd_value (f : Format) (rank : Nat) (hexponent : exponent ≤ -f.scale) :
    ((Target.ofRank f rank).scaleTo exponent).denominator ∣ ((Target.ofRank f rank).scaleTo exponent).value := by
  obtain ⟨power, rfl⟩ := Int.exists_eq_neg_ofNat (show exponent ≤ 0 by omega)
  have hpower : f.scale ≤ power := by omega
  have hone : f.one ∣ 10 ^ power :=
    (Nat.pow_dvd_pow 2 hpower).trans (pow_dvd_pow_of_dvd (show 2 ∣ 10 by decide) power)
  obtain hzero | hneg := Nat.eq_zero_or_pos power
  · obtain hscale : f.scale = 0 := by omega
    simp [hzero, Target.scaleTo, Target.ofRank, Format.one, hscale]
  · rw [Target.scaleTo, if_neg (by omega), Int.natAbs_neg, Int.natAbs_natCast]
    exact (Nat.mul_dvd_mul_left 2 hone).trans ⟨f.units rank, by simp [Target.ofRank]; ring⟩

/-- The shortest decimal rounds to its rank, and no decimal on its grid that rounds to the rank is closer to its value. -/
theorem shortest_spec (f : Format) (hrank : 0 < rank) :
    f.Nearest ((shortest f rank).value * f.one) rank ∧
      ∀ n : Nat, f.Nearest (n * 10 ^ (shortest f rank).exponent * f.one) rank →
        |(shortest f rank).value * f.one - f.units rank| ≤
          |(n : ℚ) * 10 ^ (shortest f rank).exponent * f.one - f.units rank| := by
  rw [shortest, if_neg hrank.ne']
  dsimp only
  have hcases := (Target.ofRank f rank).search_cases ((Target.ofRank f rank).startExponent + f.scale).toNat
    (Target.ofRank f rank).startExponent
  generalize (Target.ofRank f rank).search _ _ = found at hcases ⊢
  obtain ⟨factor, hfactor, hdistance⟩ := Target.distance_scaleTo_ofRank f rank found.exponent
  have hproper := (Target.ofRank_proper f hrank).scaleTo found.exponent
  simp only [Decimal.value]
  obtain hhit | ⟨hlast, hcoefficient⟩ := hcases
  · obtain ⟨hholds, hclosest⟩ := hproper.nearest?_spec hhit
    refine ⟨Target.holds_scaleTo_ofRank.mp hholds, fun n hn => ?_⟩
    have hle : (((Target.ofRank f rank).scaleTo found.exponent).distance found.coefficient : ℚ) ≤
        ((Target.ofRank f rank).scaleTo found.exponent).distance n := by
      exact_mod_cast hclosest n (Target.holds_scaleTo_ofRank.mpr hn)
    rw [hdistance, hdistance] at hle
    exact le_of_mul_le_mul_right hle hfactor
  · have hgrid : found.exponent ≤ -f.scale := by omega
    have hexact := Nat.div_mul_cancel (denominator_dvd_value f rank hgrid)
    rw [← hcoefficient] at hexact
    have hzero : ((Target.ofRank f rank).scaleTo found.exponent).distance found.coefficient = 0 := by
      simp [Target.distance, hexact]
    have habs := hdistance found.coefficient
    rw [hzero, Nat.cast_zero, eq_comm, mul_eq_zero, or_iff_left hfactor.ne', abs_eq_zero, sub_eq_zero] at habs
    rw [habs]
    exact ⟨f.nearest_units rank, fun n _ => by simp⟩

theorem coefficient_shortest_pos (hrank : 0 < rank) : 0 < (shortest f rank).coefficient := by
  refine Nat.pos_of_ne_zero fun hzero => (shortest_spec f hrank).1.ne_zero hrank ?_
  rw [Decimal.value, hzero, Nat.cast_zero, zero_mul, zero_mul]

end Reckoner.Decimal
