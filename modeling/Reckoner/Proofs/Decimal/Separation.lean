import Mathlib.Data.Int.Order.Lemmas
import Mathlib.Tactic.Linarith
import Mathlib.Tactic.LinearCombination
import Mathlib.Tactic.Positivity
import Mathlib.Tactic.Ring
import Reckoner.Proofs.Binary.Decimals

/-!
# Decimals close to midpoints

How close a decimal of a given grid can come to an odd multiple of half a step between four-byte numbers is a question about the ratio of the two steps: two successive convergents of the ratio bound from below how far every small multiple of it stays from the whole numbers. For each exponent the convergents are searched for and checked, and all exponents but one have no multiple that comes close. At the remaining one the only close multiple is a convergent itself.
-/

namespace Reckoner.Decimal

/-! ### Convergents of a ratio -/

/-- A fraction close to a ratio, and by how much the ratio misses it. -/
structure Convergent where
  denominator : Nat
  numerator : Nat
  remainder : Nat

namespace Convergent

/-- By how much a fraction misses the ratio of two numbers, multiplied by its denominator. -/
def deviation (n d : Nat) (convergent : Convergent) : Int := convergent.denominator * n - convergent.numerator * d

def after (previous current : Convergent) : Convergent :=
  let quotient := previous.remainder / current.remainder
  ⟨previous.denominator + quotient * current.denominator, previous.numerator + quotient * current.numerator,
    previous.remainder - quotient * current.remainder⟩

/-- The successive convergents of which the second is the first with a denominator above a bound. What is found is checked, so nothing rests on there being fuel enough. -/
def across (bound : Nat) : (fuel : Nat) → (previous current : Convergent) → Convergent × Convergent
  | 0, previous, current => (previous, current)
  | fuel + 1, previous, current =>
    if bound < (previous.after current).denominator then (current, previous.after current)
    else across bound fuel current (previous.after current)

/-- Two fractions with the ratio between them, such that up to a bound only the first `slack` multiples of the one come as close to the ratio as `tolerance` says. -/
structure Encloses (n d bound slack tolerance : Nat) (first second : Convergent) : Prop where
  unimodular : (first.denominator * second.numerator - first.numerator * second.denominator : Int).natAbs = 1
  opposite : first.deviation n d * second.deviation n d ≤ 0
  beyond : bound + slack * first.denominator < second.denominator
  apart : d < (slack + 1) * ((first.deviation n d).natAbs * tolerance)

instance (n d bound slack tolerance : Nat) (first second : Convergent) :
    Decidable (Encloses n d bound slack tolerance first second) :=
  decidable_of_iff (_ ∧ _ ∧ _ ∧ _) ⟨fun h => ⟨h.1, h.2.1, h.2.2.1, h.2.2.2⟩, fun h => ⟨h.1, h.2, h.3, h.4⟩⟩

variable {n d bound slack tolerance multiplier whole : Nat} {first second : Convergent}

theorem natAbs_le_natAbs_add {p q : Int} (hsigns : 0 ≤ p * q) : p.natAbs ≤ (p + q).natAbs := by
  rw [Int.natAbs_le_iff_mul_self_le]
  linarith [mul_self_nonneg q]

/-- Every pair of whole numbers is a whole combination of two fractions that are as close together as fractions can be. -/
theorem exists_combination
    (hunimodular : (first.denominator * second.numerator - first.numerator * second.denominator : Int).natAbs = 1)
    (multiplier whole : Int) : ∃ x y : Int, x * first.denominator + y * second.denominator = multiplier ∧
      x * first.numerator + y * second.numerator = whole := by
  generalize hsign : (first.denominator * second.numerator - first.numerator * second.denominator : Int) = sign at *
  have hsquare : sign * sign = 1 := by
    rw [← Int.natAbs_mul_self, hunimodular]
    rfl
  refine ⟨sign * (multiplier * second.numerator - whole * second.denominator),
    sign * (first.denominator * whole - first.numerator * multiplier), ?_, ?_⟩
  · linear_combination multiplier * hsquare + sign * multiplier * hsign
  · linear_combination whole * hsquare + sign * whole * hsign

/-- A pair of whole numbers as close to the ratio as a few of the first fraction, and with a denominator that is small against the second one, has nothing of the second one. -/
theorem Encloses.exists_multiple (henclose : Encloses n d bound slack tolerance first second) (hpos : 0 < multiplier)
    (hbound : multiplier ≤ bound) (hclose : ((multiplier * n : Int) - whole * d).natAbs * tolerance ≤ d) :
    ∃ times, 1 ≤ times ∧ times ≤ slack ∧
      multiplier = times * first.denominator ∧ whole = times * first.numerator := by
  obtain ⟨x, y, hmultiplier, hwhole⟩ := exists_combination henclose.unimodular multiplier whole
  have hbeyond := henclose.beyond
  have hdeviation : (multiplier * n : Int) - whole * d = x * first.deviation n d + y * second.deviation n d := by
    rw [← hmultiplier, ← hwhole, deviation, deviation]
    ring
  have hx : 0 ≤ (first.denominator : Int) := Int.natCast_nonneg _
  have hsecond : (bound + slack * first.denominator : Int) < second.denominator := by exact_mod_cast hbeyond
  have hsigns : x * y ≤ 0 := by
    by_contra hlt
    obtain ⟨hxpos, hypos⟩ | ⟨hxneg, hyneg⟩ := mul_pos_iff.mp (not_le.mp hlt)
    · nlinarith
    · nlinarith
  have hsmall : x.natAbs ≤ slack := by
    by_contra hlarge
    have hfirst : (x * first.deviation n d).natAbs ≤ ((multiplier * n : Int) - whole * d).natAbs := by
      rw [hdeviation]
      refine natAbs_le_natAbs_add ?_
      calc 0 ≤ (x * y) * (first.deviation n d * second.deviation n d) :=
            mul_nonneg_of_nonpos_of_nonpos hsigns henclose.opposite
        _ = x * first.deviation n d * (y * second.deviation n d) := by ring
    have hmany : (slack + 1) * (first.deviation n d).natAbs * tolerance ≤ d := by
      refine le_trans (Nat.mul_le_mul_right _ ?_) hclose
      rw [Int.natAbs_mul] at hfirst
      exact (Nat.mul_le_mul_right _ (by omega)).trans hfirst
    have hapart := henclose.apart
    rw [← Nat.mul_assoc] at hapart
    omega
  have hfew : x * first.denominator ≤ slack * first.denominator ∧
      -(slack * first.denominator : Int) ≤ x * first.denominator := by
    constructor
    · exact mul_le_mul_of_nonneg_right (by omega) hx
    · rw [← neg_mul]
      exact mul_le_mul_of_nonneg_right (by omega) hx
  have hnone : y = 0 := by
    by_contra hsome
    obtain hneg | hpos := lt_or_gt_of_ne hsome
    · have hstep : (second.denominator : Int) ≤ -y * second.denominator :=
        le_mul_of_one_le_left (by positivity) (by omega)
      linarith
    · have hstep : (second.denominator : Int) ≤ y * second.denominator :=
        le_mul_of_one_le_left (by positivity) (by omega)
      linarith
  rw [hnone, zero_mul, add_zero] at hmultiplier hwhole
  have htimes : 0 < x := pos_of_mul_pos_left (by rw [hmultiplier]; exact_mod_cast hpos) hx
  lift x to Nat using htimes.le
  exact ⟨x, by omega, by omega, by exact_mod_cast hmultiplier.symm, by exact_mod_cast hwhole.symm⟩

/-- Two numbers with a large common factor leave no small deviation but none. -/
theorem lt_natAbs_mul_of_gcd (hcommon : d < n.gcd d * tolerance) (hne : (multiplier * n : Int) - whole * d ≠ 0) :
    d < ((multiplier * n : Int) - whole * d).natAbs * tolerance := by
  have hdvd : ((n.gcd d : Nat) : Int) ∣ multiplier * n - whole * d :=
    Int.dvd_sub ((Int.natCast_dvd_natCast.mpr (n.gcd_dvd_left d)).mul_left _)
      ((Int.natCast_dvd_natCast.mpr (n.gcd_dvd_right d)).mul_left _)
  refine hcommon.trans_le (Nat.mul_le_mul_right _ ?_)
  exact Nat.le_of_dvd (Int.natAbs_pos.mpr hne) (Int.natCast_dvd.mp hdvd)

end Convergent

/-! ### Decimals against four-byte numbers -/

/-- The least power of ten that is not clearly smaller than a step of the given power of two in units of two to the minus 149. -/
def gridExponent (power : Nat) : Int := (((power : Int) - 149) * 30103 - 1) / 100000 + 1

/-- The ratio of that power of ten to half a step, as a numerator over `gridDenominator`. -/
def gridNumerator (power : Nat) : Nat := 10 ^ (gridExponent power).toNat * 2 ^ 150

def gridDenominator (power : Nat) : Nat := 2 ^ power * 10 ^ (-gridExponent power).toNat

/-- How many of the powers of ten are not larger than every number with the given step. -/
def gridBound (power : Nat) : Nat := 2 ^ 25 * gridDenominator power / gridNumerator power

def gridConvergents (power : Nat) : Convergent × Convergent :=
  Convergent.across (gridBound power) 40 ⟨0, 1, gridDenominator power⟩ ⟨1, 0, gridNumerator power⟩

/-- How near a midpoint a decimal has to be for the wide number nearest to it to be the midpoint itself, as a part of half a step. -/
def midpointTolerance : Nat := 2 ^ 29

/-- A finer grid has steps that are clearly smaller, and multiples of a step of this grid close to a midpoint are excluded but for some of one convergent. -/
def Separated (power slack : Nat) : Prop :=
  gridNumerator power * midpointTolerance < 20 * gridDenominator power * (midpointTolerance - 1) ∧
    (gridDenominator power < (gridNumerator power).gcd (gridDenominator power) * midpointTolerance ∨
      Convergent.Encloses (gridNumerator power) (gridDenominator power) (gridBound power) slack midpointTolerance
        (gridConvergents power).1 (gridConvergents power).2)

instance (power slack : Nat) : Decidable (Separated power slack) := instDecidableAnd

theorem separated : ∀ power < 254, Separated power (if power = 42 then 2 else 0) := by
  decide +kernel

theorem gridConvergents_exceptional : (gridConvergents 42).1.numerator = 22841339 := by
  decide +kernel

theorem exists_gridFactor (power : Nat) : ∃ factor : ℚ, 0 < factor ∧
    (gridNumerator power : ℚ) = 10 ^ gridExponent power * 2 ^ 150 * factor ∧
      (gridDenominator power : ℚ) = 2 ^ power * factor := by
  refine ⟨10 ^ (-gridExponent power).toNat, by positivity, ?_, by simp [gridDenominator]⟩
  have hsplit : (10 : ℚ) ^ (gridExponent power).toNat = 10 ^ gridExponent power * 10 ^ (-gridExponent power).toNat := by
    rw [← zpow_natCast, ← zpow_natCast, ← zpow_add₀ (by decide)]
    congr 1
    omega
  rw [gridNumerator, Nat.cast_mul, Nat.cast_pow, Nat.cast_ofNat, hsplit]
  push_cast
  ring

theorem gridExponent_le {power : Nat} (hpower : power < 254) {exponent : Int}
    (hgrid : 2 ^ power * (midpointTolerance - 1 : ℚ) ≤ 10 ^ exponent * 2 ^ 149 * midpointTolerance) :
    gridExponent power ≤ exponent := by
  obtain ⟨factor, hfactor, hnumerator, hdenominator⟩ := exists_gridFactor power
  by_contra hlt
  have hfine : (gridNumerator power * midpointTolerance : ℚ) < 20 * gridDenominator power * (midpointTolerance - 1) := by
    have hcast : ((midpointTolerance - 1 : Nat) : ℚ) = midpointTolerance - 1 := by norm_num [midpointTolerance]
    rw [← hcast]
    exact_mod_cast (separated power hpower).1
  rw [hnumerator, hdenominator] at hfine
  have hten : (10 : ℚ) ^ exponent * 10 ≤ 10 ^ gridExponent power := by
    rw [← zpow_add_one₀ (by decide)]
    exact zpow_le_zpow_right₀ (by decide) (by omega)
  have hstrict : (10 : ℚ) ^ gridExponent power * 2 ^ 150 * midpointTolerance < 20 * 2 ^ power * (midpointTolerance - 1) :=
    lt_of_mul_lt_mul_right (by linarith) hfactor.le
  have hscaled := mul_le_mul_of_nonneg_right hten (show (0 : ℚ) ≤ 2 ^ 150 * midpointTolerance by positivity)
  linarith

theorem value_eq_mul {d : Decimal} {exponent : Int} (hexponent : exponent ≤ d.exponent) :
    d.value = (d.coefficient * 10 ^ (d.exponent - exponent).toNat : Nat) * 10 ^ exponent := by
  have hsplit : (10 : ℚ) ^ d.exponent = 10 ^ (d.exponent - exponent).toNat * 10 ^ exponent := by
    rw [← zpow_natCast, ← zpow_add₀ (by decide)]
    congr 1
    omega
  rw [value, hsplit]
  push_cast
  ring

/-- A decimal that comes close to a whole number of half steps is exceptional. -/
theorem eq_of_close {power : Nat} (hpower : power < 254) {d : Decimal} (hpos : 0 < d.coefficient) {whole : Nat}
    (hgrid : 2 ^ power * (midpointTolerance - 1 : ℚ) ≤ 10 ^ d.exponent * 2 ^ 149 * midpointTolerance)
    (hsize : d.value * 2 ^ 150 ≤ 2 ^ 25 * 2 ^ power) (hne : d.value * 2 ^ 150 ≠ whole * 2 ^ power)
    (hclose : |d.value * 2 ^ 150 - (whole * 2 ^ power : ℚ)| * (midpointTolerance : ℚ) ≤ 2 ^ power) :
    power = 42 ∧ ∃ times, times ≤ 2 ∧ whole = times * 22841339 := by
  obtain ⟨factor, hfactor, hnumerator, hdenominator⟩ := exists_gridFactor power
  have hexponent := gridExponent_le hpower hgrid
  have hvalue := value_eq_mul hexponent
  generalize hmultiplier : d.coefficient * 10 ^ (d.exponent - gridExponent power).toNat = multiplier at hvalue
  have hmultiplierPos : 0 < multiplier := by
    rw [← hmultiplier]
    exact Nat.mul_pos hpos (Nat.pow_pos (by decide))
  have hdeviation : ((multiplier * gridNumerator power - whole * gridDenominator power : Int) : ℚ) =
      (d.value * 2 ^ 150 - whole * 2 ^ power) * factor := by
    push_cast
    rw [hnumerator, hdenominator, hvalue]
    ring
  have hdeviationNe : (multiplier * gridNumerator power - whole * gridDenominator power : Int) ≠ 0 := by
    rw [← Int.cast_ne_zero (α := ℚ), hdeviation]
    exact mul_ne_zero (sub_ne_zero.mpr hne) hfactor.ne'
  have hdeviationClose : (multiplier * gridNumerator power - whole * gridDenominator power : Int).natAbs *
      midpointTolerance ≤ gridDenominator power := by
    have hscaled := mul_le_mul_of_nonneg_right hclose hfactor.le
    rw [mul_right_comm, ← abs_of_pos hfactor, ← abs_mul, ← hdeviation, abs_of_pos hfactor, ← hdenominator] at hscaled
    rw [← Nat.cast_le (α := ℚ), Nat.cast_mul, Nat.cast_natAbs]
    exact_mod_cast hscaled
  have hbound : multiplier ≤ gridBound power := by
    have hscaled := mul_le_mul_of_nonneg_right hsize hfactor.le
    have hcast : (multiplier * gridNumerator power : ℚ) ≤ 2 ^ 25 * gridDenominator power := by
      rw [hnumerator, hdenominator]
      rw [hvalue] at hscaled
      linarith
    have hnumeratorPos : 0 < gridNumerator power := Nat.mul_pos (Nat.pow_pos (by decide)) (Nat.pow_pos (by decide))
    rw [gridBound, Nat.le_div_iff_mul_le hnumeratorPos]
    exact_mod_cast hcast
  obtain hcommon | henclose := (separated power hpower).2
  · exact absurd hdeviationClose (Convergent.lt_natAbs_mul_of_gcd hcommon hdeviationNe).not_ge
  · obtain ⟨times, hone, htimes, -, hwhole⟩ := henclose.exists_multiple hmultiplierPos hbound hdeviationClose
    by_cases hexceptional : power = 42
    · subst hexceptional
      rw [gridConvergents_exceptional] at hwhole
      exact ⟨rfl, times, htimes, hwhole⟩
    · rw [if_neg hexceptional] at htimes
      omega

end Reckoner.Decimal
