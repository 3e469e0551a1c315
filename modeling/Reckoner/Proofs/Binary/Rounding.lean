import Mathlib.Algebra.Order.Field.Rat
import Mathlib.Tactic.LinearCombination
import Mathlib.Tactic.Linarith
import Mathlib.Tactic.Positivity
import Mathlib.Tactic.Ring
import Reckoner.Binary.Value

/-!
# Rounding to a format

The values of a format grow with their ranks, by steps that are powers of two and constant within a binade. A rank is nearest to a rational number if that number lies between the midpoints to the two neighbouring ranks, a midpoint belonging to the even rank. Exactly one rank is nearest to a number, it grows with the number, and the rank that rounding a quotient gives is the one nearest to it, cut off at infinity.
-/

namespace Reckoner

/-! ### Halves to the even neighbour -/

section DivHalfEven

variable {n d : Nat}

theorem div_le_divHalfEven (n d : Nat) : n / d ≤ divHalfEven n d := by
  unfold divHalfEven
  dsimp only
  split
  · exact Nat.le_refl _
  · split <;> omega

theorem divHalfEven_le (n d : Nat) : divHalfEven n d ≤ n / d + 1 := by
  unfold divHalfEven
  dsimp only
  split
  · omega
  · split <;> omega

theorem divHalfEven_bounds (hd : 0 < d) :
    2 * (divHalfEven n d * d) ≤ 2 * n + d ∧ 2 * n ≤ 2 * (divHalfEven n d * d) + d := by
  have hn := Nat.div_add_mod' n d
  have hr := Nat.mod_lt n hd
  unfold divHalfEven
  dsimp only
  split
  · omega
  · split
    · rw [Nat.add_mul]
      omega
    · obtain heven | hodd := Nat.mod_two_eq_zero_or_one (n / d)
      · rw [heven, Nat.add_zero]
        omega
      · rw [hodd, Nat.add_mul]
        omega

theorem even_divHalfEven (hd : 0 < d)
    (htie : 2 * (divHalfEven n d * d) = 2 * n + d ∨ 2 * n = 2 * (divHalfEven n d * d) + d) :
    Even (divHalfEven n d) := by
  have hn := Nat.div_add_mod' n d
  have hr := Nat.mod_lt n hd
  revert htie
  unfold divHalfEven
  dsimp only
  split
  · omega
  · split
    · rw [Nat.add_mul]
      omega
    · intro _
      rw [Nat.even_iff]
      omega

end DivHalfEven

namespace Binary

namespace Format

variable {f : Format} {rank other : Nat} {x y : ℚ}

/-! ### The values of the ranks -/

theorem binade_pos (f : Format) : 0 < f.binade := Nat.two_pow_pos _

theorem one_pos (f : Format) : 0 < f.one := Nat.two_pow_pos _

/-- The power of two by which the values grow from a rank to the next. -/
def exponent (f : Format) (rank : Nat) : Nat := rank / f.binade - 1

/-- How many steps of its own binade a rank stands above zero. -/
def significand (f : Format) (rank : Nat) : Nat := rank - f.exponent rank * f.binade

theorem units_add {steps power : Nat} (hsteps : steps ≤ 2 * f.binade) (hfloor : power = 0 ∨ f.binade ≤ steps) :
    f.units (power * f.binade + steps) = steps * 2 ^ power := by
  have hpos := f.binade_pos
  obtain hlow | hmid | rfl : steps < f.binade ∨ (f.binade ≤ steps ∧ steps < 2 * f.binade) ∨
      steps = 2 * f.binade := by omega
  · obtain rfl : power = 0 := by omega
    simp [units, hlow]
  · obtain ⟨extra, rfl⟩ := Nat.exists_eq_add_of_le hmid.1
    have hextra : extra < f.binade := by omega
    have hsplit : power * f.binade + (f.binade + extra) = (power + 1) * f.binade + extra := by ring
    have hge : ¬(power + 1) * f.binade + extra < f.binade := by
      rw [Nat.add_mul]
      omega
    rw [hsplit, units, if_neg hge, Nat.add_comm _ extra, Nat.add_mul_mod_self_right, Nat.mod_eq_of_lt hextra,
      Nat.add_mul_div_right _ _ hpos, Nat.div_eq_of_lt hextra]
    simp
  · have hsplit : power * f.binade + 2 * f.binade = (power + 2) * f.binade := by ring
    have hge : ¬(power + 2) * f.binade < f.binade := by
      rw [Nat.add_mul]
      omega
    rw [hsplit, units, if_neg hge, Nat.mul_mod_left, Nat.mul_div_cancel _ hpos]
    simp [Nat.pow_succ]
    ring

theorem exponent_mul_add_significand (f : Format) (rank : Nat) :
    f.exponent rank * f.binade + f.significand rank = rank := by
  have hle : f.exponent rank * f.binade ≤ rank :=
    (Nat.mul_le_mul_right _ (Nat.sub_le _ 1)).trans (Nat.div_mul_le_self _ _)
  exact Nat.add_sub_cancel' hle

theorem significand_lt (f : Format) (rank : Nat) : f.significand rank < 2 * f.binade := by
  have hrank := Nat.div_add_mod' rank f.binade
  have hmod := Nat.mod_lt rank f.binade_pos
  rw [significand, exponent, Nat.sub_mul]
  omega

theorem binade_le_significand (f : Format) (rank : Nat) : f.exponent rank = 0 ∨ f.binade ≤ f.significand rank := by
  obtain hzero | hpos := Nat.eq_zero_or_pos (f.exponent rank)
  · exact .inl hzero
  · have hle := Nat.div_mul_le_self rank f.binade
    have hone : f.binade ≤ rank / f.binade * f.binade := by
      refine Nat.le_mul_of_pos_left _ ?_
      rw [exponent] at hpos
      omega
    rw [significand, exponent, Nat.sub_mul]
    omega

theorem units_eq (f : Format) (rank : Nat) : f.units rank = f.significand rank * 2 ^ f.exponent rank := by
  have hunits := units_add (f.significand_lt rank).le (f.binade_le_significand rank)
  rwa [exponent_mul_add_significand] at hunits

theorem units_succ (f : Format) (rank : Nat) : f.units (rank + 1) = f.units rank + 2 ^ f.exponent rank := by
  have hfloor : f.exponent rank = 0 ∨ f.binade ≤ f.significand rank + 1 :=
    (f.binade_le_significand rank).imp_right (·.trans (Nat.le_succ _))
  have hunits := units_add (Nat.succ_le_of_lt (f.significand_lt rank)) hfloor
  rw [Nat.succ_eq_add_one, ← Nat.add_assoc, exponent_mul_add_significand] at hunits
  rw [hunits, units_eq, Nat.succ_mul]

theorem units_add_pred {steps power : Nat} (hpos : 0 < steps) (hsteps : steps ≤ 2 * f.binade)
    (hfloor : power = 0 ∨ f.binade < steps) :
    f.units (power * f.binade + steps - 1) + 2 ^ power = f.units (power * f.binade + steps) := by
  have hpred : f.units (power * f.binade + (steps - 1)) = (steps - 1) * 2 ^ power := units_add (by omega) (by omega)
  rw [Nat.add_sub_assoc hpos, hpred, units_add hsteps (hfloor.imp_right Nat.le_of_lt), ← Nat.succ_mul, Nat.succ_eq_add_one,
    Nat.sub_add_cancel hpos]

theorem le_exponent_add {steps power : Nat} (hfloor : power = 0 ∨ f.binade ≤ steps) :
    power ≤ f.exponent (power * f.binade + steps) := by
  obtain rfl | hge := hfloor
  · exact Nat.zero_le _
  · have hdiv : power + 1 ≤ (power * f.binade + steps) / f.binade := by
      rw [Nat.le_div_iff_mul_le f.binade_pos, Nat.succ_mul]
      omega
    rw [exponent]
    omega

@[simp] theorem units_zero (f : Format) : f.units 0 = 0 := by simp [units, f.binade_pos]

theorem units_strictMono (f : Format) : StrictMono f.units := by
  refine strictMono_nat_of_lt_succ fun rank => ?_
  rw [units_succ]
  exact Nat.lt_add_of_pos_right (Nat.two_pow_pos _)

theorem units_pos (hrank : 0 < rank) : 0 < f.units rank := by
  simpa using f.units_strictMono hrank

theorem exists_units_eq (f : Format) {steps : Nat} (hsteps : steps ≤ 2 * f.binade) (power : Nat) :
    ∃ rank, f.units rank = steps * 2 ^ power := by
  induction power generalizing steps with
  | zero => exact ⟨steps, by simpa using units_add (f := f) hsteps (.inl (Eq.refl 0))⟩
  | succ power ih =>
    obtain hlow | hhigh := Nat.lt_or_ge steps f.binade
    · obtain ⟨rank, hrank⟩ := ih (show 2 * steps ≤ 2 * f.binade by omega)
      exact ⟨rank, by rw [hrank]; ring⟩
    · exact ⟨_, units_add hsteps (.inr hhigh)⟩

theorem even_add_iff (hf : 0 < f.fractionBits) (power steps : Nat) : Even (power * f.binade + steps) ↔ Even steps := by
  have hbinade : Even f.binade := (even_two).pow_of_ne_zero hf.ne'
  rw [Nat.even_add]
  simp [hbinade]

theorem even_significand_iff (hf : 0 < f.fractionBits) (rank : Nat) : Even (f.significand rank) ↔ Even rank := by
  rw [← even_add_iff hf (f.exponent rank), exponent_mul_add_significand]

theorem significand_pos_of_odd (hf : 0 < f.fractionBits) (hodd : ¬Even rank) : 0 < f.significand rank := by
  rw [← even_significand_iff hf] at hodd
  exact Nat.pos_of_ne_zero fun hzero => hodd (hzero ▸ Even.zero)

/-! ### The nearest rank -/

/-- A rank nearest to a number of units; the ranks are taken to go on beyond infinity. -/
structure Nearest (f : Format) (x : ℚ) (rank : Nat) : Prop where
  low : (f.units (rank - 1) + f.units rank : ℚ) ≤ 2 * x
  high : 2 * x ≤ f.units rank + f.units (rank + 1)
  even_of_low : 2 * x = f.units (rank - 1) + f.units rank → Even rank
  even_of_high : 2 * x = f.units rank + f.units (rank + 1) → Even rank

theorem Nearest.le_of_le (hx : f.Nearest x rank) (hy : f.Nearest y other) (hle : x ≤ y) : rank ≤ other := by
  by_contra hlt
  have hsteps : f.units other ≤ f.units (rank - 1) ∧ f.units (other + 1) ≤ f.units rank :=
    ⟨f.units_strictMono.monotone (by omega), f.units_strictMono.monotone (by omega)⟩
  have hcast : (f.units other : ℚ) ≤ f.units (rank - 1) ∧ (f.units (other + 1) : ℚ) ≤ f.units rank := by
    exact_mod_cast hsteps
  have hlow := hx.low
  have hhigh := hy.high
  have hother : (f.units other : ℚ) = f.units (rank - 1) := by linarith
  obtain rfl : other = rank - 1 := f.units_strictMono.injective (by exact_mod_cast hother)
  have hrank : rank - 1 + 1 = rank := by omega
  rw [hrank] at hcast hhigh
  have heven := hx.even_of_low (by linarith)
  have hodd := hy.even_of_high (by rw [hrank]; linarith)
  rw [← hrank, Nat.even_add_one] at heven
  exact heven hodd

theorem Nearest.unique (hrank : f.Nearest x rank) (hother : f.Nearest x other) : rank = other :=
  Nat.le_antisymm (hrank.le_of_le hother le_rfl) (hother.le_of_le hrank le_rfl)

theorem Nearest.of_between {z : ℚ} (hx : f.Nearest x rank) (hy : f.Nearest y rank) (hxz : x ≤ z) (hzy : z ≤ y) :
    f.Nearest z rank := by
  have hlow := hx.low
  have hhigh := hy.high
  refine ⟨by linarith, by linarith, fun htie => hx.even_of_low ?_, fun htie => hy.even_of_high ?_⟩
  · exact le_antisymm (by linarith) hlow
  · exact le_antisymm hhigh (by linarith)

theorem nearest_units (f : Format) (rank : Nat) : f.Nearest (f.units rank) rank := by
  have hprev : (f.units (rank - 1) : ℚ) ≤ f.units rank := by
    exact_mod_cast f.units_strictMono.monotone (Nat.sub_le rank 1)
  have hnext : (f.units rank : ℚ) < f.units (rank + 1) := by exact_mod_cast f.units_strictMono rank.lt_succ_self
  refine ⟨by linarith, by linarith, fun htie => ?_, fun htie => by linarith⟩
  have hsame : (f.units rank : ℚ) = f.units (rank - 1) := by linarith
  have : rank = rank - 1 := f.units_strictMono.injective (by exact_mod_cast hsame)
  obtain rfl : rank = 0 := by omega
  exact Even.zero

/-- The step behind a number's nearest rank bounds twice its distance from the value. -/
theorem Nearest.abs_le (hnearest : f.Nearest x rank) : 2 * |x - f.units rank| ≤ 2 ^ f.exponent rank := by
  have hhigh := hnearest.high
  rw [units_succ] at hhigh
  push_cast at hhigh
  have hlow : (f.units rank : ℚ) ≤ f.units (rank - 1) + 2 ^ f.exponent rank := by
    obtain rfl | hpos := Nat.eq_zero_or_pos rank
    · simp
    · have hstep := f.units_succ (rank - 1)
      rw [Nat.sub_add_cancel hpos] at hstep
      have hexponent : f.exponent (rank - 1) ≤ f.exponent rank :=
        Nat.sub_le_sub_right (Nat.div_le_div_right (Nat.sub_le rank 1)) 1
      have hle := Nat.add_le_add_left (Nat.pow_le_pow_right Nat.two_pos hexponent) (f.units (rank - 1))
      rw [← hstep] at hle
      exact_mod_cast hle
  have hlow' := hnearest.low
  obtain hcase | hcase := abs_cases (x - f.units rank) <;> linarith

/-- An odd rank is never the first of a binade, so the steps on its two sides are the same. -/
theorem units_pred_of_odd (hf : 0 < f.fractionBits) (hodd : ¬Even rank) :
    f.units (rank - 1) + 2 ^ f.exponent rank = f.units rank := by
  have hpos := significand_pos_of_odd hf hodd
  rw [← even_significand_iff hf] at hodd
  have hbinade : f.significand rank ≠ f.binade := fun hfirst => hodd (hfirst ▸ (even_two).pow_of_ne_zero hf.ne')
  have hfloor : f.exponent rank = 0 ∨ f.binade < f.significand rank :=
    (f.binade_le_significand rank).imp_right (lt_of_le_of_ne · hbinade.symm)
  have hpred := units_add_pred hpos (f.significand_lt rank).le hfloor
  rwa [exponent_mul_add_significand] at hpred

theorem nearest_iff_of_odd (hf : 0 < f.fractionBits) (hodd : ¬Even rank) :
    f.Nearest x rank ↔ 2 * |x - f.units rank| < 2 ^ f.exponent rank := by
  have hprev : (f.units (rank - 1) : ℚ) = f.units rank - 2 ^ f.exponent rank := by
    rw [← units_pred_of_odd hf hodd]
    push_cast
    ring
  have hnext : (f.units (rank + 1) : ℚ) = f.units rank + 2 ^ f.exponent rank := by
    rw [units_succ]
    push_cast
    ring
  constructor
  · intro hnearest
    have hlow := lt_of_le_of_ne hnearest.low fun htie => hodd (hnearest.even_of_low htie.symm)
    have hhigh := lt_of_le_of_ne hnearest.high fun htie => hodd (hnearest.even_of_high htie)
    obtain hcase | hcase := abs_cases (x - f.units rank) <;> linarith
  · intro hclose
    obtain ⟨hlow, hhigh⟩ : -(2 ^ f.exponent rank / 2 : ℚ) < x - f.units rank ∧
        x - f.units rank < 2 ^ f.exponent rank / 2 := abs_lt.mp (by linarith)
    exact ⟨by linarith, by linarith, fun htie => by linarith, fun htie => by linarith⟩

/-! ### The nearest rank by distance -/

/-- No rank is nearer to a magnitude, and if another one is as near then this one is even. The ranks are taken to go on beyond infinity. -/
def RoundsTo (f : Format) (x : ℚ) (rank : Nat) : Prop :=
  ∀ other, |x - f.units rank / f.one| ≤ |x - f.units other / f.one| ∧
    (|x - f.units rank / f.one| = |x - f.units other / f.one| → other = rank ∨ Even rank)

theorem abs_sub_le_iff_of_lt {low high : ℚ} (hlt : low < high) :
    (|x - high| ≤ |x - low| ↔ low + high ≤ 2 * x) ∧ (|x - low| ≤ |x - high| ↔ 2 * x ≤ low + high) := by
  have hlow := abs_cases (x - low)
  have hhigh := abs_cases (x - high)
  constructor
  · constructor
    · intro hle
      obtain hlow | hlow := hlow <;> obtain hhigh | hhigh := hhigh <;> linarith
    · intro hle
      obtain hlow | hlow := hlow <;> obtain hhigh | hhigh := hhigh <;> linarith
  · constructor
    · intro hle
      obtain hlow | hlow := hlow <;> obtain hhigh | hhigh := hhigh <;> linarith
    · intro hle
      obtain hlow | hlow := hlow <;> obtain hhigh | hhigh := hhigh <;> linarith

theorem abs_sub_units (f : Format) (x : ℚ) (rank : Nat) :
    |x * f.one - f.units rank| = |x - f.units rank / f.one| * f.one := by
  have hone : (0 : ℚ) < f.one := by exact_mod_cast f.one_pos
  rw [← abs_of_pos hone, ← abs_mul, abs_of_pos hone, sub_mul, div_mul_cancel₀ _ hone.ne']

theorem roundsTo_iff_units : f.RoundsTo x rank ↔ ∀ other, |x * f.one - f.units rank| ≤ |x * f.one - f.units other| ∧
    (|x * f.one - f.units rank| = |x * f.one - f.units other| → other = rank ∨ Even rank) := by
  have hone : (0 : ℚ) < f.one := by exact_mod_cast f.one_pos
  simp only [abs_sub_units, mul_le_mul_iff_of_pos_right hone, mul_left_inj' hone.ne']
  rfl

/-- Being nearest is lying between the midpoints to the two neighbours. -/
theorem roundsTo_iff_nearest (hx : 0 ≤ x) : f.RoundsTo x rank ↔ f.Nearest (x * f.one) rank := by
  have hmono {low high : Nat} (hlt : low < high) : (f.units low : ℚ) < f.units high := by
    exact_mod_cast f.units_strictMono hlt
  have hle {low high : Nat} (hle : low ≤ high) : (f.units low : ℚ) ≤ f.units high := by
    exact_mod_cast f.units_strictMono.monotone hle
  have hscaled : 0 ≤ x * f.one := mul_nonneg hx (Nat.cast_nonneg _)
  rw [roundsTo_iff_units]
  generalize x * f.one = x at *
  constructor
  · intro hall
    have hnext := hmono (Nat.lt_add_one rank)
    have hhigh := (abs_sub_le_iff_of_lt hnext).2.mp (hall (rank + 1)).1
    have hhighTie : 2 * x = f.units rank + f.units (rank + 1) → Even rank := by
      intro htie
      have hequal := le_antisymm (hall (rank + 1)).1 ((abs_sub_le_iff_of_lt hnext).1.mpr htie.ge)
      exact ((hall (rank + 1)).2 hequal).resolve_left (by omega)
    obtain rfl | hpos := Nat.eq_zero_or_pos rank
    · exact ⟨by simpa using hscaled, hhigh, fun _ => Even.zero, hhighTie⟩
    · have hprev := hmono (Nat.sub_lt hpos Nat.one_pos)
      refine ⟨(abs_sub_le_iff_of_lt hprev).1.mp (hall (rank - 1)).1, hhigh, fun htie => ?_, hhighTie⟩
      have hequal := le_antisymm (hall (rank - 1)).1 ((abs_sub_le_iff_of_lt hprev).2.mpr htie.le)
      exact ((hall (rank - 1)).2 hequal).resolve_left (by omega)
  · intro hnearest other
    have hlow := hnearest.low
    have hhigh := hnearest.high
    obtain hlt | rfl | hgt := Nat.lt_trichotomy other rank
    · have hbelow := hle (Nat.le_sub_one_of_lt hlt)
      have hfar := abs_sub_le_iff_of_lt (x := x) (hmono hlt)
      refine ⟨hfar.1.mpr (by linarith), fun hequal => .inr (hnearest.even_of_low ?_)⟩
      have hmiddle := hfar.2.mp hequal.ge
      linarith
    · exact ⟨le_rfl, fun _ => .inl rfl⟩
    · have habove := hle (Nat.succ_le_of_lt hgt)
      have hfar := abs_sub_le_iff_of_lt (x := x) (hmono hgt)
      refine ⟨hfar.2.mpr (by linarith), fun hequal => .inr (hnearest.even_of_high ?_)⟩
      have hmiddle := hfar.1.mp hequal.ge
      linarith

/-! ### Rounding a quotient -/

/-- A whole number of steps of a binade is nearest to what it was rounded from, half to even, if that does not lie below the binade. -/
theorem nearest_add (hf : 0 < f.fractionBits) {steps power : Nat} (hsteps : steps ≤ 2 * f.binade)
    (hfloor : power = 0 ∨ f.binade ≤ steps ∧ (f.binade : ℚ) * 2 ^ power ≤ x) (hx : 0 ≤ x)
    (hlow : 2 * (steps * 2 ^ power : ℚ) ≤ 2 * x + 2 ^ power) (hhigh : 2 * x ≤ 2 * (steps * 2 ^ power) + 2 ^ power)
    (htie : 2 * (steps * 2 ^ power : ℚ) = 2 * x + 2 ^ power ∨ 2 * x = 2 * (steps * 2 ^ power) + 2 ^ power →
      Even steps) : f.Nearest x (power * f.binade + steps) := by
  have hparity := even_add_iff hf power steps
  have hvalue : (f.units (power * f.binade + steps) : ℚ) = steps * 2 ^ power := by
    exact_mod_cast units_add hsteps (hfloor.imp_right And.left)
  have hnext : (f.units (power * f.binade + steps) + 2 ^ power : ℚ) ≤ f.units (power * f.binade + steps + 1) := by
    have hstep := Nat.pow_le_pow_right Nat.two_pos (le_exponent_add (hfloor.imp_right And.left))
    rw [units_succ]
    exact_mod_cast Nat.add_le_add_left hstep _
  have hprev : power * f.binade + steps = 0 ∨
      (f.units (power * f.binade + steps - 1) + 2 ^ power : ℚ) = f.units (power * f.binade + steps) ∨
      (f.units (power * f.binade + steps - 1) : ℚ) < f.units (power * f.binade + steps) ∧
        (f.units (power * f.binade + steps) : ℚ) ≤ x := by
    obtain hzero | hpos := Nat.eq_zero_or_pos (power * f.binade + steps)
    · exact .inl hzero
    · by_cases hfirst : power ≠ 0 ∧ steps = f.binade
      · have hbelow : (f.units (power * f.binade + steps - 1) : ℚ) < f.units (power * f.binade + steps) := by
          exact_mod_cast f.units_strictMono (Nat.sub_lt hpos Nat.one_pos)
        have hge := (hfloor.resolve_left hfirst.1).2
        rw [← hfirst.2, ← hvalue] at hge
        exact .inr (.inr ⟨hbelow, hge⟩)
      · have hbinade := f.binade_pos
        have hstepsPos : 0 < steps := by
          obtain rfl | ⟨hge, -⟩ := hfloor <;> omega
        exact .inr (.inl (by exact_mod_cast units_add_pred hstepsPos hsteps (by omega)))
  refine ⟨?_, by linarith, fun hlowTie => ?_, fun hhighTie => ?_⟩
  · obtain hzero | hstep | ⟨hbelow, hge⟩ := hprev
    · simpa [hzero] using hx
    · linarith
    · linarith
  · obtain hzero | hstep | ⟨hbelow, hge⟩ := hprev
    · simp [hzero]
    · exact hparity.mpr (htie (.inl (by linarith)))
    · linarith
  · exact hparity.mpr (htie (.inr (by linarith)))

theorem shift_spec (f : Format) (n : Nat) {d power : Nat} (hd : 0 < d) (hpower : (n / d).log2 - f.fractionBits = power) :
    n < 2 * f.binade * (d * 2 ^ power) ∧ (power = 0 ∨ f.binade * (d * 2 ^ power) ≤ n) := by
  have hsplit : f.binade * (d * 2 ^ power) = 2 ^ (power + f.fractionBits) * d := by
    simp only [binade, Nat.pow_eq]
    ring
  constructor
  · have hlog : n / d < 2 ^ (power + f.fractionBits + 1) :=
      Nat.lt_log2_self.trans_le (Nat.pow_le_pow_right Nat.two_pos (by omega))
    rw [Nat.div_lt_iff_lt_mul hd] at hlog
    rwa [Nat.mul_assoc, hsplit, ← Nat.mul_assoc, ← Nat.pow_succ']
  · obtain hzero | hpos := Nat.eq_zero_or_pos power
    · exact .inl hzero
    · have hbits : (n / d).log2 = power + f.fractionBits := by omega
      have hne : n / d ≠ 0 := by
        intro hzero
        rw [hzero, Nat.log2_zero] at hbits
        omega
      have hlog := Nat.log2_self_le hne
      rw [hbits, Nat.le_div_iff_mul_le hd, ← hsplit] at hlog
      exact .inr hlog

/-- The rank that rounding a quotient gives is the nearest one, cut off at infinity. -/
theorem exists_nearest (f : Format) (hf : 0 < f.fractionBits) (n : Nat) {d : Nat} (hd : 0 < d) :
    ∃ rank, f.Nearest (n / d) rank ∧ f.nearestRank n d = min f.infinity rank := by
  refine ⟨_, ?_, rfl⟩
  generalize hpower : (n / d).log2 - f.fractionBits = power
  have hscaled : 0 < d * 2 ^ power := Nat.mul_pos hd (Nat.two_pow_pos _)
  obtain ⟨hceil, hfloor⟩ := f.shift_spec n hd hpower
  rw [← Nat.div_lt_iff_lt_mul hscaled] at hceil
  have hcastPos : (0 : ℚ) < d := by exact_mod_cast hd
  obtain ⟨hlow, hhigh⟩ := divHalfEven_bounds (n := n) hscaled
  have htie := even_divHalfEven (n := n) hscaled
  have hge := div_le_divHalfEven n (d * 2 ^ power)
  have hle := divHalfEven_le n (d * 2 ^ power)
  change f.Nearest _ (power * f.binade + divHalfEven n (d * 2 ^ power))
  generalize divHalfEven n (d * 2 ^ power) = steps at *
  have hx : (n / d * d : ℚ) = n := div_mul_cancel₀ _ hcastPos.ne'
  refine nearest_add hf (by omega) ?_ (by positivity) ?_ ?_ ?_
  · refine hfloor.imp_right fun hbound => ⟨?_, ?_⟩
    · exact ((Nat.le_div_iff_mul_le hscaled).mpr hbound).trans hge
    · rw [le_div_iff₀ hcastPos]
      exact_mod_cast (show f.binade * 2 ^ power * d ≤ n by linarith)
  · have hcast : (2 * (steps * (d * 2 ^ power)) : ℚ) ≤ 2 * n + d * 2 ^ power := by exact_mod_cast hlow
    exact le_of_mul_le_mul_right (by linarith) hcastPos
  · have hcast : (2 * n : ℚ) ≤ 2 * (steps * (d * 2 ^ power)) + d * 2 ^ power := by exact_mod_cast hhigh
    exact le_of_mul_le_mul_right (by linarith) hcastPos
  · refine fun hequal => htie (hequal.imp (fun hlowTie => ?_) fun hhighTie => ?_)
    · have hcast : (2 * (steps * (d * 2 ^ power)) : ℚ) = 2 * n + d * 2 ^ power := by
        linear_combination d * hlowTie + 2 * hx
      exact_mod_cast hcast
    · have hcast : (2 * n : ℚ) = 2 * (steps * (d * 2 ^ power)) + d * 2 ^ power := by
        linear_combination d * hhighTie - 2 * hx
      exact_mod_cast hcast

end Format

variable {f : Format} {rank : Nat}

theorem rounded_eq_signed (hf : 0 < f.fractionBits) (negative : Bool) {n d : Nat} (hd : 0 < d)
    (hnearest : f.Nearest (n / d) rank) :
    rounded negative n d = signed negative (min f.infinity rank) (Nat.min_le_left ..) := by
  obtain ⟨other, hother, hrank⟩ := f.exists_nearest hf n hd
  obtain rfl := hother.unique hnearest
  simp only [rounded, hrank]

end Binary

end Reckoner
