import Reckoner.Proofs.Binary.Values
import Reckoner.Proofs.Decimal.RoundTrip

/-!
# Decimals through a wide format

A decimal that is rounded to a wide format and from there to a narrow one goes to a value of the narrow format next to it. Each of the two roundings keeps the order, and each leaves the values of the narrow format as they are, since the wide format has them all. That is enough: no value of the narrow format can lie between a number and what it is rounded to.
-/

namespace Reckoner.Binary

open Format

variable {f g : Format} {rank other : Nat} {x y : ℚ} {negativeX negativeY : Bool}

namespace Format

/-- A rank that a magnitude is rounded to by way of a wide format. -/
def NearestVia (f g : Format) (x : ℚ) (rank : Nat) : Prop :=
  ∃ wide, g.Nearest (x * g.one) wide ∧ f.Nearest (g.units wide * f.one / g.one) rank

theorem NearestVia.le_of_le (hx : f.NearestVia g x rank) (hy : f.NearestVia g y other) (hle : x ≤ y) :
    rank ≤ other := by
  obtain ⟨wideX, hwideX, hrank⟩ := hx
  obtain ⟨wideY, hwideY, hother⟩ := hy
  have hwide : wideX ≤ wideY := hwideX.le_of_le hwideY (mul_le_mul_of_nonneg_right hle (Nat.cast_nonneg _))
  have hunits : (g.units wideX : ℚ) ≤ g.units wideY := by exact_mod_cast g.units_strictMono.monotone hwide
  apply hrank.le_of_le hother
  gcongr

theorem Widens.exists_units (hwidens : f.Widens g) (rank : Nat) : ∃ wide, g.units wide * f.one = f.units rank * g.one := by
  have hscale := hwidens.scale_le
  have hsteps : f.significand rank ≤ 2 * g.binade := by
    have hlt := f.significand_lt rank
    have hbinade : f.binade ≤ g.binade := Nat.pow_le_pow_right Nat.two_pos hwidens.fractionBits_lt.le
    omega
  obtain ⟨wide, hwide⟩ := g.exists_units_eq hsteps (f.exponent rank + (g.scale - f.scale))
  have hone : 2 ^ (g.scale - f.scale) * f.one = g.one := by
    simp only [one, Nat.pow_eq]
    rw [← Nat.pow_add]
    congr 1
    omega
  exact ⟨wide, by rw [hwide, units_eq, ← hone]; ring⟩

theorem Widens.nearestVia_units (hwidens : f.Widens g) (rank : Nat) : f.NearestVia g (f.units rank / f.one) rank := by
  obtain ⟨wide, hwide⟩ := hwidens.exists_units rank
  have hcast : (g.units wide * f.one : ℚ) = f.units rank * g.one := by exact_mod_cast hwide
  have hnarrow : (f.one : ℚ) ≠ 0 := by exact_mod_cast f.one_pos.ne'
  have hgrain : (g.one : ℚ) ≠ 0 := by exact_mod_cast g.one_pos.ne'
  have hfirst : (f.units rank / f.one * g.one : ℚ) = g.units wide := by
    rw [div_mul_eq_mul_div, ← hcast, mul_div_cancel_right₀ _ hnarrow]
  have hsecond : (g.units wide * f.one / g.one : ℚ) = f.units rank := by
    rw [hcast, mul_div_cancel_right₀ _ hgrain]
  exact ⟨wide, hfirst ▸ g.nearest_units wide, hsecond ▸ f.nearest_units rank⟩

theorem Widens.signedRank_le (hwidens : f.Widens g) (hx : f.NearestVia g x rank) (hy : f.NearestVia g y other)
    (hxNonneg : 0 ≤ x) (hyNonneg : 0 ≤ y) (hle : withSign negativeX x ≤ withSign negativeY y) :
    signedRank negativeX rank ≤ signedRank negativeY other := by
  cases negativeX with
  | false =>
    cases negativeY with
    | false => exact Int.ofNat_le.mpr (hx.le_of_le hy hle)
    | true =>
      have hzero : f.NearestVia g 0 0 := by simpa using hwidens.nearestVia_units 0
      have hle' : x ≤ -y := hle
      have hrank := hx.le_of_le hzero (by linarith)
      have hother := hy.le_of_le hzero (by linarith)
      show (rank : Int) ≤ -other
      omega
  | true =>
    cases negativeY with
    | false =>
      show -(rank : Int) ≤ other
      omega
    | true =>
      have hrank := hy.le_of_le hx (neg_le_neg_iff.mp hle)
      show -(rank : Int) ≤ -other
      omega

/-! ### Rational numbers and the values they are rounded to -/

/-- A value that a number is rounded to by way of a wide format. Both signs will do for zero. -/
def RoundsVia (f g : Format) (x : ℚ) (v : Extended) : Prop :=
  ∃ negative magnitude rank, 0 ≤ magnitude ∧ x = withSign negative magnitude ∧ f.NearestVia g magnitude rank ∧
    v = f.valueAt (signedRank negative rank)

variable {v w : Extended}

theorem RoundsVia.mono (hwidens : f.Widens g) (hx : f.RoundsVia g x v) (hy : f.RoundsVia g y w) (hle : x ≤ y) :
    v ≤ w := by
  obtain ⟨negativeX, magnitudeX, rankX, hnonnegX, rfl, hrankX, rfl⟩ := hx
  obtain ⟨negativeY, magnitudeY, rankY, hnonnegY, rfl, hrankY, rfl⟩ := hy
  exact f.valueAt_mono (hwidens.signedRank_le hrankX hrankY hnonnegX hnonnegY hle)

theorem RoundsVia.mem_values (hinfinity : 0 < f.infinity) (hx : f.RoundsVia g x v) : v ∈ values f := by
  obtain ⟨negative, -, rank, -, -, -, rfl⟩ := hx
  exact ⟨_, value?_signed_min hinfinity negative rank⟩

theorem Widens.roundsVia_of_mem (hwidens : f.Widens g) (hmem : (x : Extended) ∈ values f) : f.RoundsVia g x x := by
  obtain ⟨a, hvalue⟩ := hmem
  obtain ⟨negative, rank, hfinite, rfl, rfl⟩ := value?_eq_some_iff.mp hvalue
  refine ⟨negative, f.units rank / f.one, rank, by positivity, signedUnits_div f negative rank,
    hwidens.nearestVia_units rank, ?_⟩
  have hplace := value?_signed_min (Nat.zero_lt_of_lt hfinite) negative rank
  simp only [min_eq_right hfinite.le] at hplace
  exact Option.some.inj (hvalue.symm.trans hplace)

/-- Where the order and the values are kept, a number goes to a neighbour. -/
theorem RoundsVia.isNeighbour (hwidens : f.Widens g) (hinfinity : 0 < f.infinity) (hx : f.RoundsVia g x v) :
    IsNeighbour f x v := by
  have hmem := hx.mem_values hinfinity
  have hbetween : ∀ w ∈ values f, (w ≤ x → w ≤ v) ∧ ((x : Extended) ≤ w → v ≤ w) := by
    intro w hw
    obtain rfl | rfl | ⟨y, rfl⟩ := Extended.cases w
    · exact ⟨fun _ => bot_le, fun hle => absurd hle (by simp)⟩
    · exact ⟨fun hle => absurd hle (by simp), fun _ => le_top⟩
    · have hy := hwidens.roundsVia_of_mem hw
      exact ⟨fun hle => hy.mono hwidens hx (by exact_mod_cast hle), fun hle => hx.mono hwidens hy (by exact_mod_cast hle)⟩
  obtain hle | hge := le_total v x
  · exact .inl ⟨⟨hmem, hle⟩, fun w hw => (hbetween w hw.1).1 hw.2⟩
  · exact .inr ⟨⟨hmem, hge⟩, fun w hw => (hbetween w hw.1).2 hw.2⟩

end Format

/-! ### Decimals -/

/-- A decimal that goes through the eight-byte format is rounded by way of it, also where it is too large for either format. -/
theorem exists_convert_ofDecimal (negative : Bool) (d : Decimal) : ∃ rank, Format.single.NearestVia .double d.value rank ∧
    (ofDecimal .double negative d).convert .single =
      signed negative (min Format.single.infinity rank) (Nat.min_le_left ..) := by
  obtain ⟨wide, hwide, hread⟩ := exists_ofDecimal (f := .double) (by decide) (by decide) negative d
  obtain ⟨rank, hrank, -⟩ := Format.single.exists_nearest (by decide) (Format.double.units wide * Format.single.one)
    Format.double.one_pos
  rw [Nat.cast_mul] at hrank
  refine ⟨rank, ⟨wide, hwide, hrank⟩, ?_⟩
  rw [hread]
  obtain hfinite | hlarge := Nat.lt_or_ge wide Format.double.infinity
  · obtain ⟨other, hother, hconvert⟩ := exists_convert (g := .single) (by decide) negative hfinite
    obtain rfl := hother.unique hrank
    simpa only [min_eq_right hfinite.le] using hconvert
  · have hinfinite : Format.single.infinity ≤ rank := by
      apply (Format.single.nearest_units Format.single.infinity).le_of_le hrank
      have hgrain : (0 : ℚ) < Format.double.one := by exact_mod_cast Format.double.one_pos
      rw [le_div_iff₀ hgrain]
      have hunits := Format.double.units_strictMono.monotone hlarge
      exact_mod_cast Decimal.units_infinity_lt.le.trans (Nat.mul_le_mul_right _ hunits)
    simp only [min_eq_left hinfinite, min_eq_left hlarge]
    rw [convert, if_pos rfl]
    rfl

theorem exists_value?_convert (negative : Bool) (d : Decimal) : ∃ v,
    ((ofDecimal .double negative d).convert .single).value? = some v ∧
      Format.single.RoundsVia .double (withSign negative d.value) v := by
  obtain ⟨rank, hrank, hconvert⟩ := exists_convert_ofDecimal negative d
  have hnonneg : 0 ≤ d.value := by
    unfold Decimal.value
    positivity
  rw [hconvert]
  exact ⟨_, value?_signed_min (by decide) negative rank, negative, d.value, rank, hnonneg, rfl, hrank, rfl⟩

end Reckoner.Binary
