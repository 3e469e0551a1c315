import Mathlib.Algebra.Order.Monoid.WithTop
import Mathlib.Data.Int.Order.Lemmas
import Mathlib.Order.Bounds.Basic
import Reckoner.Binary.Arithmetic
import Reckoner.Proofs.Binary.Rounding

/-!
# The values of binary numbers

The value of a number is rational or lies beyond all rationals. Ranks with a sign are in the order of the values, with both zeros in the same place, and that order is all that comparisons of numbers need.
-/

namespace Reckoner.Binary

variable {f : Format} {rank : Nat}

/-- Rationals and the two infinities. -/
abbrev Extended := WithBot (WithTop ℚ)

instance : Coe ℚ Extended := ⟨fun x => (x : WithTop ℚ)⟩

theorem Extended.cases (v : Extended) : v = ⊥ ∨ v = ⊤ ∨ ∃ x : ℚ, v = x := by
  cases v using WithBot.recBotCoe with
  | bot => exact .inl rfl
  | coe v =>
    cases v with
    | top => exact .inr (.inl rfl)
    | coe x => exact .inr (.inr ⟨x, rfl⟩)

def value? : Binary f → Option Extended
  | nan => none
  | signed negative rank _ =>
    if rank = f.infinity then some (if negative then ⊥ else ⊤)
    else some ((signedUnits f negative rank / f.one : ℚ) : Extended)

def values (f : Format) : Set Extended := {v | ∃ x : Binary f, x.value? = some v}

/-- The greatest value of a format up to a number, or the least one from it on. -/
def IsNeighbour (f : Format) (x v : Extended) : Prop :=
  IsGreatest (values f ∩ Set.Iic x) v ∨ IsLeast (values f ∩ Set.Ici x) v

theorem IsNeighbour.eq_of_mem {f : Format} {x v : Extended} (hneighbour : IsNeighbour f x v) (hmem : x ∈ values f) :
    v = x := by
  obtain hbelow | habove := hneighbour
  · exact le_antisymm hbelow.1.2 (hbelow.2 ⟨hmem, le_refl x⟩)
  · exact le_antisymm (habove.2 ⟨hmem, le_refl x⟩) habove.1.2

/-- A magnitude with its sign. -/
def withSign (negative : Bool) (magnitude : ℚ) : ℚ := if negative then -magnitude else magnitude

/-- A rank counted downwards if the sign is negative. -/
def signedRank (negative : Bool) (rank : Nat) : Int := if negative then -rank else rank

/-! ### Values in the order of the ranks -/

namespace Format

/-- The value of a signed rank in units. -/
def unitsAt (f : Format) (place : Int) : Int := place.sign * f.units place.natAbs

theorem unitsAt_natCast (f : Format) (rank : Nat) : f.unitsAt rank = f.units rank := by
  obtain rfl | hpos := Nat.eq_zero_or_pos rank
  · simp [unitsAt]
  · have hsign : (rank : Int).sign = 1 := Int.sign_eq_one_of_pos (by omega)
    rw [unitsAt, hsign, Int.natAbs_natCast, one_mul]

theorem unitsAt_neg (f : Format) (place : Int) : f.unitsAt (-place) = -f.unitsAt place := by
  rw [unitsAt, unitsAt, Int.sign_neg, Int.natAbs_neg, neg_mul]

theorem unitsAt_mono (f : Format) {low high : Int} (hle : low ≤ high) : f.unitsAt low ≤ f.unitsAt high := by
  have hmono (a b : Nat) (hab : a ≤ b) : (f.units a : Int) ≤ f.units b := by
    exact_mod_cast f.units_strictMono.monotone hab
  obtain ⟨a, rfl | rfl⟩ := low.eq_nat_or_neg
  · obtain ⟨b, rfl⟩ := Int.eq_ofNat_of_zero_le ((Int.natCast_nonneg a).trans hle)
    rw [unitsAt_natCast, unitsAt_natCast]
    exact hmono a b (by omega)
  · obtain ⟨b, rfl | rfl⟩ := high.eq_nat_or_neg
    · rw [unitsAt_neg, unitsAt_natCast, unitsAt_natCast]
      have ha := Int.natCast_nonneg (f.units a)
      have hb := Int.natCast_nonneg (f.units b)
      omega
    · rw [unitsAt_neg, unitsAt_neg, unitsAt_natCast, unitsAt_natCast]
      exact neg_le_neg (hmono b a (by omega))

/-- The value at a signed rank, infinite from the rank of infinity on. -/
def valueAt (f : Format) (place : Int) : Extended :=
  if place ≤ -f.infinity then ⊥
  else if f.infinity ≤ place then ⊤
  else (f.unitsAt place / f.one : ℚ)

theorem valueAt_mono (f : Format) {low high : Int} (hle : low ≤ high) : f.valueAt low ≤ f.valueAt high := by
  unfold valueAt
  split_ifs
  · exact le_rfl
  · exact bot_le
  · exact bot_le
  · omega
  · exact le_rfl
  · omega
  · omega
  · exact WithBot.coe_le_coe.mpr le_top
  · have hone : (0 : ℚ) < f.one := by exact_mod_cast f.one_pos
    have hunits : (f.unitsAt low : ℚ) ≤ f.unitsAt high := by exact_mod_cast f.unitsAt_mono hle
    exact_mod_cast div_le_div_of_nonneg_right hunits hone.le

theorem valueAt_of_lt {place : Int} (hplace : place.natAbs < f.infinity) :
    f.valueAt place = (f.unitsAt place / f.one : ℚ) := by
  rw [valueAt, if_neg (by omega), if_neg (by omega)]

theorem valueAt_of_le (hinfinity : 0 < f.infinity) (hlarge : f.infinity ≤ rank) (negative : Bool) :
    f.valueAt (signedRank negative rank) = if negative then ⊥ else ⊤ := by
  cases negative with
  | false =>
    show f.valueAt rank = ⊤
    rw [valueAt, if_neg (by omega), if_pos (by omega)]
  | true =>
    show f.valueAt (-rank) = ⊥
    rw [valueAt, if_pos (by omega)]

end Format

theorem signedUnits_eq (f : Format) (negative : Bool) (rank : Nat) :
    signedUnits f negative rank = f.unitsAt (signedRank negative rank) := by
  cases negative with
  | false => exact (f.unitsAt_natCast rank).symm
  | true =>
    show -(f.units rank : Int) = f.unitsAt (-rank)
    rw [Format.unitsAt_neg, Format.unitsAt_natCast]

theorem value?_signed_min (hinfinity : 0 < f.infinity) (negative : Bool) (rank : Nat) :
    value? (signed negative (min f.infinity rank) (Nat.min_le_left ..)) =
      some (f.valueAt (signedRank negative rank)) := by
  obtain hfinite | hlarge := Nat.lt_or_ge rank f.infinity
  · have hplace : (signedRank negative rank).natAbs < f.infinity := by
      cases negative <;> simpa [signedRank] using hfinite
    simp only [min_eq_right hfinite.le]
    rw [value?, if_neg hfinite.ne, signedUnits_eq, Format.valueAt_of_lt hplace]
  · simp only [min_eq_left hlarge]
    rw [value?, if_pos rfl, Format.valueAt_of_le hinfinity hlarge]

/-! ### Rational values -/

variable {x : Binary f} {a : ℚ}

theorem signedUnits_div (f : Format) (negative : Bool) (rank : Nat) :
    (signedUnits f negative rank / f.one : ℚ) = withSign negative (f.units rank / f.one) := by
  cases negative <;> simp [signedUnits, withSign, neg_div]

theorem abs_withSign (negative : Bool) (hnonneg : 0 ≤ a) : |withSign negative a| = a := by
  cases negative with
  | false => exact abs_of_nonneg hnonneg
  | true => exact (abs_neg a).trans (abs_of_nonneg hnonneg)

theorem withSign_abs (a : ℚ) : withSign (decide (a < 0)) |a| = a := by
  obtain hneg | hnonneg := lt_or_ge a 0
  · simp [withSign, hneg, abs_of_neg hneg]
  · simp [withSign, hnonneg.not_gt, abs_of_nonneg hnonneg]

theorem value?_eq_some_iff : value? x = some (a : Extended) ↔
    ∃ negative rank, ∃ hfinite : rank < f.infinity, x = signed negative rank hfinite.le ∧
      (signedUnits f negative rank / f.one : ℚ) = a := by
  constructor
  · intro hvalue
    cases x with
    | nan => cases hvalue
    | signed negative rank hrank =>
      rw [value?] at hvalue
      split_ifs at hvalue with hinfinite hnegative
      · cases Option.some.inj hvalue
      · cases Option.some.inj hvalue
      · have hfinite : rank < f.infinity := lt_of_le_of_ne hrank hinfinite
        exact ⟨negative, rank, hfinite, rfl, by exact_mod_cast Option.some.inj hvalue⟩
  · intro hrank
    obtain ⟨negative, rank, hfinite, rfl, rfl⟩ := hrank
    rw [value?, if_neg hfinite.ne]

theorem value?_of_lt (negative : Bool) (hfinite : rank < f.infinity) :
    value? (signed negative rank hfinite.le) = some ((withSign negative (f.units rank / f.one) : ℚ) : Extended) :=
  value?_eq_some_iff.mpr ⟨negative, rank, hfinite, rfl, signedUnits_div f negative rank⟩

theorem isInfinite_of_value? (hvalue : x.value? = some (a : Extended)) : x.isInfinite = false := by
  obtain ⟨negative, rank, hfinite, rfl, -⟩ := value?_eq_some_iff.mp hvalue
  exact beq_false_of_ne hfinite.ne

theorem mem_values_iff : (a : Extended) ∈ values f ↔ ∃ rank < f.infinity, (f.units rank / f.one : ℚ) = |a| := by
  have hnonneg (rank : Nat) : (0 : ℚ) ≤ f.units rank / f.one := by positivity
  constructor
  · intro hmem
    obtain ⟨x, hvalue⟩ := hmem
    obtain ⟨negative, rank, hfinite, -, rfl⟩ := value?_eq_some_iff.mp hvalue
    exact ⟨rank, hfinite, by rw [signedUnits_div, abs_withSign negative (hnonneg rank)]⟩
  · intro hrank
    obtain ⟨rank, hfinite, hunits⟩ := hrank
    refine ⟨signed (decide (a < 0)) rank hfinite.le, value?_eq_some_iff.mpr ⟨_, rank, hfinite, rfl, ?_⟩⟩
    rw [signedUnits_div, hunits, withSign_abs]

end Reckoner.Binary
