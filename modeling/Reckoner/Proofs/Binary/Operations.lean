import Mathlib.Tactic.FieldSimp
import Reckoner.Proofs.Binary.Values

/-!
# Operations, rounded once

What the operations give, said of rational numbers: the exact sum, difference, product or quotient of two finite numbers is rounded to the nearest number of the format, once, halves to the even one. Infinities, zeros and what is not a number have rules of their own.
-/

namespace Reckoner.Binary

open Format

variable {f : Format} {x y z : Binary f}

/-- What a number stands for. Zero and the infinities have signs. -/
inductive Meaning where
  | nan
  | infinite (negative : Bool)
  | finite (negative : Bool) (value : ℚ)

def Meaning.neg : Meaning → Meaning
  | nan => nan
  | infinite negative => infinite (!negative)
  | finite negative value => finite (!negative) (-value)

def Meaning.IsZero : Meaning → Prop
  | finite _ value => value = 0
  | _ => False

def Meaning.IsInfinite : Meaning → Prop
  | infinite _ => True
  | _ => False

instance : (meaning : Meaning) → Decidable meaning.IsZero
  | .finite _ value => inferInstanceAs (Decidable (value = 0))
  | .infinite _ => inferInstanceAs (Decidable False)
  | .nan => inferInstanceAs (Decidable False)

instance : (meaning : Meaning) → Decidable meaning.IsInfinite
  | .infinite _ => inferInstanceAs (Decidable True)
  | .finite _ _ => inferInstanceAs (Decidable False)
  | .nan => inferInstanceAs (Decidable False)

def meaning : Binary f → Meaning
  | nan => .nan
  | signed negative rank _ =>
    if rank = f.infinity then .infinite negative else .finite negative (withSign negative (f.units rank / f.one))

/-- The number nearest to a rational, infinite from where one more rank would be. The sign of zero is given. -/
def Rounds (a : ℚ) (zeroNegative : Bool) (z : Binary f) : Prop :=
  ∃ rank, f.RoundsTo |a| rank ∧
    z = signed (if a = 0 then zeroNegative else decide (a < 0)) (min f.infinity rank) (Nat.min_le_left ..)

def IsSum (x y z : Binary f) : Prop :=
  match x.meaning, y.meaning with
  | .nan, _ => z = nan
  | _, .nan => z = nan
  | .infinite m, .infinite n => z = if m = n then infinity m else nan
  | .infinite m, .finite _ _ => z = infinity m
  | .finite _ _, .infinite n => z = infinity n
  | .finite m a, .finite n b => Rounds (a + b) (m && n) z

def IsDifference (x y z : Binary f) : Prop :=
  match x.meaning, y.meaning with
  | .nan, _ => z = nan
  | _, .nan => z = nan
  | .infinite m, .infinite n => z = if m = n then nan else infinity m
  | .infinite m, .finite _ _ => z = infinity m
  | .finite _ _, .infinite n => z = infinity (!n)
  | .finite m a, .finite n b => Rounds (a - b) (m && !n) z

def IsProduct (x y z : Binary f) : Prop :=
  match x.meaning, y.meaning with
  | .nan, _ => z = nan
  | _, .nan => z = nan
  | .infinite m, .infinite n => z = infinity (m ^^ n)
  | .infinite m, .finite n b => z = if b = 0 then nan else infinity (m ^^ n)
  | .finite m a, .infinite n => z = if a = 0 then nan else infinity (m ^^ n)
  | .finite m a, .finite n b => Rounds (a * b) (m ^^ n) z

def IsQuotient (x y z : Binary f) : Prop :=
  match x.meaning, y.meaning with
  | .nan, _ => z = nan
  | _, .nan => z = nan
  | .infinite _, .infinite _ => z = nan
  | .infinite m, .finite n _ => z = infinity (m ^^ n)
  | .finite m _, .infinite n => z = zero (m ^^ n)
  | .finite m a, .finite n b =>
    if b = 0 then z = if a = 0 then nan else infinity (m ^^ n) else Rounds (a / b) (m ^^ n) z

/-! ### Rounding -/

@[simp] theorem withSign_zero (negative : Bool) : withSign negative 0 = 0 := by cases negative <;> simp [withSign]

theorem withSign_mul (m n : Bool) (a b : ℚ) : withSign m a * withSign n b = withSign (m ^^ n) (a * b) := by
  cases m <;> cases n <;> simp [withSign]

theorem withSign_div (m n : Bool) (a b : ℚ) : withSign m a / withSign n b = withSign (m ^^ n) (a / b) := by
  cases m <;> cases n <;> simp [withSign, div_neg, neg_div]

theorem withSign_eq_zero_iff {negative : Bool} {rank : Nat} :
    withSign negative (f.units rank / f.one) = 0 ↔ rank = 0 := by
  have hone : (f.one : ℚ) ≠ 0 := by exact_mod_cast f.one_pos.ne'
  have hunits : f.units rank = 0 ↔ rank = 0 :=
    ⟨fun hzero => f.units_strictMono.injective (hzero.trans f.units_zero.symm), fun hzero => by rw [hzero, f.units_zero]⟩
  cases negative <;> simp [withSign, hone, hunits]

theorem isInfinite_meaning : x.meaning.IsInfinite ↔ x.isInfinite = true := by
  cases x with
  | nan => simp [meaning, Meaning.IsInfinite, isInfinite]
  | signed m rank hrank => by_cases hinfinite : rank = f.infinity <;> simp [meaning, Meaning.IsInfinite, isInfinite, hinfinite]

theorem isZero_meaning (hinfinity : 0 < f.infinity) : x.meaning.IsZero ↔ x.isZero = true := by
  cases x with
  | nan => simp [meaning, Meaning.IsZero, isZero]
  | signed m rank hrank =>
    by_cases hinfinite : rank = f.infinity
    · simp [meaning, Meaning.IsZero, isZero, hinfinite, hinfinity.ne']
    · simp [meaning, Meaning.IsZero, isZero, hinfinite, withSign_eq_zero_iff]

theorem isFinite_iff : x.isFinite = true ↔ ∃ negative a, x.meaning = .finite negative a := by
  cases x with
  | nan => simp [meaning, isFinite]
  | signed m rank hrank => by_cases hinfinite : rank = f.infinity <;> simp [meaning, isFinite, hinfinite]

theorem isFinite_of_isZero (hinfinity : 0 < f.infinity) (hx : x.isZero = true) : x.isFinite = true := by
  cases x with
  | nan => cases hx
  | signed m rank hrank =>
    obtain rfl : rank = 0 := eq_of_beq hx
    exact bne_iff_ne.mpr hinfinity.ne

theorem isNegative_of_meaning {negative : Bool} {a : ℚ} (hx : x.meaning = .finite negative a) :
    x.isNegative = negative := by
  cases x with
  | nan => cases hx
  | signed m rank hrank =>
    rw [meaning] at hx
    split_ifs at hx
    exact (Meaning.finite.inj hx).1

theorem neg_iff_of_meaning {negative : Bool} {a : ℚ} (hx : x.meaning = .finite negative a) :
    a < 0 ↔ negative = true ∧ a ≠ 0 := by
  cases x with
  | nan => cases hx
  | signed m rank hrank =>
    rw [meaning] at hx
    split_ifs at hx
    obtain ⟨rfl, rfl⟩ := Meaning.finite.inj hx
    have hnonneg : (0 : ℚ) ≤ f.units rank / f.one := by positivity
    cases m with
    | false => simpa [withSign] using hnonneg
    | true => simp [withSign, lt_iff_le_and_ne, hnonneg]

theorem rounds_iff (hf : 0 < f.fractionBits) {negative zeroNegative : Bool} {n d : Nat} (hd : 0 < d) {a : ℚ}
    (ha : withSign negative (n / d / f.one) = a) (hzero : a = 0 → negative = zeroNegative) :
    Rounds a zeroNegative z ↔ rounded negative n d = z := by
  have hone : (0 : ℚ) < f.one := by exact_mod_cast f.one_pos
  have hnonneg : (0 : ℚ) ≤ n / d / f.one := by positivity
  have habs : |a| * f.one = n / d := by
    rw [← ha, abs_withSign negative hnonneg, div_mul_cancel₀ _ hone.ne']
  have hsign : (if a = 0 then zeroNegative else decide (a < 0)) = negative := by
    split_ifs with hcase
    · exact (hzero hcase).symm
    · rw [← ha] at hcase ⊢
      cases negative with
      | false => exact decide_eq_false hnonneg.not_gt
      | true => exact decide_eq_true (neg_neg_of_pos (lt_of_le_of_ne hnonneg fun heq => hcase (by simp [withSign, ← heq])))
  obtain ⟨rank, hnearest, -⟩ := f.exists_nearest hf n hd
  rw [rounded_eq_signed hf negative hd hnearest, Rounds, hsign]
  constructor
  · intro hrounds
    obtain ⟨other, hother, rfl⟩ := hrounds
    rw [roundsTo_iff_nearest (abs_nonneg a), habs] at hother
    obtain rfl := hother.unique hnearest
    rfl
  · intro hz
    refine ⟨rank, ?_, hz.symm⟩
    rwa [roundsTo_iff_nearest (abs_nonneg a), habs]

theorem rounded_zero (hf : 0 < f.fractionBits) (negative : Bool) : (rounded negative 0 1 : Binary f) = zero negative := by
  have hnearest : f.Nearest ((0 : Nat) / (1 : Nat)) 0 := by simpa using f.nearest_units 0
  rw [rounded_eq_signed hf negative Nat.one_pos hnearest]
  simp only [zero, Nat.min_zero]

theorem rounds_sum (hf : 0 < f.fractionBits) {m n : Bool} {rankX rankY : Nat} {a b : ℚ}
    (ha : withSign m (f.units rankX / f.one) = a) (hb : withSign n (f.units rankY / f.one) = b) :
    let sum := signedUnits f m rankX + signedUnits f n rankY
    Rounds (a + b) (m && n) z ↔ (if sum = 0 then zero (m && n) else rounded (sum < 0) sum.natAbs 1) = z := by
  intro sum
  have hone : (0 : ℚ) < f.one := by exact_mod_cast f.one_pos
  have hsum : (sum / f.one : ℚ) = a + b := by
    rw [← ha, ← hb, ← signedUnits_div, ← signedUnits_div, ← add_div, ← Int.cast_add]
  have habs : withSign (decide (sum < 0)) (sum.natAbs / (1 : Nat) / f.one) = a + b := by
    rw [← hsum, Nat.cast_one, div_one, Nat.cast_natAbs, Int.cast_abs]
    obtain hneg | hnonneg := lt_or_ge sum 0
    · have hcast : (sum : ℚ) < 0 := by exact_mod_cast hneg
      simp [withSign, hneg, abs_of_neg hcast, neg_div]
    · have hcast : (0 : ℚ) ≤ sum := by exact_mod_cast hnonneg
      simp [withSign, hnonneg.not_gt, abs_of_nonneg hcast]
  split_ifs with hzero
  · rw [← rounded_zero hf]
    refine rounds_iff hf Nat.one_pos ?_ fun _ => rfl
    rw [← hsum, hzero]
    simp [withSign]
  · refine rounds_iff hf Nat.one_pos habs fun hcase => absurd hcase ?_
    rw [← hsum]
    exact div_ne_zero (by exact_mod_cast hzero) hone.ne'

theorem withSign_natAbs (n : Int) : withSign (decide (n < 0)) n.natAbs = n := by
  simpa [Nat.cast_natAbs] using withSign_abs (n : ℚ)

theorem rounds_ofInt (hf : 0 < f.fractionBits) (n : Int) : Rounds (n : ℚ) false z ↔ ofInt n = z := by
  have hone : (f.one : ℚ) ≠ 0 := by exact_mod_cast f.one_pos.ne'
  refine rounds_iff hf Nat.one_pos ?_ fun hzero => ?_
  · rw [Nat.cast_one, div_one, Nat.cast_mul, mul_div_cancel_right₀ _ hone, withSign_natAbs]
  · rw [Int.cast_eq_zero] at hzero
    simp [hzero]

theorem rounds_ratio (hf : 0 < f.fractionBits) (m : Int) {n : Int} (hn : n ≠ 0) :
    Rounds (m / n : ℚ) (decide (m < 0) ^^ decide (n < 0)) z ↔
      rounded (decide (m < 0) ^^ decide (n < 0)) (m.natAbs * f.one) n.natAbs = z := by
  have hone : (f.one : ℚ) ≠ 0 := by exact_mod_cast f.one_pos.ne'
  refine rounds_iff hf (Int.natAbs_pos.mpr hn) ?_ fun _ => rfl
  rw [Nat.cast_mul, mul_div_right_comm, mul_div_cancel_right₀ _ hone, ← withSign_div, withSign_natAbs, withSign_natAbs]

theorem rounds_convert {g : Format} (hg : 0 < g.fractionBits) {negative : Bool} {a : ℚ}
    (hx : x.meaning = .finite negative a) {z : Binary g} : Rounds a negative z ↔ x.convert g = z := by
  have hgrain : (g.one : ℚ) ≠ 0 := by exact_mod_cast g.one_pos.ne'
  cases x with
  | nan => cases hx
  | signed m rank hrank =>
    rw [meaning] at hx
    split_ifs at hx with hinfinite
    obtain ⟨rfl, rfl⟩ := Meaning.finite.inj hx
    rw [convert, if_neg hinfinite]
    refine rounds_iff hg f.one_pos (congrArg _ ?_) fun _ => rfl
    rw [Nat.cast_mul, mul_div_right_comm, mul_div_cancel_right₀ _ hgrain]

/-! ### Operations -/

theorem isSum_iff (hf : 0 < f.fractionBits) : IsSum x y z ↔ x + y = z := by
  show _ ↔ add x y = z
  cases x with
  | nan => exact eq_comm
  | signed m rankX hX =>
    cases y with
    | nan => by_cases hx : rankX = f.infinity <;> simp [IsSum, meaning, add, hx, @eq_comm _ z]
    | signed n rankY hY =>
      by_cases hx : rankX = f.infinity
      · subst hx
        by_cases hy : rankY = f.infinity
        · subst hy
          by_cases hsame : m = n <;> simp [IsSum, meaning, add, infinity, hsame, @eq_comm _ z]
        · simp [IsSum, meaning, add, infinity, hy, @eq_comm _ z]
      · by_cases hy : rankY = f.infinity
        · subst hy
          simp [IsSum, meaning, add, infinity, hx, @eq_comm _ z]
        · simp only [IsSum, meaning, add, if_neg hx, if_neg hy]
          exact rounds_sum hf rfl rfl

theorem meaning_neg (x : Binary f) : (neg x).meaning = x.meaning.neg := by
  cases x with
  | nan => rfl
  | signed n rank hrank =>
    by_cases hinfinite : rank = f.infinity
    · simp only [neg, meaning, if_pos hinfinite, Meaning.neg]
    · cases n <;> simp [neg, meaning, hinfinite, Meaning.neg, withSign]

theorem isDifference_iff (hf : 0 < f.fractionBits) : IsDifference x y z ↔ x - y = z := by
  show _ ↔ x + neg y = z
  rw [← isSum_iff hf, IsSum, IsDifference, meaning_neg]
  generalize x.meaning = a
  cases y.meaning with
  | nan => cases a <;> rfl
  | infinite n =>
    cases a with
    | nan => rfl
    | infinite m => cases m <;> cases n <;> rfl
    | finite m a => rfl
  | finite n b =>
    cases a with
    | nan => rfl
    | infinite m => rfl
    | finite m a => simp only [Meaning.neg, sub_eq_add_neg]

theorem isProduct_iff (hf : 0 < f.fractionBits) (hinfinity : 0 < f.infinity) : IsProduct x y z ↔ x * y = z := by
  show _ ↔ mul x y = z
  cases x with
  | nan => exact eq_comm
  | signed m rankX hX =>
    cases y with
    | nan => by_cases hx : rankX = f.infinity <;> simp [IsProduct, meaning, mul, hx, @eq_comm _ z]
    | signed n rankY hY =>
      by_cases hx : rankX = f.infinity
      · by_cases hy : rankY = f.infinity <;>
          simp [IsProduct, meaning, mul, hx, hy, hinfinity.ne', withSign_eq_zero_iff, @eq_comm _ z]
      · by_cases hy : rankY = f.infinity
        · simp [IsProduct, meaning, mul, hx, hy, hinfinity.ne', withSign_eq_zero_iff, @eq_comm _ z]
        · simp only [IsProduct, meaning, mul, hx, hy, or_self, if_false, withSign_mul]
          refine rounds_iff hf f.one_pos (congrArg _ ?_) fun _ => rfl
          push_cast
          ring

theorem isQuotient_iff (hf : 0 < f.fractionBits) (hinfinity : 0 < f.infinity) : IsQuotient x y z ↔ x / y = z := by
  show _ ↔ div x y = z
  cases x with
  | nan => exact eq_comm
  | signed m rankX hX =>
    cases y with
    | nan => by_cases hx : rankX = f.infinity <;> simp [IsQuotient, meaning, div, hx, @eq_comm _ z]
    | signed n rankY hY =>
      by_cases hx : rankX = f.infinity
      · by_cases hy : rankY = f.infinity <;> simp [IsQuotient, meaning, div, hx, hy, @eq_comm _ z]
      · by_cases hy : rankY = f.infinity
        · simp [IsQuotient, meaning, div, hx, hy, @eq_comm _ z]
        · by_cases hzero : rankY = 0
          · subst hzero
            simp [IsQuotient, meaning, div, hx, hinfinity.ne, withSign_eq_zero_iff, @eq_comm _ z]
          · simp only [IsQuotient, meaning, div, if_neg hx, if_neg hy, withSign_eq_zero_iff, if_neg hzero, withSign_div]
            refine rounds_iff hf (units_pos (Nat.pos_of_ne_zero hzero)) (congrArg _ ?_) fun _ => rfl
            have hone : (f.one : ℚ) ≠ 0 := by exact_mod_cast f.one_pos.ne'
            push_cast
            field_simp

end Reckoner.Binary
