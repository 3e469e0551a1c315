import Reckoner.Proofs.Binary.Operations

/-!
# Exact operations

An operation whose result is a value of the format gives that value: rounding changes nothing that needs no rounding. Whole numbers of no more bits than the format has are among its values, so arithmetic on them is exact as long as the results stay among them.
-/

namespace Reckoner.Binary

open Format

variable {f g : Format} {x y z : Binary f} {a b : ℚ} {negative : Bool}

theorem Rounds.value?_eq (hrounds : Rounds a negative z) (hmem : (a : Extended) ∈ values f) :
    z.value? = some (a : Extended) := by
  have hone : (f.one : ℚ) ≠ 0 := by exact_mod_cast f.one_pos.ne'
  obtain ⟨rank, hrank, rfl⟩ := hrounds
  obtain ⟨other, hfinite, hunits⟩ := mem_values_iff.mp hmem
  rw [roundsTo_iff_nearest (abs_nonneg a), ← hunits, div_mul_cancel₀ _ hone] at hrank
  obtain rfl := hrank.unique (f.nearest_units other)
  simp only [min_eq_right hfinite.le]
  rw [value?_of_lt _ hfinite, hunits]
  split_ifs with hzero
  · rw [hzero, abs_zero, withSign_zero]
  · rw [withSign_abs]

theorem exists_meaning (hx : x.value? = some (a : Extended)) : ∃ negative, x.meaning = .finite negative a := by
  obtain ⟨negative, rank, hfinite, rfl, rfl⟩ := value?_eq_some_iff.mp hx
  exact ⟨negative, by rw [meaning, if_neg hfinite.ne, signedUnits_div]⟩

theorem infinity_pos_of_value? (hx : x.value? = some (a : Extended)) : 0 < f.infinity := by
  obtain ⟨_, _, hfinite, _⟩ := value?_eq_some_iff.mp hx
  exact Nat.zero_lt_of_lt hfinite

/-! ### Operations -/

section

variable (hx : x.value? = some (a : Extended))
include hx

theorem value?_convert (hg : 0 < g.fractionBits) (hmem : (a : Extended) ∈ values g) :
    (x.convert g).value? = some (a : Extended) := by
  obtain ⟨negative, hmeaning⟩ := exists_meaning hx
  exact ((rounds_convert hg hmeaning).mpr rfl).value?_eq hmem

variable (hf : 0 < f.fractionBits) (hy : y.value? = some (b : Extended))
include hf hy

theorem value?_add (hmem : ((a + b : ℚ) : Extended) ∈ values f) : (x + y).value? = some ((a + b : ℚ) : Extended) := by
  obtain ⟨m, hmeaningX⟩ := exists_meaning hx
  obtain ⟨n, hmeaningY⟩ := exists_meaning hy
  have hsum : IsSum x y (x + y) := (isSum_iff hf).mpr rfl
  rw [IsSum, hmeaningX, hmeaningY] at hsum
  exact hsum.value?_eq hmem

theorem value?_sub (hmem : ((a - b : ℚ) : Extended) ∈ values f) : (x - y).value? = some ((a - b : ℚ) : Extended) := by
  obtain ⟨m, hmeaningX⟩ := exists_meaning hx
  obtain ⟨n, hmeaningY⟩ := exists_meaning hy
  have hdifference : IsDifference x y (x - y) := (isDifference_iff hf).mpr rfl
  rw [IsDifference, hmeaningX, hmeaningY] at hdifference
  exact hdifference.value?_eq hmem

theorem value?_mul (hmem : ((a * b : ℚ) : Extended) ∈ values f) : (x * y).value? = some ((a * b : ℚ) : Extended) := by
  obtain ⟨m, hmeaningX⟩ := exists_meaning hx
  obtain ⟨n, hmeaningY⟩ := exists_meaning hy
  have hproduct : IsProduct x y (x * y) := (isProduct_iff hf (infinity_pos_of_value? hx)).mpr rfl
  rw [IsProduct, hmeaningX, hmeaningY] at hproduct
  exact hproduct.value?_eq hmem

end

/-! ### Whole numbers -/

/-- A whole number of no more bits than the format has is one of its values. -/
theorem intCast_mem_values (hlarge : 2 * f.binade * f.one < f.units f.infinity) {n : Int}
    (hn : n.natAbs ≤ 2 * f.binade) : ((n : ℚ) : Extended) ∈ values f := by
  have hone : (f.one : ℚ) ≠ 0 := by exact_mod_cast f.one_pos.ne'
  obtain ⟨rank, hrank⟩ := f.exists_units_eq hn f.scale
  have hunits : f.units rank = n.natAbs * f.one := hrank
  refine mem_values_iff.mpr ⟨rank, ?_, ?_⟩
  · rw [← f.units_strictMono.lt_iff_lt, hunits]
    exact (Nat.mul_le_mul_right _ hn).trans_lt hlarge
  · rw [hunits, Nat.cast_mul, mul_div_cancel_right₀ _ hone, Nat.cast_natAbs, Int.cast_abs]

theorem value?_ofInt (hf : 0 < f.fractionBits) {n : Int} (hmem : ((n : ℚ) : Extended) ∈ values f) :
    (ofInt n : Binary f).value? = some ((n : ℚ) : Extended) :=
  ((rounds_ofInt hf n).mpr rfl).value?_eq hmem

end Reckoner.Binary
