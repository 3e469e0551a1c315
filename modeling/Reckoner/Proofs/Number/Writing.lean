import Reckoner.Number.Computed
import Reckoner.Proofs.Decimal.Significance
import Reckoner.Proofs.Decimal.Writing

/-!
# Numbers written shortest

What a number library is taken to write for a finite number: a positional numeral without superfluous zeros, with a minus sign exactly if the number has the sign, zero included. Its value rounds to the number, no decimal with fewer digits does, and among those with as many digits none is nearer. The computed library writes numbers that way.
-/

namespace Reckoner.Number

open Binary Decimal

/-- Every finite number is written as a positional numeral of its sign, with the fewest digits that round to the number, and as near to it as so many digits get. -/
def Library.WritesShortest [Library] : Prop :=
  ∀ (negative : Bool) (rank : Nat) (hfinite : rank < Format.single.infinity), ∃ (x : Numeral) (count : Nat),
    Library.positional (.signed negative rank hfinite.le) = x.text ∧ x.Positional ∧
      x.sign = (if negative then .minus else .absent) ∧ IsShortest .single rank count x.magnitude

theorem positional_shortest (negative : Bool) (rank : Nat) :
    (Numeral.ofDecimal negative (shortest .single rank)).Positional := by
  obtain rfl | hpos := Nat.eq_zero_or_pos rank
  · exact ⟨rfl, nofun, fun _ => rfl, nofun, nofun⟩
  · exact Numeral.positional_ofDecimal negative (coefficient_shortest_pos hpos) (not_ten_dvd_coefficient hpos)

theorem writesShortest : Library.WritesShortest := by
  intro negative rank hfinite
  obtain ⟨count, hshortest⟩ := exists_isShortest rank
  refine ⟨.ofDecimal negative (shortest .single rank), count, ?_, positional_shortest negative rank, rfl, ?_⟩
  · rw [Numeral.text_ofDecimal]
    simp [Library.positional, Layout.write, resultLayout, hfinite.ne]
  · rwa [Numeral.magnitude_ofDecimal]

section

variable [Library] {negative : Bool} {rank : Nat}

theorem write_nan : write .nan = "NaN" := rfl

theorem write_infinity (negative : Bool) : write (infinity negative) = if negative then "-inf" else "inf" := rfl

theorem write_signed (negative : Bool) (hfinite : rank < Format.single.infinity) :
    write (.signed negative rank hfinite.le) = Library.positional (.signed negative rank hfinite.le) :=
  if_neg hfinite.ne

end

end Reckoner.Number
