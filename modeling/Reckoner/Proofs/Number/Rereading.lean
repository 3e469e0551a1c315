import Reckoner.Proofs.Decimal.RoundTrip
import Reckoner.Proofs.Number.Writing

/-!
# Numbers read back from their texts

What is written for a number is a literal that is read as the number again: both zeros, every finite number of either sign, the infinities and the text for no number. One magnitude is an exception. Its shortest decimal is so close to the midpoint above that the first of the two roundings ends there, and the second one goes on to the next magnitude.
-/

namespace Reckoner.Number

open Binary Decimal

def reread : Number → Number
  | .nan => .nan
  | .signed negative rank rank_le =>
    if rank = strayRank then .signed negative (strayRank + 1) (by decide) else .signed negative rank rank_le

theorem read?_text {x : Numeral} {rank count : Nat} (negative : Bool) (hfinite : rank < Format.single.infinity)
    (hsign : x.sign.isMinus = negative) (hshortest : IsShortest .single rank count x.magnitude) :
    read? x.text = some (reread (.signed negative rank hfinite.le)) := by
  rw [← x.value_decimal] at hshortest
  rw [read?, x.read?_text, hsign, Option.map_some, ofLiteral]
  by_cases hstray : rank = strayRank
  · subst hstray
    rw [reread, if_pos rfl, convert_stray negative hshortest]
  · rw [reread, if_neg hstray, convert_ofDecimal hfinite hstray negative hshortest]

section

variable [Library]

theorem read?_write_infinity (negative : Bool) : read? (write (infinity negative)) = some (infinity negative) := by
  rw [write_infinity]
  cases negative with
  | false => decide +kernel
  | true => decide +kernel

/-- The text of a number is read as the number itself, but for one magnitude, which comes out as the next one. -/
theorem read?_write (hwrites : Library.WritesShortest) (x : Number) : read? (write x) = some (reread x) := by
  cases x with
  | nan =>
    rw [write_nan]
    decide +kernel
  | signed negative rank hrank =>
    obtain hfinite | rfl := Nat.lt_or_eq_of_le hrank
    · obtain ⟨numeral, count, hwrite, -, hsign, hshortest⟩ := hwrites negative rank hfinite
      rw [write_signed negative hfinite, hwrite]
      refine read?_text negative hfinite ?_ hshortest
      rw [hsign]
      cases negative <;> rfl
    · rw [reread, if_neg (by decide)]
      exact read?_write_infinity negative

end

theorem read?_write_stray : Library.WritesShortest ∧
    read? (write (.signed true strayRank (by decide))) = some (.signed true (strayRank + 1) (by decide)) :=
  ⟨writesShortest, read?_write writesShortest (.signed true strayRank (by decide))⟩

end Reckoner.Number
