import Reckoner.Number
import Reckoner.Proofs.Binary.Narrowing
import Reckoner.Proofs.Decimal.Numerals

/-!
# Numerals read as numbers

Reading a numeral rounds it twice, and still gives a value next to the one that is written, which is that value itself if the format has it. A larger numeral never gives a smaller value. Numerals of any length and any power of ten are covered, down to those that become zero and up to those that become infinite.
-/

namespace Reckoner.Number

open Binary

def readValue? (text : String) : Option Extended := (read? text).bind value?

theorem exists_readValue? (x : Numeral) :
    ∃ v, readValue? x.text = some v ∧ Format.single.RoundsVia .double x.value v := by
  obtain ⟨v, hvalue, hrounds⟩ := exists_value?_convert x.sign.isMinus x.decimal
  rw [x.value_decimal] at hrounds
  refine ⟨v, ?_, hrounds⟩
  rw [readValue?, read?, x.read?_text, Option.map_some, Option.bind_some, ofLiteral, hvalue]

theorem readValue?_of_mem {x : Numeral} (hmem : (x.value : Extended) ∈ values .single) :
    readValue? x.text = some (x.value : Extended) := by
  obtain ⟨v, hread, hrounds⟩ := exists_readValue? x
  rw [hread, (hrounds.isNeighbour Format.single_widens (by decide)).eq_of_mem hmem]

/-- A numeral is read as a value next to its own, and as its own if that is a value of the format; and reading keeps the order. -/
theorem readValue?_faithful (x : Numeral) : ∃ v, readValue? x.text = some v ∧
    IsNeighbour .single x.value v ∧ ((x.value : Extended) ∈ values .single → v = x.value) ∧
    ∀ y : Numeral, x.value ≤ y.value → ∃ w, readValue? y.text = some w ∧ v ≤ w := by
  obtain ⟨v, hreadX, hroundsX⟩ := exists_readValue? x
  have hneighbour := hroundsX.isNeighbour Format.single_widens (by decide)
  refine ⟨v, hreadX, hneighbour, hneighbour.eq_of_mem, fun y hle => ?_⟩
  obtain ⟨w, hreadY, hroundsY⟩ := exists_readValue? y
  exact ⟨w, hreadY, hroundsX.mono Format.single_widens hroundsY hle⟩

def scaledTenths : Numeral where
  sign := .plus
  whole := ['0']
  fraction? := some ['5']
  power? := some ⟨'E', .absent, ['1'], .inr rfl, by decide, List.all_eq_true.mp rfl⟩
  isDigit_of_mem_whole := List.all_eq_true.mp rfl
  isDigit_of_mem_fraction := List.all_eq_true.mp rfl
  digits_ne_nil := by decide

def oddBeyondBits : Numeral where
  sign := .absent
  whole := "16777217".toList
  fraction? := none
  power? := none
  isDigit_of_mem_whole := List.all_eq_true.mp rfl
  isDigit_of_mem_fraction := List.all_eq_true.mp rfl
  digits_ne_nil := by decide

theorem readValue?_faithful_scaledTenths : readValue? "+0.5E1" = some ((5 : ℚ) : Extended) ∧
    ∃ w, readValue? "16777217" = some w ∧ ((5 : ℚ) : Extended) ≤ w := by
  have hdigits : Nat.ofDigitChars 10 ['0'] 0 = 0 ∧ Nat.ofDigitChars 10 ['5'] 0 = 5 ∧ Nat.ofDigitChars 10 ['1'] 0 = 1 ∧
      Nat.ofDigitChars 10 "16777217".toList 0 = 16777217 := by decide
  have hvalue : scaledTenths.value = 5 := by
    norm_num [Numeral.value, Numeral.magnitude, Numeral.exponent, Numeral.Power.value, scaledTenths, Numeral.Sign.isMinus, hdigits]
  have hlarge : oddBeyondBits.value = 16777217 := by
    norm_num [Numeral.value, Numeral.magnitude, Numeral.exponent, oddBeyondBits, Numeral.Sign.isMinus, hdigits]
  have hmem : (scaledTenths.value : Extended) ∈ values .single := by
    have hunits : Format.single.units 1084227584 = 5 * Format.single.one := by decide +kernel
    have hone : (Format.single.one : ℚ) ≠ 0 := by exact_mod_cast Format.single.one_pos.ne'
    refine ⟨.signed false 1084227584 (by decide), ?_⟩
    rw [value?_of_lt false (by decide), hvalue, hunits, withSign]
    push_cast
    rw [mul_div_cancel_right₀ _ hone]
  obtain ⟨v, hread, -, hexact, hmono⟩ := readValue?_faithful scaledTenths
  obtain rfl := hexact hmem
  rw [hvalue] at hread hmono
  exact ⟨hread, hmono oddBeyondBits (by rw [hlarge]; norm_num)⟩

end Reckoner.Number
