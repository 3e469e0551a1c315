import Mathlib.Tactic.FieldSimp
import Reckoner.Proofs.Binary.Decimals
import Reckoner.Proofs.Decimal.Reading

/-!
# Decimal numerals

The texts of decimal numbers and their values: an optional sign, digits with an optional point in front of them, between them or behind them, and an optional power of ten. Every such text is a literal, of the sign and the magnitude that the text has by the positions of its digits.
-/

namespace Reckoner

inductive Numeral.Sign where
  | absent
  | plus
  | minus
deriving DecidableEq, Repr

namespace Numeral.Sign

def text : Sign → List Char
  | absent => []
  | plus => ['+']
  | minus => ['-']

def isMinus : Sign → Bool
  | minus => true
  | _ => false

end Numeral.Sign

structure Numeral.Power where
  letter : Char
  sign : Numeral.Sign
  digits : List Char
  letter_eq : letter = 'e' ∨ letter = 'E'
  digits_ne_nil : digits ≠ []
  isDigit_of_mem : ∀ c ∈ digits, c.isDigit = true

namespace Numeral.Power

def text (power : Power) : List Char := power.letter :: (power.sign.text ++ power.digits)

def value (power : Power) : Int :=
  if power.sign.isMinus then -(Nat.ofDigitChars 10 power.digits 0 : Int) else Nat.ofDigitChars 10 power.digits 0

end Numeral.Power

/-- A decimal number as it is written. There is a digit at least on one side of the point. -/
structure Numeral where
  sign : Numeral.Sign
  whole : List Char
  /-- The digits behind the point, if there is a point. -/
  fraction? : Option (List Char)
  power? : Option Numeral.Power
  isDigit_of_mem_whole : ∀ c ∈ whole, c.isDigit = true
  isDigit_of_mem_fraction : ∀ c ∈ fraction?.getD [], c.isDigit = true
  digits_ne_nil : whole ++ fraction?.getD [] ≠ []

namespace Numeral

def body (x : Numeral) : List Char :=
  x.whole ++ (x.fraction?.elim [] ('.' :: ·) ++ x.power?.elim [] Power.text)

def text (x : Numeral) : String := String.ofList (x.sign.text ++ x.body)

def exponent (x : Numeral) : Int := x.power?.elim 0 Power.value

/-- The value of the digits, each by its position, times the power of ten. -/
def magnitude (x : Numeral) : ℚ :=
  let fraction := x.fraction?.getD []
  (Nat.ofDigitChars 10 x.whole 0 + Nat.ofDigitChars 10 fraction 0 / 10 ^ fraction.length) * 10 ^ x.exponent

def value (x : Numeral) : ℚ := if x.sign.isMinus then -x.magnitude else x.magnitude

def decimal (x : Numeral) : Decimal :=
  let fraction := x.fraction?.getD []
  ⟨Literal.digitsValue (x.whole ++ fraction), x.exponent - fraction.length⟩

theorem value_decimal (x : Numeral) : x.decimal.value = x.magnitude := by
  have hdigits (fraction : List Char) : Literal.digitsValue (x.whole ++ fraction) =
      10 ^ fraction.length * Nat.ofDigitChars 10 x.whole 0 + Nat.ofDigitChars 10 fraction 0 := by
    change Nat.ofDigitChars 10 _ 0 = _
    rw [Nat.ofDigitChars_append, Nat.ofDigitChars_eq_ofDigitChars_zero]
  unfold decimal magnitude Decimal.value
  dsimp only
  have hten : (10 ^ (x.fraction?.getD []).length : ℚ) ≠ 0 := by positivity
  rw [hdigits, zpow_sub₀ (by norm_num), zpow_natCast]
  push_cast
  field_simp

end Numeral

/-! ### Numerals as literals -/

variable {c : Char} {cs : List Char}

theorem Numeral.Sign.takeSign_text (sign : Numeral.Sign) (hminus : cs.head? ≠ some '-') (hplus : cs.head? ≠ some '+') :
    Literal.takeSign (sign.text ++ cs) = (sign.isMinus, cs) := by
  cases sign with
  | absent => exact Literal.takeSign_of_ne hminus hplus
  | plus => rfl
  | minus => rfl

theorem Numeral.Sign.isSolid_of_mem_text (sign : Numeral.Sign) (hc : c ∈ sign.text) : Literal.isSolid c = true := by
  cases sign with
  | absent => cases hc
  | plus =>
    obtain rfl := List.mem_singleton.mp hc
    rfl
  | minus =>
    obtain rfl := List.mem_singleton.mp hc
    rfl

namespace Numeral.Power

variable {power : Power}

theorem isSolid_of_mem_text (hc : c ∈ power.text) : Literal.isSolid c = true := by
  obtain hletter | hrest := List.mem_cons.mp hc
  · rw [hletter]
    obtain heq | heq := power.letter_eq
    · rw [heq]
      rfl
    · rw [heq]
      rfl
  · obtain hsign | hdigit := List.mem_append.mp hrest
    · exact power.sign.isSolid_of_mem_text hsign
    · exact Literal.isSolid_of_isDigit (power.isDigit_of_mem c hdigit)

theorem exponent?_text (power : Power) : Literal.exponent? power.text = some power.value := by
  have hhead : ∀ mark : Char, mark.isDigit = false → power.digits.head? ≠ some mark := by
    intro mark hmark hhead
    rw [power.isDigit_of_mem mark (List.mem_of_mem_head? hhead)] at hmark
    cases hmark
  have hsign := power.sign.takeSign_text (hhead '-' rfl) (hhead '+' rfl)
  have hall : power.digits.all Char.isDigit = true := List.all_eq_true.mpr power.isDigit_of_mem
  rw [text, Literal.exponent?, hsign]
  exact if_pos ⟨power.letter_eq, power.digits_ne_nil, hall⟩

end Numeral.Power

namespace Numeral

variable {x : Numeral}

theorem exponent?_powerText (x : Numeral) : Literal.exponent? (x.power?.elim [] Power.text) = some x.exponent := by
  unfold exponent
  cases x.power? with
  | none => rfl
  | some power => exact power.exponent?_text

theorem head?_powerText (hc : (x.power?.elim [] Power.text).head? = some c) : c = 'e' ∨ c = 'E' := by
  cases hpower : x.power? with
  | none =>
    rw [hpower] at hc
    cases hc
  | some power =>
    rw [hpower] at hc
    obtain rfl := Option.some.inj hc
    exact power.letter_eq

theorem decimal?_body (x : Numeral) : Literal.decimal? x.body = some x.decimal := by
  have hnext : ∀ c ∈ (x.power?.elim [] Power.text).head?, c.isDigit = false := by
    intro c hc
    obtain rfl | rfl := head?_powerText hc <;> rfl
  have hpoint : (x.power?.elim [] Power.text).head? ≠ some '.' := by
    intro hhead
    obtain heq | heq := head?_powerText hhead <;> cases heq
  have hwhole := x.isDigit_of_mem_whole
  have hfraction := x.isDigit_of_mem_fraction
  have hne := x.digits_ne_nil
  unfold body decimal
  cases hcase : x.fraction? with
  | none =>
    rw [hcase, Option.getD_none, List.append_nil] at hne
    apply (Literal.decimal?_of_digits hne hwhole hnext hpoint).trans
    rw [x.exponent?_powerText]
    simp
  | some fraction =>
    rw [hcase, Option.getD_some] at hne hfraction
    apply (Literal.decimal?_of_point hne hwhole hfraction hnext).trans
    rw [x.exponent?_powerText]
    rfl

theorem isSolid_of_mem_text (hc : c ∈ x.sign.text ++ x.body) : Literal.isSolid c = true := by
  obtain hsign | hbody := List.mem_append.mp hc
  · exact x.sign.isSolid_of_mem_text hsign
  obtain hwhole | hrest := List.mem_append.mp hbody
  · exact Literal.isSolid_of_isDigit (x.isDigit_of_mem_whole c hwhole)
  obtain hfraction | hpower := List.mem_append.mp hrest
  · have hdigits := x.isDigit_of_mem_fraction
    cases hcase : x.fraction? with
    | none => simp [hcase] at hfraction
    | some fraction =>
      rw [hcase] at hdigits hfraction
      obtain rfl | hdigit := List.mem_cons.mp hfraction
      · rfl
      · exact Literal.isSolid_of_isDigit (hdigits c hdigit)
  · cases hcase : x.power? with
    | none => simp [hcase] at hpower
    | some power =>
      rw [hcase] at hpower
      exact power.isSolid_of_mem_text hpower

theorem exists_head?_body (x : Numeral) : ∃ c, x.body.head? = some c ∧ (c.isDigit = true ∨ c = '.') := by
  have hne := x.digits_ne_nil
  unfold body
  cases hwhole : x.whole with
  | cons first more => exact ⟨first, rfl, .inl (x.isDigit_of_mem_whole first (hwhole ▸ List.mem_cons_self))⟩
  | nil =>
    cases hfraction : x.fraction? with
    | none => simp [hwhole, hfraction] at hne
    | some fraction => exact ⟨'.', rfl, .inr rfl⟩

/-- A numeral is a literal of its sign and its magnitude. -/
theorem read?_text (x : Numeral) : Literal.read? x.text = some (.finite x.sign.isMinus x.decimal) := by
  obtain ⟨first, hhead, hfirst⟩ := x.exists_head?_body
  have hne : x.sign.text ++ x.body ≠ [] := by
    apply List.append_ne_nil_of_right_ne_nil
    intro hnil
    rw [hnil] at hhead
    cases hhead
  have hmark : ∀ mark : Char, mark.isDigit = false → mark ≠ '.' → x.body.head? ≠ some mark := by
    intro mark hdigit hpoint heq
    obtain rfl := Option.some.inj (hhead.symm.trans heq)
    obtain hfirst | hfirst := hfirst
    · rw [hdigit] at hfirst
      cases hfirst
    · exact hpoint hfirst
  have hsmall : first.toNat < 65 := by
    obtain hdigit | rfl := hfirst
    · have hrange := Literal.range_of_isDigit hdigit
      omega
    · decide
  have hsign := x.sign.takeSign_text (hmark '-' rfl (by decide)) (hmark '+' rfl (by decide))
  rw [text, Literal.read?_of_isSolid hne fun c hc => isSolid_of_mem_text hc, Literal.ofPlain?_of_head hsign hhead hsmall,
    x.decimal?_body, Option.map_some]

end Numeral

end Reckoner
