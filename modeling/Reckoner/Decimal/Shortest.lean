import Reckoner.Binary.Format
import Reckoner.Decimal.Literal

/-!
# Shortest decimals

The decimal with the fewest digits that still rounds to a given binary magnitude. The magnitudes that round to a rank fill the interval between the midpoints to the two neighbouring ranks, the ends included exactly if the rank is even. The search goes through the powers of ten from coarse to fine: if any multiple of a power lies in the interval, then one of the two multiples next to the magnitude itself does, so the first hit has the fewest digits. Where both neighbours hit, the nearer one is taken, and the even one if both are equally near.
-/

namespace Reckoner.Decimal

/-- A positive magnitude and the interval of what rounds to it, as three numerators over one denominator. -/
structure Target where
  value : Nat
  low : Nat
  high : Nat
  denominator : Nat
  /-- Whether the ends belong to the interval. -/
  closed : Bool
deriving DecidableEq, Repr

namespace Target

/-- The target of a rank above zero. The ends are counted in half units. -/
def ofRank (f : Binary.Format) (rank : Nat) : Target :=
  let units := f.units rank
  ⟨2 * units, f.units (rank - 1) + units, units + f.units (rank + 1), 2 * f.one, rank % 2 == 0⟩

/-- The same target measured in a power of ten. -/
def scaleTo (target : Target) (exponent : Int) : Target :=
  let power := Nat.pow 10 exponent.natAbs
  if 0 ≤ exponent then { target with denominator := target.denominator * power }
  else { target with value := target.value * power, low := target.low * power, high := target.high * power }

def holds (target : Target) (n : Nat) : Bool :=
  let n := n * target.denominator
  if target.closed then target.low ≤ n && n ≤ target.high else target.low < n && n < target.high

/-- The whole number in the interval that is nearest to the value, among its two neighbours. -/
def nearest? (target : Target) : Option Nat :=
  let below := target.value / target.denominator
  if target.holds below then
    some (if target.holds (below + 1) then divHalfEven target.value target.denominator else below)
  else if target.holds (below + 1) then some (below + 1)
  else none

/-- The first hit on the grids from an exponent downwards. The last grid is fine enough to hold the value. -/
def search (target : Target) : (steps : Nat) → (exponent : Int) → Decimal
  | 0, exponent =>
    let last := target.scaleTo exponent
    ⟨last.value / last.denominator, exponent⟩
  | steps + 1, exponent =>
    match (target.scaleTo exponent).nearest? with
    | some coefficient => ⟨coefficient, exponent⟩
    | none => target.search steps (exponent - 1)

/-- A power of ten above the value: ten exceeds `2 ^ 3`, and three tenths of a power of it stay below a power of two. -/
def startExponent (target : Target) : Int :=
  let bits : Int := (target.value.log2 : Int) + 1 - target.denominator.log2
  if 0 ≤ bits then bits / 3 + 1 else bits * 3 / 10 + 1

end Target

/-- The shortest decimal that rounds to a finite rank. The grid of ten to the minus `scale` holds every finite value. -/
def shortest (f : Binary.Format) (rank : Nat) : Decimal :=
  if rank = 0 then ⟨0, 0⟩
  else
    let target := Target.ofRank f rank
    let start := target.startExponent
    target.search (start + f.scale).toNat start

end Reckoner.Decimal
