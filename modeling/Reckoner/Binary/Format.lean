/-!
# Binary formats

A binary floating-point format, and the magnitudes it can hold. A magnitude is named by its rank, its place in increasing order: rank zero is zero, rank one the least positive value, and the rank after the largest finite value is infinity. Ranks are also the bits of a magnitude, so the order of the bits is the order of the values. Every value is a whole number of units, the unit being the least positive value; within a binade the ranks are evenly spaced, and each binade has as many ranks as the one below.
-/

namespace Reckoner

/-- Rounding of a quotient to a whole number, a half going to the even neighbour. -/
def divHalfEven (n d : Nat) : Nat :=
  let q := n / d
  let r := n % d
  if 2 * r < d then q else if d < 2 * r then q + 1 else q + q % 2

namespace Binary

structure Format where
  /-- The number of significand bits behind the leading one. -/
  fractionBits : Nat
  exponentBits : Nat
  /-- The unit is two to the minus `scale`. -/
  scale : Nat
deriving DecidableEq, Repr

namespace Format

/-- Four bytes: 24 significant bits, units of two to the minus 149. -/
def single : Format := ⟨23, 8, 149⟩

/-- Eight bytes: 53 significant bits, units of two to the minus 1074. -/
def double : Format := ⟨52, 11, 1074⟩

/-- How many units make one. -/
def one (f : Format) : Nat := Nat.pow 2 f.scale

def binade (f : Format) : Nat := Nat.pow 2 f.fractionBits

def infinity (f : Format) : Nat := (Nat.pow 2 f.exponentBits - 1) * f.binade

/-- The value of a rank in units. The formula goes on past the largest finite value, as if there were further binades. -/
def units (f : Format) (rank : Nat) : Nat :=
  if rank < f.binade then rank else (f.binade + rank % f.binade) * Nat.pow 2 (rank / f.binade - 1)

/-- The rank nearest to a quotient in units, the even one of two equally near; infinity from half a step beyond the largest finite value on. -/
def nearestRank (f : Format) (n d : Nat) : Nat :=
  let shift := (n / d).log2 - f.fractionBits
  min f.infinity (shift * f.binade + divHalfEven n (d * Nat.pow 2 shift))

theorem nearestRank_le (f : Format) (n d : Nat) : f.nearestRank n d ≤ f.infinity := Nat.min_le_left ..

end Format

end Binary

end Reckoner
