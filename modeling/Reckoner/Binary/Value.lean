import Reckoner.Binary.Format

/-!
# Binary numbers

A number of a binary format is a sign and the rank of a magnitude, or no number at all. Two zeros and two infinities differ by their sign.
-/

namespace Reckoner

inductive Binary (f : Binary.Format) where
  | nan
  | signed (negative : Bool) (rank : Nat) (rank_le : rank ≤ f.infinity)
deriving DecidableEq, Repr

namespace Binary

variable {f : Format}

def zero (negative : Bool) : Binary f := signed negative 0 (Nat.zero_le _)

def infinity (negative : Bool) : Binary f := signed negative f.infinity (Nat.le_refl _)

/-- The number nearest to a quotient in units, with the given sign. -/
def rounded (negative : Bool) (n d : Nat) : Binary f :=
  signed negative (f.nearestRank n d) (f.nearestRank_le n d)

def isNegative : Binary f → Bool
  | nan => false
  | signed negative _ _ => negative

def isZero : Binary f → Bool
  | nan => false
  | signed _ rank _ => rank == 0

def isInfinite : Binary f → Bool
  | nan => false
  | signed _ rank _ => rank == f.infinity

def isFinite : Binary f → Bool
  | nan => false
  | signed _ rank _ => rank != f.infinity

def ofInt (n : Int) : Binary f := rounded (n < 0) (n.natAbs * f.one) 1

/-- The same number in another format, or the nearest one there. -/
def convert (g : Format) : Binary f → Binary g
  | nan => nan
  | signed negative rank _ =>
    if rank = f.infinity then infinity negative else rounded negative (f.units rank * g.one) f.one

/-! ### Bit patterns -/

def signWeight (f : Format) : Nat := Nat.pow 2 (f.fractionBits + f.exponentBits)

/-- The number of a bit pattern. Magnitude bits beyond those of infinity stand for no number. -/
def ofBits (f : Format) (bits : Nat) : Binary f :=
  let rank := bits % signWeight f
  if h : rank ≤ f.infinity then signed (bits / signWeight f % 2 == 1) rank h else nan

def bits? : Binary f → Option Nat
  | nan => none
  | signed negative rank _ => some (if negative then signWeight f + rank else rank)

end Binary

end Reckoner
