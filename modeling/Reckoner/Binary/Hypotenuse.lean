import Reckoner.Binary.Value

/-!
# Hypotenuse

The distance of a point from the origin, rounded once. The root is taken of a number with so many bits behind the point that the places that are rounded off begin well before the last of them, and a last bit of one stands for whatever is left.
-/

namespace Reckoner

/-- The largest number whose square is at most `n`. -/
def squareRoot (n : Nat) : Nat :=
  if h : n = 0 then 0
  else
    let r := 2 * squareRoot (n / 4)
    if (r + 1) * (r + 1) ≤ n then r + 1 else r
  termination_by n
  decreasing_by omega

namespace Binary

variable {f : Format}

/-- The distance from the origin. It is infinite where a coordinate is, whatever the other may be. -/
def hypotenuse (x y : Binary f) : Binary f :=
  if x.isInfinite || y.isInfinite then infinity false
  else
    match x, y with
    | nan, _ => nan
    | _, nan => nan
    | signed _ rankX _, signed _ rankY _ =>
      let square := f.units rankX * f.units rankX + f.units rankY * f.units rankY
      let scaled := square * (f.binade * f.binade * 16)
      let root := squareRoot scaled
      rounded false (2 * root + if root * root = scaled then 0 else 1) (8 * f.binade)

end Binary

end Reckoner
