import SqlTree.Double.Basic

/-!
# Rounding to the nearest

A ratio of natural numbers is rounded to the nearest natural number, and through it to the nearest
double: a tie goes to the double with the even significand, and a ratio too large becomes infinity.
Products and quotients are their exact value rounded once.
-/

namespace SqlTree

/-- Which of two numbers that are equally near is taken: the even one, or the larger. -/
inductive Tie where
  | even
  | up
  deriving DecidableEq

/-- The natural number nearest to `num / den`. -/
def roundDiv (tie : Tie) (num den : Nat) : Nat :=
  if 2 * (num % den) < den then num / den
  else if den < 2 * (num % den) then num / den + 1
  else match tie with
    | .even => num / den + num / den % 2
    | .up => num / den + 1

namespace Double

/-- The double nearest to `num / den` units. The gap is chosen so that the significand has 53
digits, or is the unit where fewer are left; a significand rounded up to `2 ^ 53` carries into the
shift, for a rank is `shift * 2 ^ 52 + significand` on both sides of such a step. -/
def ofUnits (num den : Nat) : Double :=
  let shift := (num / den).log2 - 52
  ofRank false (min infiniteRank (shift * 2 ^ 52 + roundDiv .even num (den * 2 ^ shift)))

/-- The double nearest to a natural number. -/
def ofNat (n : Nat) : Double := ofUnits (n * unitsPerOne) 1

/-- The product of two magnitudes, rounded once. -/
def product (x y : Double) : Double := ofUnits (x.units * y.units) unitsPerOne

/-- The quotient of two magnitudes, rounded once. -/
def quotient (x y : Double) : Double := ofUnits (x.units * unitsPerOne) y.units

/-- The double nearest to `10 ^ k`. -/
def powerOfTen (k : Nat) : Double := ofNat (10 ^ k)

end Double

end SqlTree
