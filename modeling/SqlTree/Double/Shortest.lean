import SqlTree.Double.Nearest

/-!
# The shortest decimal of a double

Among the decimals that round to a given double, `Double.shortest` is one with the fewest digits,
and of those the one nearest to the double. The search tries 1, 2, … 17 digits. On the grid of
decimals with so many digits only the two neighbours of the double need a look: if any point of the
grid rounds to the double, one of those two does. Seventeen digits always suffice.

A decimal and a double are compared in the common unit `2 ^ -1076 * 10 ^ -340`, in which both are
whole numbers, and so are the ends of the interval that rounds to the double.
-/

namespace SqlTree

/-- The number `coefficient * 10 ^ exponent`. -/
structure Decimal where
  coefficient : Nat
  exponent : Int
  deriving DecidableEq

namespace Double

/-- Decimals are counted in units of `10 ^ -decimalPlaces`: sixteen places below the first digit of
the smallest double. -/
def decimalPlaces : Nat := 340

/-- The magnitude in common units, which are a quarter of a unit of `2 ^ -1074`, divided by
`10 ^ decimalPlaces`. -/
def centre (x : Double) : Nat := 4 * x.units * 10 ^ decimalPlaces

/-- Half the gap to the next larger magnitude. -/
def reachUp (x : Double) : Nat := 2 * 2 ^ x.shift * 10 ^ decimalPlaces

/-- Half the gap to the next smaller magnitude, which is half as wide below a power of two. -/
def reachDown (x : Double) : Nat :=
  if x.significand = 2 ^ 52 ∧ 0 < x.shift then x.reachUp / 2 else x.reachUp

/-- Does a decimal, given in common units, round to the magnitude of `x`? The two ends are ties,
which round to `x` when its significand is even. -/
def attracts (x : Double) (point : Nat) : Bool :=
  if x.significand % 2 = 0 then
    decide (x.centre ≤ point + x.reachDown ∧ point ≤ x.centre + x.reachUp)
  else
    decide (x.centre < point + x.reachDown ∧ point < x.centre + x.reachUp)

/-- The number of digits of `x` in units of `10 ^ -decimalPlaces`: at least seventeen, unless `x` is
zero. -/
def decimalLength (x : Double) : Nat :=
  (Nat.toDigits 10 (x.units * 10 ^ decimalPlaces / unitsPerOne)).length

/-- The distance of neighbouring decimals with `n` digits near `x`, in common units. -/
def gridStep (x : Double) (n : Nat) : Nat := 4 * 10 ^ (x.decimalLength - n) * unitsPerOne

/-- Which of the two neighbours of `centre` on a grid is taken, when each of them, below and above,
is allowed or not. -/
def neighbour? (tie : Tie) (centre step : Nat) : (below above : Bool) → Option Nat
  | true, true => some (roundDiv tie centre step)
  | true, false => some (centre / step)
  | false, true => some (centre / step + 1)
  | false, false => none

/-- The multiple of the grid step that rounds to `x` and is nearest to it. -/
def onGrid? (tie : Tie) (x : Double) (n : Nat) : Option Nat :=
  let step := x.gridStep n
  let below := x.centre / step
  neighbour? tie x.centre step (x.attracts (below * step)) (x.attracts ((below + 1) * step))

/-- The decimal `point` steps from zero on the grid with `n` digits. The upper neighbour of `99…9`
has one digit more, and is a power of ten. -/
def decimalOnGrid (x : Double) (n point : Nat) : Decimal :=
  let exponent : Int := (x.decimalLength : Int) - n - decimalPlaces
  if point = 10 ^ n then ⟨1, exponent + n⟩ else ⟨point, exponent⟩

/-- The magnitude of a finite number in the fewest digits that round to it, and among so many the
nearest to it. Zero is `0`. -/
def shortest (tie : Tie) (x : Double) : Decimal :=
  if x.units = 0 then ⟨0, 0⟩
  else
    ((List.range 17).findSome? fun i =>
      (x.onGrid? tie (i + 1)).map (x.decimalOnGrid (i + 1))).getD ⟨0, 0⟩

end Double

end SqlTree
