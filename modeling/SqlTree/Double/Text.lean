import SqlTree.Double.Shortest

/-!
# Doubles as text

Two layouts of the shortest digits. In SQL a number is always positional and a whole number has no
point; in a stored document a whole number keeps one place (`1.0`), and a number far from one is
written with an exponent (`1e+16`, `5e-324`). Where two shortest decimals are equally near to a
number (as for `2 ^ -25`), SQL takes the larger and a document the even one.
-/

namespace SqlTree

namespace Decimal

/-- The digits of the coefficient. -/
def digits (d : Decimal) : List Char := Nat.toDigits 10 d.coefficient

/-- The exponent of the first digit: `d` is `d₁.d₂… * 10 ^ leading`. -/
def leading (d : Decimal) : Int := d.exponent + d.digits.length - 1

/-- Positional notation; a whole number has neither point nor places. -/
def positional (d : Decimal) : List Char :=
  if 0 ≤ d.exponent then d.digits ++ List.replicate d.exponent.toNat '0'
  else
    let places := (-d.exponent).toNat
    if places < d.digits.length then
      d.digits.take (d.digits.length - places) ++ '.' :: d.digits.drop (d.digits.length - places)
    else '0' :: '.' :: (List.replicate (places - d.digits.length) '0' ++ d.digits)

/-- Scientific notation: one digit before the point, and an exponent that always has a sign. -/
def scientific (d : Decimal) : List Char :=
  let mantissa := match d.digits with
    | [] => []
    | [first] => [first]
    | first :: rest => first :: '.' :: rest
  let sign := if d.leading < 0 then '-' else '+'
  mantissa ++ 'e' :: sign :: Nat.toDigits 10 d.leading.natAbs

/-- Is the number written positionally in a stored document? -/
def isModerate (d : Decimal) : Bool := decide (-5 ≤ d.leading ∧ d.leading ≤ 15)

/-- The text in a stored document, which always shows a point or an exponent. -/
def stored (d : Decimal) : List Char :=
  if d.isModerate then
    if 0 ≤ d.exponent then d.positional ++ ['.', '0'] else d.positional
  else d.scientific

end Decimal

namespace Double

/-- The sign as it is written in front of the digits. -/
def signText (x : Double) : List Char := if x.negative then ['-'] else []

/-- The text of a number in SQL. Only finite numbers have an SQL literal; the other texts appear in
messages and in trees built without the check. -/
def sql (x : Double) : String :=
  if x.isFinite then String.ofList (x.signText ++ (x.shortest .up).positional)
  else if x.isNaN then "NaN"
  else String.ofList (x.signText ++ ['i', 'n', 'f'])

/-- The text of a number in a stored document, which has no form for NaN and the infinities and
writes `null` in their place. -/
def stored (x : Double) : String :=
  if x.isFinite then String.ofList (x.signText ++ (x.shortest .even).stored) else "null"

end Double

end SqlTree
