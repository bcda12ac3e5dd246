import SqlTree.Double.Nearest
import SqlTree.Json.Fault

/-!
# Numerals

The text of a number is an optional minus, whole digits without a leading zero, an optional fraction
and an optional exponent. `Place.step` follows that form character by character; `Numeral.ofText`
takes a text of that form apart; `Numeral.value` says which number is meant.

A numeral without fraction and exponent is an integer as long as it fits into 64 bits, with or
without a sign. Any other is a double, but not always the nearest one: the digits are gathered into
a 64-bit significand, digits that do not fit are dropped, and the rounded significand is multiplied
or divided by a rounded power of ten.
-/

namespace SqlTree.Json

/-- The parts of the text of a number, digits as they are written. -/
structure Numeral where
  negative : Bool
  whole : List Nat
  fraction : List Nat
  /-- is the exponent negative, and its digits -/
  exponent : Option (Bool × List Nat)
  deriving DecidableEq

/-- A number as the tree to be read may want it: an integer of 64 bits, or a double. -/
inductive Number where
  | integer (n : Int)
  | double (x : Double)
  deriving DecidableEq

namespace Numeral

/-! ## Form -/

/-- Where a reader stands inside a number, named for what stands before it. -/
inductive Place where
  | sign
  | zero
  | whole
  | point
  | fraction
  | mark
  | markSign
  | exponent
  deriving DecidableEq

/-- What one more character does: it belongs to the number, the number ended before it, or it makes
the text no number at all. -/
inductive Step where
  | go (place : Place)
  | ended
  | wrong
  deriving DecidableEq

/-- May the number end here? -/
def Place.isFinal : Place → Bool
  | .zero | .whole | .fraction | .exponent => true
  | .sign | .point | .mark | .markSign => false

/-- The place behind the first character of a number, which is a minus or a digit. -/
def Place.start? (c : Char) : Option Place :=
  if c = '-' then some .sign
  else if c = '0' then some .zero
  else if c.isDigit then some .whole
  else none

/-- Reads one character of a number. -/
def Place.step (p : Place) (c : Char) : Step :=
  match p with
  | .sign => if c = '0' then .go .zero else if c.isDigit then .go .whole else .wrong
  | .zero => if c.isDigit then .wrong else stepWhole c
  | .whole => if c.isDigit then .go .whole else stepWhole c
  | .point => if c.isDigit then .go .fraction else .wrong
  | .fraction => if c.isDigit then .go .fraction else stepFraction c
  | .mark =>
    if c = '+' ∨ c = '-' then .go .markSign else if c.isDigit then .go .exponent else .wrong
  | .markSign => if c.isDigit then .go .exponent else .wrong
  | .exponent => if c.isDigit then .go .exponent else .ended
where
  /-- An exponent may follow. -/
  stepFraction (c : Char) : Step := if c = 'e' ∨ c = 'E' then .go .mark else .ended
  /-- A fraction or an exponent may follow. -/
  stepWhole (c : Char) : Step := if c = '.' then .go .point else stepFraction c

/-! ## Parts -/

/-- The values of the digits that a text begins with. -/
def digits (text : List Char) : List Nat := (text.takeWhile Char.isDigit).map fun c => c.toNat - 48

/-- What follows the digits that a text begins with. -/
def afterDigits (text : List Char) : List Char := text.dropWhile Char.isDigit

/-- The text of a number without its minus. -/
def unsigned : List Char → List Char
  | '-' :: rest => rest
  | text => text

/-- The exponent, from its mark on. -/
def exponentOf : List Char → Option (Bool × List Nat)
  | _ :: '-' :: rest => some (true, digits rest)
  | _ :: '+' :: rest => some (false, digits rest)
  | _ :: rest => some (false, digits rest)
  | [] => none

/-- The fraction and the exponent, from the point or the mark on. -/
def afterWhole : List Char → List Nat × Option (Bool × List Nat)
  | '.' :: rest => (digits rest, exponentOf (afterDigits rest))
  | text => ([], exponentOf text)

/-- The parts of a text that has the form of a number. -/
def ofText (text : List Char) : Numeral :=
  let whole := unsigned text
  let (fraction, exponent) := afterWhole (afterDigits whole)
  ⟨text.head? == some '-', digits whole, fraction, exponent⟩

/-! ## Value -/

/-- The natural number with these digits. -/
def ofDigits (ds : List Nat) : Nat := ds.foldl (fun n d => n * 10 + d) 0

/-- Appends digits to a significand while it stays below `2 ^ 64`, and counts those that no longer
fit. -/
def gather : Nat → List Nat → Nat × Nat
  | s, [] => (s, 0)
  | s, d :: ds => if s * 10 + d < 2 ^ 64 then gather (s * 10 + d) ds else (s, ds.length + 1)

/-- The significand of all digits, and the power of ten that goes with it. Whole digits that were
dropped count upwards, fraction digits that were taken count downwards. A fraction may find room
again after whole digits were dropped. -/
def significand (n : Numeral) : Nat × Int :=
  let (s, dropped) := gather 0 n.whole
  let (s, lost) := gather s n.fraction
  (s, dropped - (n.fraction.length - lost))

/-- Divides by `10 ^ 308` so many times, or until nothing is left. -/
def shrink : Nat → Double → Double
  | 0, f => f
  | k + 1, f => if f.units = 0 then f else shrink k (f.quotient (Double.powerOfTen 308))

/-- A magnitude times a power of ten, rounded at every step; `none` when it grows beyond the finite
doubles. One step reaches `10 ^ 308` either way. -/
def scale (f : Double) (power : Int) : Option Double :=
  match power with
  | .ofNat k =>
    if k ≤ 308 then
      let y := f.product (Double.powerOfTen k)
      if y.isFinite then some y else none
    else if f.units = 0 then some f
    else none
  | .negSucc k =>
    -- a divisor of `10 ^ (k + 1)`: whole steps of 308, and 1 to 308 places that remain
    some ((shrink (k / 308) f).quotient (Double.powerOfTen (k % 308 + 1)))

/-- The magnitude of a numeral as a double. An exponent of more than 31 bits is not added up: the
number is then zero or out of range. -/
def magnitude (n : Numeral) : Except Fault Double :=
  let (s, power) := n.significand
  let scaled := fun power =>
    match scale (Double.ofNat s) power with
    | some x => .ok x
    | none => .error .numberOutOfRange
  match n.exponent with
  | none => scaled power
  | some (negative, ds) =>
    if 2 ^ 31 ≤ ofDigits ds then
      if s = 0 ∨ negative then .ok (Double.ofNat 0) else .error .numberOutOfRange
    else scaled (if negative then power - ofDigits ds else power + ofDigits ds)

/-- The numeral read as a double. -/
def toDouble (n : Numeral) : Except Fault Double :=
  n.magnitude.map fun x => if n.negative then x.neg else x

/-- The integer that a numeral without fraction and exponent denotes, if 64 bits hold it. Minus zero
is none. -/
def integer? (n : Numeral) : Option Int :=
  match n.fraction, n.exponent with
  | [], none =>
    let m := ofDigits n.whole
    if n.negative then if 0 < m ∧ m ≤ 2 ^ 63 then some (-(m : Int)) else none
    else if m < 2 ^ 64 then some m else none
  | _, _ => none

/-- The number meant. -/
def value (n : Numeral) : Except Fault Number :=
  match n.integer? with
  | some m => .ok (.integer m)
  | none => n.toDouble.map .double

end Numeral

/-- An integer or a double as a double; integers are rounded to the nearest. -/
def Number.toDouble : Number → Double
  | .integer n => if n < 0 then (Double.ofNat n.natAbs).neg else Double.ofNat n.natAbs
  | .double x => x

end SqlTree.Json
