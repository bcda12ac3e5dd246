/-!
# Double precision numbers

A `Double` is the 64 bits of a binary floating point number: a sign, and below it the *rank*, which
counts the magnitudes from zero upwards (`0`, the smallest subnormal, …, the largest finite number,
infinity, then the NaNs).

The magnitude of a finite number is a whole number of *units* of `2 ^ -1074`, the smallest positive
double. Everything that this library says about the value of a double is therefore said in `Nat`:
no rational arithmetic, and none of the machine's.
-/

-- `^` is the power of natural numbers itself, also where more general powers are in scope
attribute [default_instance 20000,
instance 20000] instPowNat

namespace SqlTree

/-- A double precision number, given by its bits. -/
structure Double where
  bits : UInt64
  deriving DecidableEq

namespace Double

/-- Is the sign bit set? Zero has a sign too. -/
def negative (x : Double) : Bool := decide (2 ^ 63 ≤ x.bits.toNat)

/-- The bits below the sign: how many magnitudes are smaller than this one. -/
def rank (x : Double) : Nat := x.bits.toNat % 2 ^ 63

/-- The rank of the infinities. Finite numbers lie below it and NaNs above. -/
def infiniteRank : Nat := 2047 * 2 ^ 52

def isFinite (x : Double) : Bool := decide (x.rank < infiniteRank)

def isNaN (x : Double) : Bool := decide (infiniteRank < x.rank)

/-- The number with this sign and rank. -/
def ofRank (negative : Bool) (rank : Nat) : Double :=
  ⟨UInt64.ofNat ((if negative then 2 ^ 63 else 0) + rank)⟩

/-! ## The value of a finite number -/

/-- The gap to the next larger magnitude is `2 ^ shift` units. -/
def shift (x : Double) : Nat := x.rank / 2 ^ 52 - 1

/-- The magnitude counted in gaps: below `2 ^ 53`, and from `2 ^ 52` on unless the shift is zero. -/
def significand (x : Double) : Nat := x.rank - x.shift * 2 ^ 52

/-- The magnitude of a finite number in units of `2 ^ -1074`. -/
def units (x : Double) : Nat := x.significand * 2 ^ x.shift

/-- The number of units in one. -/
def unitsPerOne : Nat := 2 ^ 1074

/-- The number with the other sign. -/
def neg (x : Double) : Double := ofRank (!x.negative) x.rank

/-- Equality of the numbers meant, not of the bits: the two zeros are equal, and a NaN is equal to
nothing. -/
def same (x y : Double) : Bool :=
  !x.isNaN && !y.isNaN && (x == y || (x.rank == 0 && y.rank == 0))

end Double

end SqlTree
