import Mathlib.Algebra.Order.Field.Basic
import Mathlib.Algebra.Order.Field.Rat
import Mathlib.Order.Monotone.Basic
import Mathlib.Tactic.FieldSimp
import Mathlib.Tactic.Linarith
import Mathlib.Tactic.Ring
import SqlTree.Double.Nearest

/-!
# Which double a number rounds to

A finite double is known by its sign and its rank, and the magnitude of a rank grows with the rank:
from each to the next by the `gap` of the rank (`magnitude_succ`). Halfway between two neighbours
lies their `tie`. A number of units *reaches* a rank when it lies above the tie below that rank, or
on it if the rank is even; it rounds to the last rank that it reaches. So no number rounds to two
ranks (`RoundsTo.unique`), and `ofUnits` gives the rank that a ratio rounds to
(`roundsTo_nearestRank`).
-/

namespace SqlTree.Double

/-! ## Magnitudes -/

/-- From one rank to the next, the magnitude grows by so many units. -/
def gap (rank : Nat) : Nat := 2 ^ (rank / 2 ^ 52 - 1)

/-- The magnitude of a rank in units. -/
def magnitude (rank : Nat) : Nat := (rank - (rank / 2 ^ 52 - 1) * 2 ^ 52) * gap rank

theorem units_eq (x : Double) : x.units = magnitude x.rank := rfl

theorem gap_pos (r : Nat) : 0 < gap r := Nat.two_pow_pos _

/-- A rank is made of a shift and a significand, and this is its magnitude. The significand may be
`2 ^ 53`, which belongs to the next shift. -/
theorem magnitude_add {shift m : Nat} (hlow : shift = 0 ∨ 2 ^ 52 ≤ m) (hhigh : m ≤ 2 ^ 53) :
    magnitude (shift * 2 ^ 52 + m) = m * 2 ^ shift := by
  unfold magnitude gap
  by_cases hcarry : m = 2 ^ 53
  · have hshift : (shift * 2 ^ 52 + m) / 2 ^ 52 - 1 = shift + 1 := by omega
    have hrest : shift * 2 ^ 52 + m - (shift + 1) * 2 ^ 52 = 2 ^ 52 := by omega
    rw [hshift, hrest, hcarry, ← Nat.pow_add, ← Nat.pow_add]
    congr 1
    omega
  · have hshift : (shift * 2 ^ 52 + m) / 2 ^ 52 - 1 = shift := by omega
    rw [hshift, Nat.add_sub_cancel_left]

/-- Every rank has a shift and a significand. -/
theorem exists_shift (r : Nat) : ∃ shift m, r = shift * 2 ^ 52 + m ∧ (shift = 0 ∨ 2 ^ 52 ≤ m)
    ∧ m < 2 ^ 53 ∧ gap r = 2 ^ shift := by
  refine ⟨r / 2 ^ 52 - 1, r - (r / 2 ^ 52 - 1) * 2 ^ 52, ?_, ?_, ?_, rfl⟩ <;> omega

theorem magnitude_succ (r : Nat) : magnitude (r + 1) = magnitude r + gap r := by
  obtain ⟨shift, m, rfl, hlow, hhigh, hgap⟩ := exists_shift r
  rw [hgap, magnitude_add hlow (by omega), Nat.add_assoc, magnitude_add (by omega) (by omega),
    Nat.add_mul, Nat.one_mul]

theorem magnitude_strictMono : StrictMono magnitude :=
  strictMono_nat_of_lt_succ fun r => by
    rw [magnitude_succ]
    exact Nat.lt_add_of_pos_right (gap_pos r)

theorem magnitude_zero : magnitude 0 = 0 := rfl

theorem gap_mono : Monotone gap := fun _ _ h =>
  Nat.pow_le_pow_right (by omega) (Nat.sub_le_sub_right (Nat.div_le_div_right h) 1)

/-! ## Ties -/

/-- Halfway between the magnitudes of a rank and of the next one. -/
def tie (rank : Nat) : ℚ := (magnitude rank + magnitude (rank + 1)) / 2

theorem lt_tie (r : Nat) : (magnitude r : ℚ) < tie r := by
  have h : (magnitude r : ℚ) < magnitude (r + 1) :=
    Nat.cast_lt.2 (magnitude_strictMono (Nat.lt_succ_self r))
  unfold tie
  linarith

theorem tie_lt (r : Nat) : tie r < magnitude (r + 1) := by
  have h : (magnitude r : ℚ) < magnitude (r + 1) :=
    Nat.cast_lt.2 (magnitude_strictMono (Nat.lt_succ_self r))
  unfold tie
  linarith

theorem tie_strictMono : StrictMono tie :=
  strictMono_nat_of_lt_succ fun r => (tie_lt r).trans (lt_tie (r + 1))

theorem tie_eq (r : Nat) : tie r = magnitude r + gap r / 2 := by
  unfold tie
  rw [magnitude_succ]
  push_cast
  ring

/-! ## Rounding -/

/-- Does a number of units round to this rank or to a higher one? A tie goes to the even rank. -/
def Reaches (v : ℚ) : Nat → Prop
  | 0 => True
  | r + 1 => tie r < v ∨ tie r = v ∧ r % 2 = 1

theorem reaches_succ {v : ℚ} {r : Nat} :
    Reaches v (r + 1) ↔ tie r < v ∨ tie r = v ∧ r % 2 = 1 := Iff.rfl

theorem reaches_even {v : ℚ} {r : Nat} (h : (r + 1) % 2 = 0) :
    Reaches v (r + 1) ↔ tie r ≤ v := by
  rw [reaches_succ, le_iff_lt_or_eq]
  simp only [show r % 2 = 1 by omega, and_true]

theorem reaches_odd {v : ℚ} {r : Nat} (h : (r + 1) % 2 = 1) :
    Reaches v (r + 1) ↔ tie r < v := by
  rw [reaches_succ]
  simp [show r % 2 = 0 by omega]

/-- Is this the rank that a number of units rounds to? -/
def RoundsTo (v : ℚ) (rank : Nat) : Prop := Reaches v rank ∧ ¬ Reaches v (rank + 1)

theorem Reaches.of_succ {v : ℚ} {r : Nat} (h : Reaches v (r + 1)) : Reaches v r := by
  cases r with
  | zero => trivial
  | succ r =>
    have hlt : tie r < tie (r + 1) := tie_strictMono (Nat.lt_succ_self r)
    rcases h with h | ⟨h, -⟩
    · exact .inl (hlt.trans h)
    · exact .inl (h ▸ hlt)

theorem Reaches.of_le {v : ℚ} {r s : Nat} (h : Reaches v s) (hrs : r ≤ s) : Reaches v r := by
  induction hrs with
  | refl => exact h
  | step _ ih => exact ih h.of_succ

theorem Reaches.mono {v w : ℚ} {r : Nat} (h : Reaches v r) (hvw : v ≤ w) : Reaches w r := by
  cases r with
  | zero => trivial
  | succ r =>
    rcases h with h | ⟨h, hodd⟩
    · exact .inl (h.trans_le hvw)
    · rcases hvw.lt_or_eq with hlt | heq
      · exact .inl (h ▸ hlt)
      · exact .inr ⟨h.trans heq, hodd⟩

theorem reaches_of_magnitude_le {v : ℚ} {r : Nat} (h : (magnitude r : ℚ) ≤ v) : Reaches v r := by
  cases r with
  | zero => trivial
  | succ r => exact .inl ((tie_lt r).trans_le h)

theorem not_reaches_of_lt_tie {v : ℚ} {r : Nat} (h : v < tie r) : ¬ Reaches v (r + 1) := by
  rintro (hlt | ⟨heq, -⟩)
  · exact lt_asymm h hlt
  · exact h.ne' heq

theorem RoundsTo.le {v w : ℚ} {r s : Nat} (hv : RoundsTo v r) (hw : RoundsTo w s) (hvw : v ≤ w) :
    r ≤ s := by
  by_contra hlt
  exact hw.2 ((hv.1.mono hvw).of_le (by omega))

/-- **No number rounds to two ranks.** -/
theorem RoundsTo.unique {v : ℚ} {r s : Nat} (hr : RoundsTo v r) (hs : RoundsTo v s) : r = s :=
  Nat.le_antisymm (hr.le hs le_rfl) (hs.le hr le_rfl)

/-- A magnitude rounds to its own rank. -/
theorem roundsTo_magnitude (r : Nat) : RoundsTo (magnitude r) r :=
  ⟨reaches_of_magnitude_le le_rfl, not_reaches_of_lt_tie (lt_tie r)⟩

/-! ## The nearest double -/

theorem roundDiv_even_cases (num den : Nat) :
    (roundDiv .even num den = num / den
        ∧ (2 * (num % den) < den ∨ 2 * (num % den) = den ∧ num / den % 2 = 0))
      ∨ (roundDiv .even num den = num / den + 1
        ∧ (den < 2 * (num % den) ∨ 2 * (num % den) = den ∧ num / den % 2 = 1)) := by
  unfold roundDiv
  split
  · next h => exact .inl ⟨rfl, .inl h⟩
  split
  · next h => exact .inr ⟨rfl, .inl h⟩
  rcases Nat.mod_two_eq_zero_or_one (num / den) with heven | hodd
  · exact .inl ⟨by simp [heven], .inr ⟨by omega, heven⟩⟩
  · exact .inr ⟨by simp [hodd], .inr ⟨by omega, hodd⟩⟩

/-- The rank that `ofUnits` finds, before it is cut off at infinity. -/
def nearestRank (num den : Nat) : Nat :=
  ((num / den).log2 - 52) * 2 ^ 52 + roundDiv .even num (den * 2 ^ ((num / den).log2 - 52))

theorem ofUnits_eq (num den : Nat) :
    ofUnits num den = ofRank false (min infiniteRank (nearestRank num den)) := rfl

/-- The significand before rounding has 53 digits, or fewer if the shift is zero. -/
theorem quotient_bounds (n : Nat) :
    (n.log2 - 52 = 0 ∨ 2 ^ 52 ≤ n / 2 ^ (n.log2 - 52)) ∧ n / 2 ^ (n.log2 - 52) < 2 ^ 53 := by
  constructor
  · by_cases hshift : n.log2 - 52 = 0
    · exact .inl hshift
    · have hn : n ≠ 0 := by
        rintro rfl
        exact hshift (by simp)
      refine .inr ((Nat.le_div_iff_mul_le (Nat.two_pow_pos _)).2 ?_)
      rw [← Nat.pow_add, show 52 + (n.log2 - 52) = n.log2 by omega]
      exact Nat.log2_self_le hn
  · rw [Nat.div_lt_iff_lt_mul (Nat.two_pow_pos _), ← Nat.pow_add]
    exact Nat.lt_log2_self.trans_le (Nat.pow_le_pow_right (by omega) (by omega))

section

variable (num : Nat) {den : Nat} (hden : 0 < den) (shift : Nat)
include hden

theorem quotient_le :
    ((num / (den * 2 ^ shift) : Nat) * 2 ^ shift : ℚ) ≤ num / den := by
  rw [le_div_iff₀ (Nat.cast_pos.2 hden)]
  calc ((num / (den * 2 ^ shift) : Nat) * 2 ^ shift * den : ℚ)
      = (num / (den * 2 ^ shift) * (den * 2 ^ shift) : Nat) := by push_cast; ring
    _ ≤ num := Nat.cast_le.2 (Nat.div_mul_le_self _ _)

theorem lt_quotient :
    (num / den : ℚ) < ((num / (den * 2 ^ shift) : Nat) + 1) * 2 ^ shift := by
  rw [div_lt_iff₀ (Nat.cast_pos.2 hden)]
  calc (num : ℚ) < ((num / (den * 2 ^ shift) + 1) * (den * 2 ^ shift) : Nat) := by
        rw [Nat.cast_lt, Nat.add_mul, Nat.one_mul]
        exact Nat.lt_div_mul_add (Nat.mul_pos hden (Nat.two_pow_pos shift))
    _ = ((num / (den * 2 ^ shift) : Nat) + 1) * 2 ^ shift * den := by push_cast; ring

/-- How far a ratio lies from the middle between two multiples of `2 ^ shift`. -/
theorem ratio_eq :
    (num / den : ℚ) = (2 * (num / (den * 2 ^ shift) : Nat) + 1) / 2 * 2 ^ shift
      + (2 * (num % (den * 2 ^ shift) : Nat) - (den * 2 ^ shift : Nat)) / (2 * den) := by
  have hdiv : (den * 2 ^ shift : ℚ) * (num / (den * 2 ^ shift) : Nat)
      + (num % (den * 2 ^ shift) : Nat) = num := by
    exact_mod_cast Nat.div_add_mod num (den * 2 ^ shift)
  have hpos : (den : ℚ) ≠ 0 := Nat.cast_ne_zero.2 hden.ne'
  rw [← hdiv]
  push_cast
  field_simp
  ring

end

theorem tie_add {shift n : Nat} (hlow : shift = 0 ∨ 2 ^ 52 ≤ n) (hhigh : n < 2 ^ 53) :
    tie (shift * 2 ^ 52 + n) = (2 * n + 1) / 2 * 2 ^ shift := by
  unfold tie
  rw [magnitude_add hlow hhigh.le, Nat.add_assoc, magnitude_add (by omega) (by omega)]
  push_cast
  ring

/-- **A ratio rounds to the rank that is computed for it.** -/
theorem roundsTo_nearestRank (num : Nat) {den : Nat} (hden : 0 < den) :
    RoundsTo (num / den) (nearestRank num den) := by
  unfold nearestRank
  obtain ⟨hlow, hhigh⟩ := quotient_bounds (num / den)
  rw [Nat.div_div_eq_div_mul] at hlow hhigh
  generalize (num / den).log2 - 52 = shift at hlow hhigh ⊢
  have hle := quotient_le num hden shift
  have hlt := lt_quotient num hden shift
  have hratio := ratio_eq num hden shift
  have hcases := roundDiv_even_cases num (den * 2 ^ shift)
  generalize num / (den * 2 ^ shift) = n at *
  generalize num % (den * 2 ^ shift) = m at *
  generalize den * 2 ^ shift = step at *
  rw [← tie_add hlow hhigh] at hratio
  have hpos : (0 : ℚ) < 2 * den := by
    have : (0 : ℚ) < den := Nat.cast_pos.2 hden
    linarith
  rcases hcases with ⟨hround, hbelow⟩ | ⟨hround, habove⟩
  · -- the ratio is rounded down, so it lies at or below the tie
    rw [hround]
    refine ⟨reaches_of_magnitude_le ?_, ?_⟩
    · rw [magnitude_add hlow hhigh.le]
      push_cast
      exact hle
    · rcases hbelow with hbelow | ⟨hequal, heven⟩
      · refine not_reaches_of_lt_tie ?_
        have hneg : (2 * m - step : ℚ) / (2 * den) < 0 :=
          div_neg_of_neg_of_pos (sub_neg.2 (by exact_mod_cast hbelow)) hpos
        linarith
      · have hzero : (2 * m - step : ℚ) = 0 := sub_eq_zero.2 (by exact_mod_cast hequal)
        rw [hzero, zero_div, add_zero] at hratio
        rw [reaches_succ]
        rintro (habove | ⟨-, hodd⟩)
        · exact absurd hratio habove.ne'
        · omega
  · -- the ratio is rounded up, so it lies at or above the tie, and below the next multiple
    rw [hround, ← Nat.add_assoc]
    constructor
    · rw [reaches_succ]
      rcases habove with habove | ⟨hequal, hodd⟩
      · left
        have hneg : 0 < (2 * m - step : ℚ) / (2 * den) :=
          div_pos (sub_pos.2 (by exact_mod_cast habove)) hpos
        linarith
      · have hzero : (2 * m - step : ℚ) = 0 := sub_eq_zero.2 (by exact_mod_cast hequal)
        rw [hzero, zero_div, add_zero] at hratio
        exact .inr ⟨hratio.symm, by omega⟩
    · refine not_reaches_of_lt_tie (lt_trans ?_ (lt_tie _))
      rw [Nat.add_assoc, magnitude_add (by omega) (by omega)]
      push_cast
      exact hlt

/-! ## Doubles by their rank -/

theorem rank_lt (x : Double) : x.rank < 2 ^ 63 := Nat.mod_lt _ (Nat.two_pow_pos 63)

@[simp] theorem rank_ofRank {b : Bool} {r : Nat} (hr : r < 2 ^ 63) : (ofRank b r).rank = r := by
  unfold rank ofRank
  rw [UInt64.toNat_ofNat']
  cases b <;> simp <;> omega

@[simp] theorem negative_ofRank {b : Bool} {r : Nat} (hr : r < 2 ^ 63) :
    (ofRank b r).negative = b := by
  unfold negative ofRank
  rw [UInt64.toNat_ofNat']
  cases b <;> simp <;> omega

/-- A double is its sign and its rank. -/
theorem eq_of_rank_eq {x y : Double} (hsign : x.negative = y.negative) (hrank : x.rank = y.rank) :
    x = y := by
  have hx := x.bits.toNat_lt
  have hy := y.bits.toNat_lt
  have hbits : x.bits.toNat = y.bits.toNat := by
    unfold negative at hsign
    unfold rank at hrank
    rw [decide_eq_decide] at hsign
    omega
  obtain ⟨bits⟩ := x
  obtain ⟨bits'⟩ := y
  exact congrArg Double.mk (UInt64.toNat_inj.1 hbits)

theorem ofRank_rank (x : Double) : ofRank x.negative x.rank = x :=
  eq_of_rank_eq (negative_ofRank x.rank_lt) (rank_ofRank x.rank_lt)

theorem isFinite_iff {x : Double} : x.isFinite = true ↔ x.rank < infiniteRank := decide_eq_true_iff

theorem infiniteRank_lt : infiniteRank < 2 ^ 63 := by decide

/-- The double that a ratio rounds to, when it is finite. -/
theorem ofUnits_of_roundsTo {num den r : Nat} (hden : 0 < den) (h : RoundsTo (num / den) r)
    (hr : r < infiniteRank) : ofUnits num den = ofRank false r := by
  rw [ofUnits_eq, (roundsTo_nearestRank num hden).unique h, Nat.min_eq_right hr.le]

end SqlTree.Double
