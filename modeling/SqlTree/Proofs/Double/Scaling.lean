import Mathlib.Tactic.NormNum
import SqlTree.Json.Numeral
import SqlTree.Proofs.Double.Error

/-!
# A significand times a power of ten

A numeral is read in up to four steps that round: its significand becomes a double, and that is
multiplied or divided by the doubles next to powers of ten (`Numeral.scale`). Here is how far that
leads from the decimal that is meant. If significand and power are doubles themselves, nothing is
rounded but the result, so the decimal is read as the double that it rounds to (`scale_exact`). In
general the result is three ranks away from it at most (`exists_scalesTo_near`).
-/

namespace SqlTree.Double

open Json

/-! ## Nearest doubles -/

/-- Is a double the nearest one to a number of units? Infinity is not near to anything. -/
structure IsNearest (y : Double) (v : ℚ) : Prop where
  finite : y.rank < infiniteRank
  rounds : RoundsTo v y.rank

theorem IsNearest.within {y : Double} {v : ℚ} {n : Nat} (h : y.IsNearest v) (hn : n ≤ 52)
    (hv : 2 ^ n ≤ v) : Within (1 + 1 / 2 ^ (n + 1)) y.units v := by
  rw [units_eq]
  exact within_of_roundsTo hn hv h.rounds

theorem isNearest_ofRank {v : ℚ} {r : Nat} (h : RoundsTo v r) (hr : r < infiniteRank) :
    (ofRank false r).IsNearest v := by
  have hrank : (ofRank false r).rank = r := rank_ofRank (hr.trans infiniteRank_lt)
  exact ⟨by rwa [hrank], by rwa [hrank]⟩

theorem IsNearest.isFinite {y : Double} {v : ℚ} (h : y.IsNearest v) : y.isFinite = true :=
  isFinite_iff.2 h.finite

theorem isNearest_ofUnits {num den : Nat} (hden : 0 < den)
    (h : (num / den : ℚ) ≤ magnitude (infiniteRank - 1)) :
    (ofUnits num den).IsNearest (num / den) := by
  have hrounds := roundsTo_nearestRank num hden
  have hle := hrounds.le (roundsTo_magnitude (infiniteRank - 1)) h
  have hfinite : nearestRank num den < infiniteRank :=
    Nat.lt_of_le_pred (by decide) hle
  rw [ofUnits_of_roundsTo hden hrounds hfinite]
  exact isNearest_ofRank hrounds hfinite

/-! ## Natural numbers -/

/-- Is a natural number at most the largest finite double? -/
def Fits (n : Nat) : Prop := n * unitsPerOne ≤ magnitude (infiniteRank - 1)

theorem Fits.of_le {m n : Nat} (h : Fits n) (hmn : m ≤ n) : Fits m :=
  (Nat.mul_le_mul_right _ hmn).trans h

/-- The exponent of the largest power of ten that is a double, and so the largest that is scaled by
in one step. -/
def maxPower : Nat := 308

theorem fits_ten_pow {k : Nat} (hk : k ≤ maxPower) : Fits (10 ^ k) := by
  have hmax : Fits (10 ^ maxPower) := by
    unfold Fits
    decide +kernel
  exact hmax.of_le (Nat.pow_le_pow_right (by omega) hk)

theorem fits_of_lt {n : Nat} (hn : n < 2 ^ 64) : Fits n :=
  (fits_ten_pow (k := 20) (by decide)).of_le (by omega)

theorem isNearest_ofNat {n : Nat} (hn : Fits n) : (ofNat n).IsNearest (n * unitsPerOne) := by
  have hle : ((n * unitsPerOne : ℕ) : ℚ) / (1 : ℕ) ≤ magnitude (infiniteRank - 1) := by
    rw [Nat.cast_one, div_one, Nat.cast_le]
    exact hn
  have h := isNearest_ofUnits Nat.one_pos hle
  rwa [Nat.cast_one, div_one, Nat.cast_mul] at h

/-- The factor by which one rounding moves a number at most. -/
def oneRounding : ℚ := 1 + 1 / 2 ^ 53

theorem within_ofNat {n : Nat} (hn : Fits n) :
    Within oneRounding (ofNat n).units (n * unitsPerOne) := by
  rcases n.eq_zero_or_pos with rfl | hpos
  · have hzero : (ofNat 0).units = 0 := by decide +kernel
    rw [hzero, Nat.cast_zero, zero_mul]
    exact ⟨by norm_num [oneRounding], (mul_zero _).ge, (mul_zero _).ge⟩
  · refine (isNearest_ofNat hn).within (n := 52) le_rfl ?_
    have hone : 2 ^ 52 ≤ unitsPerOne := by decide +kernel
    exact_mod_cast hone.trans (Nat.le_mul_of_pos_left _ hpos)

/-- Is a natural number a double, without any rounding? -/
def IsExact (n : Nat) : Prop := (ofNat n).units = n * unitsPerOne

theorem IsExact.within {n : Nat} (h : IsExact n) :
    Within 1 (ofNat n).units (n * unitsPerOne) := by
  rw [h, Nat.cast_mul]
  exact .refl _

theorem isExact_of_magnitude {n r : Nat} (hn : Fits n) (h : magnitude r = n * unitsPerOne) :
    IsExact n := by
  have hrank : RoundsTo (n * unitsPerOne) r := by
    have := roundsTo_magnitude r
    rwa [h, Nat.cast_mul] at this
  rw [IsExact, units_eq, (isNearest_ofNat hn).rounds.unique hrank, h]

theorem exists_magnitude_two_mul (r : Nat) : ∃ s, magnitude s = 2 * magnitude r := by
  obtain ⟨shift, m, rfl, hlow, hhigh, -⟩ := exists_shift r
  by_cases hm : 2 ^ 52 ≤ m
  · refine ⟨(shift + 1) * 2 ^ 52 + m, ?_⟩
    rw [magnitude_add (.inr hm) hhigh.le, magnitude_add hlow hhigh.le, Nat.pow_succ]
    ring
  · obtain rfl : shift = 0 := by omega
    refine ⟨0 * 2 ^ 52 + 2 * m, ?_⟩
    rw [magnitude_add (.inl rfl) (by omega), magnitude_add (.inl rfl) hhigh.le]
    ring

/-- A number of 53 binary digits is a double, and so are its multiples by powers of two. -/
theorem isExact_mul_two_pow {m j : Nat} (hm : m ≤ 2 ^ 53) (h : Fits (m * 2 ^ j)) :
    IsExact (m * 2 ^ j) := by
  have hmagnitude (j : Nat) : ∃ r, magnitude r = m * 2 ^ j := by
    induction j with
    | zero => exact ⟨0 * 2 ^ 52 + m, magnitude_add (.inl rfl) hm⟩
    | succ j ih =>
      obtain ⟨r, hr⟩ := ih
      obtain ⟨s, hs⟩ := exists_magnitude_two_mul r
      exact ⟨s, by rw [hs, hr, Nat.pow_succ]; ring⟩
  obtain ⟨r, hr⟩ := hmagnitude (j + 1074)
  refine isExact_of_magnitude h (r := r) ?_
  rw [hr, Nat.pow_add, ← Nat.mul_assoc, unitsPerOne]

theorem isExact_of_le {n : Nat} (hn : n ≤ 2 ^ 53) : IsExact n := by
  have h := isExact_mul_two_pow (j := 0) hn (fits_of_lt (by omega))
  rwa [Nat.pow_zero, Nat.mul_one] at h

theorem isExact_ten_pow {k : Nat} (hk : k ≤ 22) : IsExact (10 ^ k) := by
  have hfive : 5 ^ k ≤ 2 ^ 53 := (Nat.pow_le_pow_right (by omega) hk).trans (by decide)
  have hfits : Fits (10 ^ k) := fits_ten_pow (hk.trans (by decide))
  rw [show 10 = 5 * 2 from rfl, Nat.mul_pow] at hfits ⊢
  exact isExact_mul_two_pow hfive hfits

/-! ## One step of scaling -/

/-- Is a double scaled to what a number of units rounds to, if that is finite? -/
def ScalesTo (y : Double) (power : ℤ) (v : ℚ) : Prop :=
  ∀ r < infiniteRank, RoundsTo v r → Numeral.scale y power = some (ofRank false r)

theorem product_eq {x y : Double} {r : Nat} (hr : r < infiniteRank)
    (h : RoundsTo (x.units * y.units / unitsPerOne) r) : x.product y = ofRank false r := by
  refine ofUnits_of_roundsTo unitsPerOne_pos ?_ hr
  rwa [Nat.cast_mul]

theorem quotient_eq {x y : Double} {r : Nat} (hy : 0 < y.units) (hr : r < infiniteRank)
    (h : RoundsTo (x.units * unitsPerOne / y.units) r) : x.quotient y = ofRank false r := by
  refine ofUnits_of_roundsTo hy ?_ hr
  rwa [Nat.cast_mul]

theorem scalesTo_natCast (y : Double) {k : Nat} (hk : k ≤ 308) :
    ScalesTo y k (y.units * (powerOfTen k).units / unitsPerOne) := by
  intro r hr h
  have hfinite : (ofRank false r).isFinite = true := by
    rwa [isFinite_iff, rank_ofRank (hr.trans infiniteRank_lt)]
  rw [Numeral.scale.eq_def]
  simp only [hk, if_true, product_eq hr h, hfinite]

theorem powerOfTen_pos {k : Nat} (hk : k ≤ 308) : 0 < (powerOfTen k).units := by
  have h := (within_ofNat (fits_ten_pow hk)).ge
  have hpos : (0 : ℚ) < (10 ^ k : ℕ) * unitsPerOne := by
    exact_mod_cast Nat.mul_pos (Nat.pow_pos (by omega)) unitsPerOne_pos
  by_contra hzero
  rw [Nat.pos_iff_ne_zero, not_not] at hzero
  rw [powerOfTen] at hzero
  rw [hzero, Nat.cast_zero, mul_zero] at h
  exact absurd hpos (not_lt.2 h)

theorem scalesTo_negSucc (y : Double) {k : Nat} (hk : k < 308) :
    ScalesTo y (.negSucc k) (y.units * unitsPerOne / (powerOfTen (k + 1)).units) := by
  intro r hr h
  rw [Numeral.scale, Nat.div_eq_of_lt hk, Nat.mod_eq_of_lt hk, Numeral.shrink,
    quotient_eq (powerOfTen_pos hk) hr h]

theorem scalesTo_negSucc_twice {y : Double} (hy : y.units ≠ 0) {k : Nat} (hk : k < 308) :
    ScalesTo y (.negSucc (308 + k)) ((y.quotient (powerOfTen 308)).units * unitsPerOne
      / (powerOfTen (k + 1)).units) := by
  intro r hr h
  have hdiv : (308 + k) / 308 = 0 + 1 := by omega
  have hmod : (308 + k) % 308 = k := by omega
  rw [Numeral.scale, hdiv, hmod, Numeral.shrink, if_neg hy, Numeral.shrink,
    quotient_eq (powerOfTen_pos hk) hr h]

/-- A quotient by one or more is not larger than its dividend, so it does not overflow. -/
theorem isNearest_quotient {x y : Double} (hx : x.isFinite = true) (hy : unitsPerOne ≤ y.units) :
    (x.quotient y).IsNearest (x.units * unitsPerOne / y.units) := by
  have hpos : 0 < y.units := unitsPerOne_pos.trans_le hy
  have hunits : x.units ≤ magnitude (infiniteRank - 1) :=
    magnitude_strictMono.monotone (Nat.le_pred_of_lt (isFinite_iff.1 hx))
  have hle : ((x.units * unitsPerOne : ℕ) : ℚ) / y.units ≤ magnitude (infiniteRank - 1) := by
    rw [div_le_iff₀ (Nat.cast_pos.2 hpos), ← Nat.cast_mul, Nat.cast_le]
    exact Nat.mul_le_mul hunits hy
  rw [← Nat.cast_mul]
  exact isNearest_ofUnits hpos hle

/-! ## How far scaling leads -/

theorem ten_pow_units_pos (k : Nat) : (0 : ℚ) < 10 ^ k * unitsPerOne :=
  mul_pos (by positivity) unitsPerOne_cast_pos

theorem units_nonneg (n : Nat) : (0 : ℚ) ≤ n * unitsPerOne :=
  mul_nonneg (Nat.cast_nonneg n) unitsPerOne_cast_pos.le

theorem value_natCast (c k : Nat) :
    (Decimal.mk c k).value * unitsPerOne
      = c * unitsPerOne * (10 ^ k * unitsPerOne) / unitsPerOne := by
  have hone := unitsPerOne_cast_pos.ne'
  rw [Decimal.value, zpow_natCast]
  field_simp

theorem value_negSucc (c k : Nat) :
    (Decimal.mk c (.negSucc k)).value * unitsPerOne
      = c * unitsPerOne * unitsPerOne / (10 ^ (k + 1) * unitsPerOne) := by
  have hone := unitsPerOne_cast_pos.ne'
  rw [Decimal.value, zpow_negSucc]
  field_simp

section

variable {f g v w : ℚ} {k : Nat} (hv : 0 ≤ v) (hw : 0 ≤ w) (hk : k ≤ maxPower)
  (hf : Within f v w) (hg : Within g (powerOfTen k).units (10 ^ k * unitsPerOne))
include hv hw hk hf hg

theorem within_product : Within (f * g) (v * (powerOfTen k).units / unitsPerOne)
    (w * (10 ^ k * unitsPerOne) / unitsPerOne) := by
  have hp : (0 : ℚ) < (powerOfTen k).units := Nat.cast_pos.2 (powerOfTen_pos hk)
  have hten := ten_pow_units_pos k
  have hone := unitsPerOne_cast_pos
  have h := (hf.mul hv hw hp.le hten.le hg).div (mul_nonneg hv hp.le) (mul_nonneg hw hten.le)
    hone hone (.refl (unitsPerOne : ℚ))
  rwa [mul_one] at h

theorem within_quotient : Within (f * g) (v * unitsPerOne / (powerOfTen k).units)
    (w * unitsPerOne / (10 ^ k * unitsPerOne)) := by
  have hp : (0 : ℚ) < (powerOfTen k).units := Nat.cast_pos.2 (powerOfTen_pos hk)
  have hone := unitsPerOne_cast_pos
  have h := (hf.mul hv hw hone.le hone.le (.refl (unitsPerOne : ℚ))).div
    (mul_nonneg hv hone.le) (mul_nonneg hw hone.le) hp (ten_pow_units_pos k) hg
  rwa [mul_one] at h

end

/-- **One product or quotient.** The result is rounded from a number that is as far from the decimal
as significand and power together are from what they stand for. -/
theorem exists_scalesTo {c : Nat} {e : ℤ} {f g : ℚ} (he : e.natAbs ≤ maxPower)
    (hf : Within f (ofNat c).units (c * unitsPerOne))
    (hg : Within g (powerOfTen e.natAbs).units (10 ^ e.natAbs * unitsPerOne)) :
    ∃ v, ScalesTo (ofNat c) e v ∧ Within (f * g) v ((Decimal.mk c e).value * unitsPerOne) := by
  cases e with
  | ofNat k =>
    refine ⟨_, scalesTo_natCast _ he, ?_⟩
    rw [Int.ofNat_eq_natCast, value_natCast]
    exact within_product (Nat.cast_nonneg _) (units_nonneg c) he hf hg
  | negSucc k =>
    refine ⟨_, scalesTo_negSucc _ he, ?_⟩
    rw [value_negSucc]
    exact within_quotient (Nat.cast_nonneg _) (units_nonneg c) he hf hg

/-- The double next to the largest power of ten is much nearer to it than a rounding can lead. -/
theorem within_powerOfTen_max :
    Within (1 + 1 / 2 ^ 56) (powerOfTen maxPower).units (10 ^ maxPower * unitsPerOne) := by
  have hle : 2 ^ 56 * (powerOfTen maxPower).units
      ≤ (2 ^ 56 + 1) * (10 ^ maxPower * unitsPerOne) := by
    decide +kernel
  have hge : 2 ^ 56 * (10 ^ maxPower * unitsPerOne)
      ≤ (2 ^ 56 + 1) * (powerOfTen maxPower).units := by
    decide +kernel
  have hfactor {m n : Nat} (h : 2 ^ 56 * m ≤ (2 ^ 56 + 1) * n) :
      (m : ℚ) ≤ (1 + 1 / 2 ^ 56) * n := by
    have hcast : ((2 ^ 56 * m : ℕ) : ℚ) ≤ ((2 ^ 56 + 1) * n : ℕ) := Nat.cast_le.2 h
    push_cast at hcast
    linarith
  have hten : ((10 ^ maxPower * unitsPerOne : ℕ) : ℚ) = 10 ^ maxPower * unitsPerOne := by
    push_cast
    rfl
  rw [← hten]
  exact ⟨by norm_num, hfactor hle, hfactor hge⟩

section

variable {c n : Nat} (hfits : Fits c) (hn : n ≤ 52)
  (hc : 5 * 2 ^ n * 10 ^ maxPower ≤ 4 * c * unitsPerOne)
include hfits hn hc

/-- The first of two quotients. -/
theorem within_quotient_max : (ofNat c).units ≠ 0 ∧
    Within ((1 + 1 / 2 ^ (n + 1)) * (oneRounding * (1 + 1 / 2 ^ 56)))
      ((ofNat c).quotient (powerOfTen maxPower)).units
      (c * unitsPerOne * unitsPerOne / (10 ^ maxPower * unitsPerOne)) := by
  have hone := unitsPerOne_cast_pos
  have hfactor : oneRounding * (1 + 1 / 2 ^ 56) ≤ 5 / 4 := by norm_num [oneRounding]
  have hquotient := within_quotient (Nat.cast_nonneg _) (units_nonneg c) le_rfl
    (within_ofNat hfits) within_powerOfTen_max
  have hnear := isNearest_quotient (isNearest_ofNat hfits).isFinite
    (by decide +kernel : unitsPerOne ≤ (powerOfTen maxPower).units)
  have hnonneg : (0 : ℚ) ≤ (ofNat c).units * unitsPerOne / (powerOfTen maxPower).units :=
    div_nonneg (mul_nonneg (Nat.cast_nonneg _) hone.le) (Nat.cast_nonneg _)
  have hmeant : 5 / 4 * (2 : ℚ) ^ n
      ≤ c * unitsPerOne * unitsPerOne / (10 ^ maxPower * unitsPerOne) := by
    have hcast : ((5 * 2 ^ n * 10 ^ maxPower : ℕ) : ℚ) ≤ (4 * c * unitsPerOne : ℕ) :=
      Nat.cast_le.2 hc
    push_cast at hcast
    rw [mul_div_mul_right _ _ hone.ne', le_div_iff₀ (by positivity)]
    linarith
  have hlarge : (2 : ℚ) ^ n ≤ (ofNat c).units * unitsPerOne / (powerOfTen maxPower).units := by
    have hle := hmeant.trans (hquotient.ge.trans (mul_le_mul_of_nonneg_right hfactor hnonneg))
    exact le_of_mul_le_mul_left hle (by norm_num)
  refine ⟨?_, (hnear.within hn hlarge).trans hquotient⟩
  intro hzero
  rw [hzero, Nat.cast_zero, zero_mul, zero_div] at hlarge
  exact absurd hlarge (not_le.2 (by positivity))

/-- **Two quotients**, of which the first is rounded too. -/
theorem exists_scalesTo_twice {k : Nat} {g : ℚ} (hk : k < maxPower)
    (hg : Within g (powerOfTen (k + 1)).units (10 ^ (k + 1) * unitsPerOne)) :
    ∃ v, ScalesTo (ofNat c) (.negSucc (maxPower + k)) v ∧
      Within ((1 + 1 / 2 ^ (n + 1)) * (oneRounding * (1 + 1 / 2 ^ 56)) * g) v
        ((Decimal.mk c (.negSucc (maxPower + k))).value * unitsPerOne) := by
  obtain ⟨hzero, hfirst⟩ := within_quotient_max hfits hn hc
  have hone := unitsPerOne_cast_pos
  have hvalue : (Decimal.mk c (.negSucc (maxPower + k))).value * unitsPerOne
      = c * unitsPerOne * unitsPerOne / (10 ^ maxPower * unitsPerOne) * unitsPerOne
        / (10 ^ (k + 1) * unitsPerOne) := by
    rw [value_negSucc, Nat.add_assoc, pow_add]
    field_simp
  refine ⟨_, scalesTo_negSucc_twice hzero hk, ?_⟩
  rw [hvalue]
  exact within_quotient (Nat.cast_nonneg _)
    (div_nonneg (mul_nonneg (units_nonneg c) hone.le) (ten_pow_units_pos _).le) hk hfirst hg

end

/-! ## The result -/

/-- **A decimal is read as what it rounds to**, if its significand and the power of ten are doubles
themselves. -/
theorem scale_exact {d : Decimal} {r : Nat} (hc : IsExact d.coefficient)
    (he : d.exponent.natAbs ≤ 22) (hr : r < infiniteRank)
    (h : RoundsTo (d.value * unitsPerOne) r) :
    Numeral.scale (ofNat d.coefficient) d.exponent = some (ofRank false r) := by
  obtain ⟨c, e⟩ := d
  have hten : Within 1 (powerOfTen e.natAbs).units (10 ^ e.natAbs * unitsPerOne) := by
    have hexact := (isExact_ten_pow he).within
    push_cast at hexact
    exact hexact
  obtain ⟨v, hscales, hwithin⟩ := exists_scalesTo (he.trans (by decide)) hc.within hten
  rw [one_mul] at hwithin
  exact hscales r hr (hwithin.eq_of_one ▸ h)

theorem within_powerOfTen {k : Nat} (hk : k ≤ maxPower) :
    Within oneRounding (powerOfTen k).units (10 ^ k * unitsPerOne) := by
  have h := within_ofNat (fits_ten_pow hk)
  push_cast at h
  exact h

theorem value_nonneg (d : Decimal) : 0 ≤ d.value * unitsPerOne :=
  mul_nonneg (mul_nonneg (Nat.cast_nonneg _) (zpow_nonneg (by norm_num) _))
    unitsPerOne_cast_pos.le

/-- What needs two quotients is a small decimal: it needs many places. -/
theorem value_negSucc_le {c k : Nat} (h : c * unitsPerOne ≤ 2 ^ 49 * 10 ^ (maxPower + k + 1)) :
    (Decimal.mk c (.negSucc (maxPower + k))).value * unitsPerOne ≤ 2 ^ 49 := by
  have hcast : ((c * unitsPerOne : ℕ) : ℚ) ≤ (2 ^ 49 * 10 ^ (maxPower + k + 1) : ℕ) :=
    Nat.cast_le.2 h
  push_cast at hcast
  rw [value_negSucc, mul_div_mul_right _ _ unitsPerOne_cast_pos.ne', div_le_iff₀ (by positivity)]
  exact hcast

theorem exists_scalesTo_near_twice {c k : Nat} (hpos : 0 < c) (hc : c < 2 ^ 64)
    (hk : k < maxPower) : ∃ v, ScalesTo (ofNat c) (.negSucc (maxPower + k)) v ∧ 0 ≤ v ∧
      RoundsNear 3 v ((Decimal.mk c (.negSucc (maxPower + k))).value * unitsPerOne) := by
  have hfits := fits_of_lt hc
  have hnonneg := value_nonneg ⟨c, .negSucc (maxPower + k)⟩
  by_cases hlarge : 3 ≤ c ∧ k < 22
  · -- the first quotient is large enough, and the second divisor is exact
    have hmany : 5 * 2 ^ 52 * 10 ^ maxPower ≤ 4 * c * unitsPerOne := by
      have hthree : 5 * 2 ^ 52 * 10 ^ maxPower ≤ 4 * 3 * unitsPerOne := by decide +kernel
      exact hthree.trans (Nat.mul_le_mul_right _ (Nat.mul_le_mul_left 4 hlarge.1))
    have hten : Within 1 (powerOfTen (k + 1)).units (10 ^ (k + 1) * unitsPerOne) := by
      have hexact := (isExact_ten_pow hlarge.2).within
      push_cast at hexact
      exact hexact
    obtain ⟨v, hscales, hwithin⟩ := exists_scalesTo_twice hfits le_rfl hmany hk hten
    refine ⟨v, hscales, hwithin.nonneg hnonneg, roundsNear_of_within ?_ hwithin⟩
    norm_num [oneRounding]
  · -- the decimal is so small that the gap of one unit is wide
    have hmany : 5 * 2 ^ 50 * 10 ^ maxPower ≤ 4 * c * unitsPerOne := by
      have hone : 5 * 2 ^ 50 * 10 ^ maxPower ≤ 4 * 1 * unitsPerOne := by decide +kernel
      exact hone.trans (Nat.mul_le_mul_right _ (Nat.mul_le_mul_left 4 hpos))
    obtain ⟨v, hscales, hwithin⟩ :=
      exists_scalesTo_twice hfits (by omega) hmany hk (within_powerOfTen hk)
    refine ⟨v, hscales, hwithin.nonneg hnonneg, RoundsNear.mono
      (roundsNear_of_le ?_ hnonneg (value_negSucc_le ?_) hwithin) (by omega)⟩
    · norm_num [oneRounding]
    · by_cases hthree : 3 ≤ c
      · have hplaces : 2 ^ 64 * unitsPerOne ≤ 2 ^ 49 * 10 ^ (maxPower + 22 + 1) := by
          decide +kernel
        have hmore : 10 ^ (maxPower + 22 + 1) ≤ 10 ^ (maxPower + k + 1) :=
          Nat.pow_le_pow_right (by omega) (by omega)
        exact (Nat.mul_le_mul_right _ hc.le).trans (hplaces.trans (Nat.mul_le_mul_left _ hmore))
      · have hplaces : 2 * unitsPerOne ≤ 2 ^ 49 * 10 ^ (maxPower + 1) := by decide +kernel
        have hmore : 10 ^ (maxPower + 1) ≤ 10 ^ (maxPower + k + 1) :=
          Nat.pow_le_pow_right (by omega) (by omega)
        exact (Nat.mul_le_mul_right _ (by omega)).trans
          (hplaces.trans (Nat.mul_le_mul_left _ hmore))

/-- **What a decimal is read as is three ranks away at most from what it rounds to.** -/
theorem exists_scalesTo_near {d : Decimal} (hpos : 0 < d.coefficient)
    (hc : d.coefficient < 2 ^ 64) (hlow : -616 ≤ d.exponent) (hhigh : d.exponent ≤ 308) :
    ∃ v, ScalesTo (ofNat d.coefficient) d.exponent v ∧ 0 ≤ v ∧
      RoundsNear 3 v (d.value * unitsPerOne) := by
  obtain ⟨c, e⟩ := d
  simp only at hpos hc hlow hhigh ⊢
  by_cases he : e.natAbs ≤ maxPower
  · obtain ⟨v, hscales, hwithin⟩ :=
      exists_scalesTo he (within_ofNat (fits_of_lt hc)) (within_powerOfTen he)
    refine ⟨v, hscales, hwithin.nonneg (value_nonneg _), roundsNear_of_within ?_ hwithin⟩
    norm_num [oneRounding]
  · have hmax : maxPower = 308 := rfl
    obtain ⟨k, rfl⟩ : ∃ k, e = .negSucc (maxPower + k) :=
      ⟨(-e).toNat - 309, by rw [Int.negSucc_eq]; omega⟩
    exact exists_scalesTo_near_twice hpos hc (by rw [Int.negSucc_eq] at hlow; omega)

end SqlTree.Double
