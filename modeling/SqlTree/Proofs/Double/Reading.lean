import SqlTree.Proofs.Double.Denotes
import SqlTree.Proofs.Double.Scaling

/-!
# A double is read from its own text

The text of a double shows at most seventeen digits, so the reader of numerals gathers all of them,
and scales the significand by the power of ten that is meant (`Numeral.magnitude_eq`). What that
gives is finite and at most three ranks away from the double (`Double.exists_value_stored`): the
text rounds to the double, but the reader rounds more than once. It rounds only once, and gives the
double back, where the significand and the power of ten that are shown are doubles themselves
(`Double.value_stored_of_isPlain`).
-/

namespace SqlTree

namespace Json.Numeral

/-! ## The digits are gathered -/

theorem ofDigits_cons (d : Nat) (ds : List Nat) :
    ofDigits (d :: ds) = d * 10 ^ ds.length + ofDigits ds := by
  rw [← List.singleton_append, ofDigits_append]
  simp [ofDigits]

/-- Digits that make a number below `2 ^ 64` are all taken. -/
theorem gather_eq {s : Nat} {ds : List Nat} (h : s * 10 ^ ds.length + ofDigits ds < 2 ^ 64) :
    gather s ds = (s * 10 ^ ds.length + ofDigits ds, 0) := by
  induction ds generalizing s with
  | nil => simp [gather, ofDigits]
  | cons d ds ih =>
    have hnext : s * 10 ^ (d :: ds).length + ofDigits (d :: ds)
        = (s * 10 + d) * 10 ^ ds.length + ofDigits ds := by
      rw [ofDigits_cons, List.length_cons, Nat.pow_succ]
      ring
    rw [hnext] at h ⊢
    have hpow : 0 < 10 ^ ds.length := Nat.pow_pos (by omega)
    have hfits := Nat.le_mul_of_pos_right (s * 10 + d) hpow
    rw [gather, if_pos (by omega), ih h]

theorem significand_eq {n : Numeral} (h : n.decimal.coefficient < 2 ^ 64) :
    n.significand = (n.decimal.coefficient, -(n.fraction.length : ℤ)) := by
  have hcoefficient : n.decimal.coefficient
      = ofDigits n.whole * 10 ^ n.fraction.length + ofDigits n.fraction := ofDigits_append _ _
  rw [hcoefficient] at h ⊢
  have hwhole : gather 0 n.whole = (ofDigits n.whole, 0) := by
    have hpow : 0 < 10 ^ n.fraction.length := Nat.pow_pos (by omega)
    have hfits := Nat.le_mul_of_pos_right (ofDigits n.whole) hpow
    rw [gather_eq (by omega), Nat.zero_mul, Nat.zero_add]
  rw [significand, hwhole]
  simp only [gather_eq h]
  simp

/-- The decimal that is meant is scaled, if its digits fit and its exponent does. -/
theorem magnitude_eq {n : Numeral} {x : Double} (hc : n.decimal.coefficient < 2 ^ 64)
    (he : ∀ b ds, n.exponent = some (b, ds) → ofDigits ds < 2 ^ 31)
    (h : scale (Double.ofNat n.decimal.coefficient) n.decimal.exponent = some x) :
    n.magnitude = .ok x := by
  rw [magnitude, significand_eq hc]
  rcases hexp : n.exponent with _ | ⟨b, ds⟩
  · have hpower : n.decimal.exponent = -(n.fraction.length : ℤ) := by simp [decimal, power, hexp]
    rw [hpower] at h
    simp only [h]
  · have hpower : (if b then -(n.fraction.length : ℤ) - ofDigits ds
        else -(n.fraction.length : ℤ) + ofDigits ds) = n.decimal.exponent := by
      cases b <;> simp [decimal, power, hexp] <;> omega
    simp only [if_neg (Nat.not_le.2 (he b ds hexp)), hpower, h]

/-- A number with a fraction or an exponent is no integer. -/
theorem integer?_of_not_whole {n : Numeral} (h : n.fraction ≠ [] ∨ n.exponent ≠ none) :
    n.integer? = none := by
  unfold integer?
  split
  · next hfraction hexponent => simp [hfraction, hexponent] at h
  · rfl

theorem integer?_eq_none {n : Numeral} {d : Decimal} (h : Decimal.Shows n d) :
    n.integer? = none := by
  obtain ⟨hdecimal, ⟨hnone, hplaces⟩ | ⟨b, ds, hsome, -⟩⟩ := h
  · refine integer?_of_not_whole (.inl fun hnil => ?_)
    have hexponent : n.decimal.exponent = 0 := by simp [decimal, power, hnone, hnil]
    rw [hdecimal] at hexponent
    omega
  · exact integer?_of_not_whole (.inr (by rw [hsome]; exact Option.some_ne_none _))

end Json.Numeral

/-! ## The decimal that is shown -/

/-- The zeros that a whole number is filled up with do not make it longer than a double is. -/
theorem Decimal.shown_coefficient_lt {d : Decimal} (h : d.coefficient < 10 ^ 17) :
    d.shown.coefficient < 10 ^ 17 := by
  unfold shown
  split
  · next hshown =>
    obtain ⟨hmoderate, hexp⟩ := hshown
    have hleading : d.leading ≤ 15 := (of_decide_eq_true hmoderate).2
    have hpos : 0 < d.digits.length := List.length_pos_of_ne_nil digits_ne_nil
    have hlt : d.coefficient < 10 ^ d.digits.length := (length_digits_le_iff hpos).1 le_rfl
    unfold leading at hleading
    calc d.coefficient * 10 ^ (d.exponent.toNat + 1)
        < 10 ^ d.digits.length * 10 ^ (d.exponent.toNat + 1) :=
          Nat.mul_lt_mul_of_pos_right hlt (Nat.pow_pos (by omega))
      _ = 10 ^ (d.digits.length + (d.exponent.toNat + 1)) := (Nat.pow_add _ _ _).symm
      _ ≤ 10 ^ 17 := Nat.pow_le_pow_right (by omega) (by omega)
  · exact h

theorem Decimal.shown_exponent (d : Decimal) :
    d.shown.exponent = d.exponent ∨ d.shown.exponent = -1 := by
  unfold shown
  split
  · exact .inr rfl
  · exact .inl rfl

namespace Double

open Json Json.Numeral

/-- The decimal that a document shows for a finite double. -/
def shown (x : Double) : Decimal := (x.shortest .even).shown

theorem roundsTo_shown (x : Double) : RoundsTo (x.shown.value * unitsPerOne) x.rank := by
  rw [shown, Decimal.value_shown]
  exact x.roundsTo_shortest .even

/-- A finite double is less than the first power of ten that is none. -/
theorem exponent_shortest_le {x : Double} (hx : x.isFinite = true) :
    (x.shortest .even).exponent ≤ 308 := by
  rcases x.shortest_eq_zero_or_pos .even with hzero | hpos
  · rw [hzero]
    decide
  · by_contra hlarge
    have hrank : x.rank + 1 ≤ infiniteRank := isFinite_iff.1 hx
    have hbound : magnitude infiniteRank < 10 ^ (maxPower + 1) * unitsPerOne := by decide +kernel
    have hcast : (magnitude infiniteRank : ℚ) < (10 ^ (maxPower + 1) * unitsPerOne : ℕ) :=
      Nat.cast_lt.2 hbound
    have hbelow : (x.shortest .even).value * unitsPerOne < magnitude infiniteRank :=
      calc (x.shortest .even).value * unitsPerOne ≤ tie x.rank :=
            (x.roundsTo_shortest .even).le_tie
        _ < magnitude (x.rank + 1) := tie_lt x.rank
        _ ≤ magnitude infiniteRank := Nat.cast_le.2 (magnitude_strictMono.monotone hrank)
    have hpower : (10 : ℚ) ^ (maxPower + 1) ≤ 10 ^ (x.shortest .even).exponent := by
      rw [← zpow_natCast]
      exact zpow_le_zpow_right₀ (by norm_num) (not_le.1 hlarge)
    have hvalue : (10 : ℚ) ^ (maxPower + 1) ≤ (x.shortest .even).value := by
      have hone : (1 : ℚ) ≤ (x.shortest .even).coefficient := by exact_mod_cast hpos
      exact hpower.trans (le_mul_of_one_le_left (zpow_nonneg (by norm_num) _) hone)
    push_cast at hcast
    exact absurd (hbelow.trans hcast)
      (not_lt.2 (mul_le_mul_of_nonneg_right hvalue unitsPerOne_cast_pos.le))

/-- So many digits does a document show, and such exponents. -/
theorem shown_bounds {x : Double} (hx : x.isFinite = true) :
    x.shown.coefficient < 10 ^ 17 ∧ -340 ≤ x.shown.exponent ∧ x.shown.exponent ≤ 308 ∧
      (x.shortest .even).leading.natAbs < 2 ^ 31 := by
  obtain ⟨hc, hlow⟩ := x.shortest_bounds .even
  have hplaces : decimalPlaces = 340 := rfl
  have hhigh := exponent_shortest_le hx
  have hdigits : (x.shortest .even).digits.length ≤ 17 :=
    (Decimal.length_digits_le_iff (by omega)).2 hc
  refine ⟨Decimal.shown_coefficient_lt hc, ?_, ?_, ?_⟩
  · unfold shown
    rcases (x.shortest .even).shown_exponent with h | h <;> omega
  · unfold shown
    rcases (x.shortest .even).shown_exponent with h | h <;> omega
  · unfold Decimal.leading
    omega

theorem ofRank_neg {s : Nat} (hs : s < infiniteRank) : (ofRank false s).neg = ofRank true s := by
  have hlt := hs.trans infiniteRank_lt
  rw [neg, negative_ofRank hlt, rank_ofRank hlt]
  rfl

/-- The text of a finite double is read as what the decimal that it shows is scaled to. -/
theorem value_stored {x : Double} (hx : x.isFinite = true) {s : Nat} (hs : s < infiniteRank)
    (h : scale (ofNat x.shown.coefficient) x.shown.exponent = some (ofRank false s)) :
    (ofText x.stored.toList).value = .ok (.double (ofRank x.negative s)) := by
  obtain ⟨hsign, hshows⟩ := shows_stored hx
  obtain ⟨hc, -, -, hleading⟩ := shown_bounds hx
  have hdecimal : (ofText x.stored.toList).decimal = x.shown := hshows.1
  have hexponent : ∀ b ds, (ofText x.stored.toList).exponent = some (b, ds) →
      ofDigits ds < 2 ^ 31 := by
    intro b ds hsome
    obtain ⟨-, ⟨hnone, -⟩ | ⟨b', ds', hsome', hds⟩⟩ := hshows
    · simp [hnone] at hsome
    · rw [hsome, Option.some.injEq, Prod.mk.injEq] at hsome'
      rwa [hsome'.2, hds]
  have hmagnitude : (ofText x.stored.toList).magnitude = .ok (ofRank false s) :=
    magnitude_eq (by rw [hdecimal]; omega) hexponent (by rw [hdecimal]; exact h)
  rw [Numeral.value, integer?_eq_none hshows]
  simp only [toDouble, hmagnitude, hsign, Except.map]
  cases x.negative
  · rfl
  · rw [if_pos rfl, ofRank_neg hs]

/-! ## Which double is read -/

/-- Is the double shown by a significand that is a double itself, with so few places or zeros that
the power of ten is one too? -/
def IsPlain (x : Double) : Prop := IsExact x.shown.coefficient ∧ x.shown.exponent.natAbs ≤ 22

/-- So is every double whose digits make a number up to `2 ^ 53`, with a moderate exponent. -/
theorem isPlain_of_le {x : Double} (hc : x.shown.coefficient ≤ 2 ^ 53)
    (he : x.shown.exponent.natAbs ≤ 22) : x.IsPlain := ⟨isExact_of_le hc, he⟩

/-- **A double that is shown plainly is read from its own text.** -/
theorem value_stored_of_isPlain {x : Double} (hx : x.isFinite = true) (h : x.IsPlain) :
    (ofText x.stored.toList).value = .ok (.double x) := by
  have hr := isFinite_iff.1 hx
  have hvalue := value_stored hx hr (scale_exact h.1 h.2 hr x.roundsTo_shown)
  rwa [ofRank_rank] at hvalue

theorem isPlain_of_shortest {x : Double} (h : x.shortest .even = ⟨0, 0⟩) : x.IsPlain := by
  have hshown : x.shown = ⟨0, -1⟩ := by
    rw [shown, h]
    decide
  exact isPlain_of_le (by simp [hshown]) (by simp [hshown])

theorem shown_coefficient_pos {x : Double} (h : 0 < (x.shortest .even).coefficient) :
    0 < x.shown.coefficient := by
  unfold shown Decimal.shown
  split
  · exact Nat.mul_pos h (Nat.pow_pos (by omega))
  · exact h

/-- The three largest doubles, for which the general bound does not exclude infinity, are read as
two of them. -/
theorem scale_of_largest : ∀ k < 3,
    (∀ b : Bool, (ofRank b (infiniteRank - 1 - k)).shortest .even
      = ⟨17976931348623157 - 2 * k, 292⟩) ∧
    (⟨17976931348623157 - 2 * k, 292⟩ : Decimal).shown = ⟨17976931348623157 - 2 * k, 292⟩ ∧
    scale (ofNat (17976931348623157 - 2 * k)) 292
      = some (ofRank false (infiniteRank - 1 - k / 2 * 2)) := by
  decide +kernel

/-- What a document shows of a finite double is scaled to a finite double, three ranks away at
most. -/
theorem exists_scale_shown {x : Double} (hx : x.isFinite = true) :
    ∃ s < infiniteRank, scale (ofNat x.shown.coefficient) x.shown.exponent = some (ofRank false s) ∧
      s ≤ x.rank + 3 ∧ x.rank ≤ s + 3 := by
  have hr := isFinite_iff.1 hx
  by_cases hlargest : infiniteRank ≤ x.rank + 3
  · obtain ⟨k, hk, hrank⟩ : ∃ k < 3, x.rank = infiniteRank - 1 - k :=
      ⟨infiniteRank - 1 - x.rank, by omega, by omega⟩
    obtain ⟨hshortest, hshown, hscale⟩ := scale_of_largest k hk
    have hdecimal : x.shown = ⟨17976931348623157 - 2 * k, 292⟩ := by
      rw [shown, ← ofRank_rank x, hrank, hshortest, hshown]
    rw [hdecimal]
    exact ⟨_, by omega, hscale, by omega, by omega⟩
  · rcases x.shortest_eq_zero_or_pos .even with hzero | hpos
    · obtain ⟨hc, he⟩ := isPlain_of_shortest hzero
      exact ⟨x.rank, hr, scale_exact hc he hr x.roundsTo_shown, by omega, by omega⟩
    · obtain ⟨hc, hlow, hhigh, -⟩ := shown_bounds hx
      obtain ⟨v, hscales, hv, hnear⟩ := exists_scalesTo_near (shown_coefficient_pos hpos)
        (hc.trans (by decide)) (by omega) hhigh
      obtain ⟨s, hs⟩ := exists_roundsTo hv
      obtain ⟨hle, hge⟩ := hnear s x.rank hs x.roundsTo_shown
      have hfinite : s < infiniteRank := by omega
      exact ⟨s, hfinite, hscales s hfinite hs, hle, hge⟩

/-- **The text of a finite double is read as a finite double with its sign, three ranks away at
most.** -/
theorem exists_value_stored {x : Double} (hx : x.isFinite = true) :
    ∃ s < infiniteRank, (ofText x.stored.toList).value = .ok (.double (ofRank x.negative s)) ∧
      s ≤ x.rank + 3 ∧ x.rank ≤ s + 3 := by
  obtain ⟨s, hs, hscale, hclose⟩ := exists_scale_shown hx
  exact ⟨s, hs, value_stored hx hs hscale, hclose⟩

end Double

end SqlTree
