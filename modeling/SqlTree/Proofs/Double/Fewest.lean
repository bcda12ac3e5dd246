import SqlTree.Proofs.Double.Nearest
import SqlTree.Proofs.Double.Shortest

/-!
# No decimal of a double is shorter

What `Double.shortest` finds is what its name says (`Double.isShortest_shortest`): it rounds to the
double, no decimal that rounds to the double has fewer digits, and none with as many is nearer.

The search looks at two points of each grid only. That is enough because a decimal with `n` digits
near the double stands on the grid with `n` digits or beyond one of its ends, so that it is never
closer to the double than the grid point on its side (`le_below`, `above_le`); and whatever lies
between the double and a decimal that rounds to it is attracted as well.
-/

namespace SqlTree

theorem Decimal.coefficient_bounds {d : Decimal} (h : 0 < d.coefficient) :
    10 ^ (d.digits.length - 1) ≤ d.coefficient ∧ d.coefficient < 10 ^ d.digits.length := by
  have hpos : 0 < d.digits.length := List.length_pos_of_ne_nil digits_ne_nil
  refine ⟨?_, (length_digits_le_iff hpos).1 le_rfl⟩
  rcases Nat.eq_zero_or_pos (d.digits.length - 1) with hone | hmore
  · rwa [hone, Nat.pow_zero]
  · exact Nat.not_lt.1 fun hlt => by
      have := (length_digits_le_iff hmore).2 hlt
      omega

namespace Double

variable {x : Double}

/-- Is this a decimal to write a magnitude with? It rounds to it, and does so in the fewest digits,
and with so many digits from the smallest distance. -/
structure IsShortest (x : Double) (d : Decimal) : Prop where
  rounds : RoundsTo (d.value * unitsPerOne) x.rank
  fewest : ∀ e : Decimal, RoundsTo (e.value * unitsPerOne) x.rank →
    d.digits.length ≤ e.digits.length
  nearest : ∀ e : Decimal, RoundsTo (e.value * unitsPerOne) x.rank →
    e.digits.length = d.digits.length →
    |d.value * unitsPerOne - x.units| ≤ |e.value * unitsPerOne - x.units|

/-! ## Points and decimals -/

theorem unitsOfPoint_le {p q : Nat} : unitsOfPoint p ≤ unitsOfPoint q ↔ p ≤ q := by
  rw [unitsOfPoint, unitsOfPoint, div_le_div_iff_of_pos_right scale_pos, Nat.cast_le]

theorem unitsOfPoint_lt_iff {p q : Nat} : unitsOfPoint p < unitsOfPoint q ↔ p < q := by
  rw [unitsOfPoint, unitsOfPoint, div_lt_div_iff_of_pos_right scale_pos, Nat.cast_lt]

theorem unitsOfPoint_centre (x : Double) : unitsOfPoint x.centre = x.units := by
  have hcentre : (x.centre : ℚ) = x.units * (4 * 10 ^ decimalPlaces) := by
    rw [centre]
    push_cast
    ring
  rw [unitsOfPoint, hcentre, mul_div_cancel_right₀ _ scale_pos.ne']

/-- A decimal stands on the grid with as many digits, or below the power of ten that the grid begins
with, or not below the one that it ends with. -/
theorem decimal_cases {e : Decimal} {n : Nat} (he : 0 < e.coefficient) (hn : e.digits.length = n)
    (hle : n ≤ x.decimalLength) :
    (∃ point, e.value * unitsPerOne = unitsOfPoint (point * x.gridStep n)) ∨
      e.value * unitsPerOne < unitsOfPoint (10 ^ (n - 1) * x.gridStep n) ∨
      unitsOfPoint (10 ^ n * x.gridStep n) ≤ e.value * unitsPerOne := by
  obtain ⟨hlow, hhigh⟩ := Decimal.coefficient_bounds he
  rw [hn] at hlow hhigh
  have hpos : 0 < n := hn ▸ List.length_pos_of_ne_nil Decimal.digits_ne_nil
  have hone := unitsPerOne_cast_pos
  simp only [unitsOfPoint_mul_gridStep hle]
  generalize (x.decimalLength : ℤ) - n - decimalPlaces = exponent
  have hten (k : ℤ) : (10 : ℚ) ^ n * 10 ^ k = 10 ^ (n - 1) * 10 ^ (k + 1) := by
    obtain ⟨m, rfl⟩ : ∃ m, n = m + 1 := ⟨n - 1, by omega⟩
    rw [Nat.add_sub_cancel, pow_succ, zpow_add_one₀ (by norm_num)]
    ring
  have hmono {k l : ℤ} (h : k ≤ l) : (10 : ℚ) ^ k ≤ 10 ^ l :=
    zpow_le_zpow_right₀ (by norm_num) h
  rcases lt_trichotomy e.exponent exponent with hlt | heq | hgt
  · refine .inr (.inl (mul_lt_mul_of_pos_right ?_ hone))
    calc e.value < 10 ^ n * 10 ^ e.exponent :=
          mul_lt_mul_of_pos_right (by exact_mod_cast hhigh) (zpow_pos (by norm_num) _)
      _ ≤ 10 ^ n * 10 ^ (exponent - 1) :=
          mul_le_mul_of_nonneg_left (hmono (by omega)) (by positivity)
      _ = (10 ^ (n - 1) : ℕ) * 10 ^ exponent := by
          rw [hten, sub_add_cancel]
          push_cast
          rfl
  · exact .inl ⟨e.coefficient, by rw [Decimal.value, heq]⟩
  · refine .inr (.inr (mul_le_mul_of_nonneg_right ?_ hone.le))
    calc ((10 ^ n : ℕ) : ℚ) * 10 ^ exponent = 10 ^ (n - 1) * 10 ^ (exponent + 1) := by
          rw [← hten]
          push_cast
          rfl
      _ ≤ e.coefficient * 10 ^ (exponent + 1) :=
          mul_le_mul_of_nonneg_right (by exact_mod_cast hlow) (zpow_nonneg (by norm_num) _)
      _ ≤ e.value := mul_le_mul_of_nonneg_left (hmono (by omega)) (Nat.cast_nonneg _)

/-! ## The two neighbours on a grid -/

theorem below_lt {n : Nat} (hx : 0 < x.units) (hle : n ≤ x.decimalLength) :
    x.centre / x.gridStep n < 10 ^ n := by
  have hlen := seventeen_le_decimalLength hx
  exact (Nat.div_lt_iff_lt_mul (x.gridStep_pos n)).2 (centre_lt_mul_gridStep hle (by omega))

theorem below_le (x : Double) (n : Nat) :
    unitsOfPoint (x.centre / x.gridStep n * x.gridStep n) ≤ x.units := by
  rw [← unitsOfPoint_centre]
  exact unitsOfPoint_le.2 (Nat.div_mul_le_self _ _)

theorem le_above (x : Double) (n : Nat) :
    x.units ≤ unitsOfPoint ((x.centre / x.gridStep n + 1) * x.gridStep n) := by
  rw [← unitsOfPoint_centre]
  exact unitsOfPoint_le.2 (Nat.lt_mul_of_div_lt (Nat.lt_succ_self _) (x.gridStep_pos n)).le

section

variable {e : Decimal} {n : Nat} (hx : 0 < x.units) (he : 0 < e.coefficient)
  (hn : e.digits.length = n) (hle : n ≤ x.decimalLength)
include hx he hn hle

/-- No decimal with `n` digits lies between a double and the grid point below it. -/
theorem le_below (h : e.value * unitsPerOne ≤ x.units) :
    e.value * unitsPerOne ≤ unitsOfPoint (x.centre / x.gridStep n * x.gridStep n) := by
  have hpos : 0 < n := hn ▸ List.length_pos_of_ne_nil Decimal.digits_ne_nil
  have hstep := x.gridStep_pos n
  have hbelow {point : Nat} (hpoint : point * x.gridStep n ≤ x.centre) :
      unitsOfPoint (point * x.gridStep n)
        ≤ unitsOfPoint (x.centre / x.gridStep n * x.gridStep n) :=
    unitsOfPoint_le.2 (Nat.mul_le_mul_right _ ((Nat.le_div_iff_mul_le hstep).2 hpoint))
  rw [← unitsOfPoint_centre] at h
  rcases decimal_cases he hn hle with ⟨point, hpoint⟩ | hlow | hhigh
  · rw [hpoint] at h ⊢
    exact hbelow (unitsOfPoint_le.1 h)
  · exact hlow.le.trans (hbelow (ten_pow_mul_gridStep_le hx hpos hle))
  · have hlen := seventeen_le_decimalLength hx
    exact absurd (unitsOfPoint_le.1 (hhigh.trans h))
      (Nat.not_le.2 (centre_lt_mul_gridStep hle (by omega)))

/-- No decimal with `n` digits lies between a double and the grid point above it. -/
theorem above_le (h : x.units < e.value * unitsPerOne) :
    unitsOfPoint ((x.centre / x.gridStep n + 1) * x.gridStep n) ≤ e.value * unitsPerOne := by
  have hpos : 0 < n := hn ▸ List.length_pos_of_ne_nil Decimal.digits_ne_nil
  have hstep := x.gridStep_pos n
  have habove {point : Nat} (hpoint : x.centre < point * x.gridStep n) :
      unitsOfPoint ((x.centre / x.gridStep n + 1) * x.gridStep n)
        ≤ unitsOfPoint (point * x.gridStep n) :=
    unitsOfPoint_le.2 (Nat.mul_le_mul_right _ ((Nat.div_lt_iff_lt_mul hstep).2 hpoint))
  rw [← unitsOfPoint_centre] at h
  rcases decimal_cases he hn hle with ⟨point, hpoint⟩ | hlow | hhigh
  · rw [hpoint] at h ⊢
    exact habove (unitsOfPoint_lt_iff.1 h)
  · exact absurd (unitsOfPoint_lt_iff.1 (h.trans hlow))
      (Nat.not_lt.2 (ten_pow_mul_gridStep_le hx hpos hle))
  · have hlen := seventeen_le_decimalLength hx
    exact (habove (centre_lt_mul_gridStep hle (by omega))).trans hhigh

variable (hround : RoundsTo (e.value * unitsPerOne) x.rank)
include hround

/-- If a decimal below a double rounds to it, so does the grid point below. -/
theorem attracts_below (h : e.value * unitsPerOne ≤ x.units) :
    x.attracts (x.centre / x.gridStep n * x.gridStep n) = true := by
  refine attracts_iff.2 (hround.between (roundsTo_magnitude x.rank) (le_below hx he hn hle h) ?_)
  rw [← units_eq]
  exact x.below_le n

/-- If a decimal above a double rounds to it, so does the grid point above. -/
theorem attracts_above (h : x.units < e.value * unitsPerOne) :
    x.attracts ((x.centre / x.gridStep n + 1) * x.gridStep n) = true := by
  refine attracts_iff.2 ((roundsTo_magnitude x.rank).between hround ?_ (above_le hx he hn hle h))
  rw [← units_eq]
  exact x.le_above n

end

/-- A grid is not passed over if a decimal with as many digits rounds to the double. -/
theorem isSome_onGrid? {e : Decimal} (tie : Tie) (hx : 0 < x.units) (he : 0 < e.coefficient)
    (hle : e.digits.length ≤ x.decimalLength)
    (hround : RoundsTo (e.value * unitsPerOne) x.rank) :
    (x.onGrid? tie e.digits.length).isSome = true := by
  rw [onGrid?, isSome_neighbour?, Bool.or_eq_true]
  rcases le_or_gt (e.value * unitsPerOne) x.units with hbelow | habove
  · exact .inl (attracts_below hx he rfl hle hround hbelow)
  · exact .inr (attracts_above hx he rfl hle hround habove)

/-! ## The nearer neighbour -/

/-- The distance of a point from the double, on the scale of the search. -/
def distance (x : Double) (point : Nat) : ℚ := |(point : ℚ) - x.centre|

theorem distance_le {p q : Nat} : x.distance p ≤ x.distance q ↔
    |unitsOfPoint p - x.units| ≤ |unitsOfPoint q - x.units| := by
  have hscale (p : Nat) : |unitsOfPoint p - x.units| = x.distance p / (4 * 10 ^ decimalPlaces) := by
    rw [← unitsOfPoint_centre, unitsOfPoint, unitsOfPoint, ← sub_div, abs_div,
      abs_of_pos scale_pos, distance]
  rw [hscale, hscale, div_le_div_iff_of_pos_right scale_pos]

section

variable {step : Nat}

theorem distance_below : x.distance (x.centre / step * step) = (x.centre % step : Nat) := by
  have hdiv : ((x.centre / step * step : Nat) : ℚ) + (x.centre % step : Nat) = x.centre := by
    exact_mod_cast Nat.div_add_mod' x.centre step
  have hmod : (0 : ℚ) ≤ (x.centre % step : Nat) := Nat.cast_nonneg _
  rw [distance, abs_of_nonpos (by linarith)]
  linarith

theorem distance_above (hstep : 0 < step) :
    x.distance ((x.centre / step + 1) * step) = step - (x.centre % step : Nat) := by
  have hdiv : ((x.centre / step * step : Nat) : ℚ) + (x.centre % step : Nat) = x.centre := by
    exact_mod_cast Nat.div_add_mod' x.centre step
  have hnext : (((x.centre / step + 1) * step : Nat) : ℚ)
      = (x.centre / step * step : Nat) + step := by
    rw [Nat.add_mul, Nat.one_mul, Nat.cast_add]
  have hmod : ((x.centre % step : Nat) : ℚ) ≤ step := Nat.cast_le.2 (Nat.mod_lt _ hstep).le
  rw [distance, hnext, abs_of_nonneg (by linarith)]
  linarith

/-- Of the neighbours that are allowed the nearer one is taken. -/
theorem distance_neighbour?_le {tie : Tie} {point : Nat} {below above : Bool} (hstep : 0 < step)
    (h : neighbour? tie x.centre step below above = some point) :
    (below = true → x.distance (point * step) ≤ x.distance (x.centre / step * step)) ∧
      (above = true → x.distance (point * step) ≤ x.distance ((x.centre / step + 1) * step)) := by
  cases below <;> cases above <;>
    simp only [neighbour?, Option.some.injEq, reduceCtorEq] at h
  case false.true =>
    subst h
    simp
  case true.false =>
    subst h
    simp
  case true.true =>
    rcases roundDiv_cases tie x.centre step with ⟨hround, hhalf⟩ | ⟨hround, hhalf⟩ <;>
      rw [← h, hround, distance_below, distance_above hstep]
    · have hle : (2 * (x.centre % step : Nat) : ℚ) ≤ step := by exact_mod_cast hhalf
      exact ⟨fun _ => le_rfl, fun _ => by linarith⟩
    · have hle : (step : ℚ) ≤ 2 * (x.centre % step : Nat) := by exact_mod_cast hhalf
      exact ⟨fun _ => by linarith, fun _ => le_rfl⟩

end

/-- No decimal with as many digits is nearer than the grid point that is taken. -/
theorem nearest_onGrid? {tie : Tie} {e : Decimal} {point : Nat} (hx : 0 < x.units)
    (he : 0 < e.coefficient) (hle : e.digits.length ≤ x.decimalLength)
    (hround : RoundsTo (e.value * unitsPerOne) x.rank)
    (h : x.onGrid? tie e.digits.length = some point) :
    |unitsOfPoint (point * x.gridStep e.digits.length) - x.units|
      ≤ |e.value * unitsPerOne - x.units| := by
  obtain ⟨hbelow, habove⟩ := distance_neighbour?_le (x.gridStep_pos _) h
  rcases le_or_gt (e.value * unitsPerOne) x.units with hside | hside
  · have hnear := le_below hx he rfl hle hside
    refine (distance_le.1 (hbelow (attracts_below hx he rfl hle hround hside))).trans ?_
    rw [abs_of_nonpos (sub_nonpos.2 hside), abs_of_nonpos (sub_nonpos.2 (x.below_le _))]
    linarith
  · have hnear := above_le hx he rfl hle hside
    refine (distance_le.1 (habove (attracts_above hx he rfl hle hround hside))).trans ?_
    rw [abs_of_pos (sub_pos.2 hside), abs_of_nonneg (sub_nonneg.2 (x.le_above _))]
    linarith

/-! ## The search -/

theorem digits_decimalOnGrid {n point : Nat} (hn : 0 < n) (hpoint : point ≤ 10 ^ n) :
    (x.decimalOnGrid n point).digits.length ≤ n := by
  rw [Decimal.length_digits_le_iff hn]
  unfold decimalOnGrid
  simp only
  split
  · exact Nat.one_lt_pow hn.ne' (by omega)
  · exact Nat.lt_of_le_of_ne hpoint ‹_›

/-- A decimal that rounds to a double other than zero is not zero. -/
theorem coefficient_pos_of_roundsTo {e : Decimal} (hx : 0 < x.units)
    (hround : RoundsTo (e.value * unitsPerOne) x.rank) : 0 < e.coefficient := by
  by_contra hzero
  have hvalue : e.value * unitsPerOne = (magnitude 0 : ℚ) := by
    rw [Decimal.value, Nat.eq_zero_of_not_pos hzero, magnitude_zero, Nat.cast_zero, zero_mul,
      zero_mul]
  rw [hvalue] at hround
  have hrank : x.rank = 0 := hround.unique (roundsTo_magnitude 0)
  rw [units_eq, hrank, magnitude_zero] at hx
  exact absurd hx (Nat.lt_irrefl 0)

/-- Where the search stops: on the grid with as many digits as its result has, since a shorter
decimal would have stopped it earlier. -/
theorem exists_onGrid? (tie : Tie) (hx : 0 < x.units) : ∃ n point, 0 < n ∧ n ≤ x.decimalLength ∧
    x.onGrid? tie n = some point ∧ x.shortest tie = x.decimalOnGrid n point ∧
    (x.shortest tie).digits.length = n ∧
    ∀ e : Decimal, RoundsTo (e.value * unitsPerOne) x.rank → n ≤ e.digits.length := by
  rcases x.shortest_cases tie with ⟨hzero, -⟩ | ⟨-, n, point, hn, hpoint, hd, hpos, hfirst⟩
  · exact absurd hzero hx.ne'
  have hlen := seventeen_le_decimalLength hx
  have hfewest (e : Decimal) (hround : RoundsTo (e.value * unitsPerOne) x.rank) :
      n ≤ e.digits.length := by
    by_contra hshort
    have hsome := isSome_onGrid? tie hx (coefficient_pos_of_roundsTo hx hround) (by omega) hround
    have hnone := hfirst _ (List.length_pos_of_ne_nil Decimal.digits_ne_nil) (Nat.not_le.1 hshort)
    simp [hnone] at hsome
  have hlt := below_lt hx (hn.trans hlen)
  have hle : point ≤ 10 ^ n := by
    rcases neighbour?_cases hpoint with ⟨-, rfl⟩ | ⟨-, rfl⟩ <;> omega
  exact ⟨n, point, hpos, hn.trans hlen, hpoint, hd,
    Nat.le_antisymm (hd ▸ digits_decimalOnGrid hpos hle) (hfewest _ (x.roundsTo_shortest tie)),
    hfewest⟩

/-- **What the search finds is a shortest decimal**, whichever way a tie is decided. -/
theorem isShortest_shortest (tie : Tie) (x : Double) : x.IsShortest (x.shortest tie) := by
  have hrounds := x.roundsTo_shortest tie
  rcases Nat.eq_zero_or_pos x.units with hx | hx
  · have hzero : x.shortest tie = ⟨0, 0⟩ := by rw [shortest, if_pos hx]
    have hvalue : (⟨0, 0⟩ : Decimal).value * unitsPerOne - x.units = 0 := by
      rw [hx, Decimal.value, Nat.cast_zero, zero_mul, zero_mul, sub_zero]
    refine ⟨hrounds, fun e _ => ?_, fun e _ _ => ?_⟩
    · rw [hzero]
      exact List.length_pos_of_ne_nil Decimal.digits_ne_nil
    · rw [hzero, hvalue, abs_zero]
      exact abs_nonneg _
  · obtain ⟨n, point, -, hle, hpoint, hd, hdigits, hfewest⟩ := exists_onGrid? tie hx
    refine ⟨hrounds, fun e hround => hdigits ▸ hfewest e hround, fun e hround hequal => ?_⟩
    have he := coefficient_pos_of_roundsTo hx hround
    obtain rfl : e.digits.length = n := hequal.trans hdigits
    rw [hd, value_decimalOnGrid hle]
    exact nearest_onGrid? hx he hle hround hpoint

/-- A shortest decimal does not end in a zero, unless it is zero. -/
theorem IsShortest.mod_ten_ne_zero {d : Decimal} (h : x.IsShortest d) (hd : 0 < d.coefficient) :
    d.coefficient % 10 ≠ 0 := by
  intro hten
  obtain ⟨c, hc⟩ : ∃ c, d.coefficient = c * 10 := ⟨d.coefficient / 10, by omega⟩
  have hvalue : (⟨c, d.exponent + 1⟩ : Decimal).value = d.value := by
    rw [Decimal.value, Decimal.value, hc, zpow_add_one₀ (by norm_num)]
    push_cast
    ring
  have hfewest := h.fewest ⟨c, d.exponent + 1⟩ (by rw [hvalue]; exact h.rounds)
  obtain ⟨-, hhigh⟩ := Decimal.coefficient_bounds hd
  have hlength : 0 < d.digits.length := List.length_pos_of_ne_nil Decimal.digits_ne_nil
  obtain ⟨n, hn⟩ : ∃ n, d.digits.length = n + 1 := ⟨d.digits.length - 1, by omega⟩
  rw [hn, Nat.pow_succ] at hhigh
  have hmore : 0 < n := by
    by_contra hzero
    obtain rfl : n = 0 := by omega
    omega
  have hlow : c < 10 ^ n := by omega
  have hshort : (⟨c, d.exponent + 1⟩ : Decimal).digits.length ≤ n :=
    (Decimal.length_digits_le_iff hmore).2 hlow
  omega

end Double

end SqlTree
