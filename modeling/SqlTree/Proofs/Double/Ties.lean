import SqlTree.Proofs.Double.Fewest

/-!
# Doubles with two shortest decimals

A double can lie halfway between two decimals that are both shortest. These two are then the points
of the last grid between which the double stands (`IsTie.onGrid`), so the rule for ties decides: a
document takes the even one, and SQL the larger (`IsTie.shortest_eq`). Of every other double the two
take the same decimal (`shortest_up_cases`).
-/

namespace SqlTree

namespace Double

variable {x : Double}

/-- Are `c` and `c + 1`, at the same place, two shortest decimals of a double, the first one
even? -/
structure IsTie (x : Double) (c : ℕ) (e : ℤ) : Prop where
  even : c % 2 = 0
  low : x.IsShortest ⟨c, e⟩
  high : x.IsShortest ⟨c + 1, e⟩

/-! ## Two shortest decimals -/

theorem IsShortest.length_eq {d d' : Decimal} (h : x.IsShortest d) (h' : x.IsShortest d') :
    d.digits.length = d'.digits.length :=
  Nat.le_antisymm (h.fewest d' h'.rounds) (h'.fewest d h.rounds)

theorem IsShortest.distance_eq {d d' : Decimal} (h : x.IsShortest d) (h' : x.IsShortest d') :
    |d.value * unitsPerOne - x.units| = |d'.value * unitsPerOne - x.units| :=
  le_antisymm (h.nearest d' h'.rounds (h'.length_eq h)) (h'.nearest d h.rounds (h.length_eq h'))

/-- No point of the grid that rounds to the double is nearer than a shortest decimal. -/
theorem IsShortest.nearest_onGrid {d : Decimal} {point : Nat} (h : x.IsShortest d)
    (hle : d.digits.length ≤ x.decimalLength) (hpoint : point ≤ 10 ^ d.digits.length)
    (hround : x.attracts (point * x.gridStep d.digits.length) = true) :
    |d.value * unitsPerOne - x.units|
      ≤ |unitsOfPoint (point * x.gridStep d.digits.length) - x.units| := by
  have hpos : 0 < d.digits.length := List.length_pos_of_ne_nil Decimal.digits_ne_nil
  have hvalue := value_decimalOnGrid (x := x) hle point
  have hrounds : RoundsTo ((x.decimalOnGrid d.digits.length point).value * unitsPerOne) x.rank := by
    rw [hvalue]
    exact attracts_iff.1 hround
  have hlength := Nat.le_antisymm (digits_decimalOnGrid hpos hpoint) (h.fewest _ hrounds)
  rw [← hvalue]
  exact h.nearest _ hrounds hlength

/-! ## Ties -/

theorem value_succ (c : ℕ) (e : ℤ) : (⟨c + 1, e⟩ : Decimal).value * unitsPerOne
    = (⟨c, e⟩ : Decimal).value * unitsPerOne + 10 ^ e * unitsPerOne := by
  rw [Decimal.value, Decimal.value]
  push_cast
  ring

theorem step_pos (e : ℤ) : (0 : ℚ) < 10 ^ e * unitsPerOne :=
  mul_pos (zpow_pos (by norm_num) e) unitsPerOne_cast_pos

namespace IsTie

variable {c : ℕ} {e : ℤ} (h : x.IsTie c e)
include h

/-- The double lies halfway between the two. -/
theorem halfway : 2 * (x.units : ℚ) = (⟨c, e⟩ : Decimal).value * unitsPerOne
    + (⟨c + 1, e⟩ : Decimal).value * unitsPerOne := by
  have hstep := step_pos e
  have hsucc := value_succ c e
  rcases abs_eq_abs.1 (h.low.distance_eq h.high) with heq | heq <;> linarith

theorem units_pos : 0 < x.units := by
  have hstep := step_pos e
  have hsucc := value_succ c e
  have hhalf := h.halfway
  have hlow : (0 : ℚ) ≤ (⟨c, e⟩ : Decimal).value * unitsPerOne :=
    mul_nonneg (mul_nonneg (Nat.cast_nonneg c) (zpow_nonneg (by norm_num) e))
      unitsPerOne_cast_pos.le
  exact Nat.cast_pos.1 (by linarith : (0 : ℚ) < x.units)

theorem length_le : (⟨c, e⟩ : Decimal).digits.length ≤ x.decimalLength := by
  obtain ⟨n, -, -, hle, -, -, hdigits, -⟩ := exists_onGrid? .even h.units_pos
  rw [h.low.length_eq (x.isShortest_shortest .even), hdigits]
  exact hle

/-- The two are the points of the grid between which the double stands. -/
theorem value_eq {n : ℕ} (hn : (⟨c, e⟩ : Decimal).digits.length = n) :
    x.attracts (x.centre / x.gridStep n * x.gridStep n) = true ∧
    x.attracts ((x.centre / x.gridStep n + 1) * x.gridStep n) = true ∧
    (⟨c, e⟩ : Decimal).value * unitsPerOne
      = unitsOfPoint (x.centre / x.gridStep n * x.gridStep n) ∧
    (⟨c + 1, e⟩ : Decimal).value * unitsPerOne
      = unitsOfPoint ((x.centre / x.gridStep n + 1) * x.gridStep n) := by
  have hx := h.units_pos
  have hstep := step_pos e
  have hsucc := value_succ c e
  have hhalf := h.halfway
  have hle : n ≤ x.decimalLength := hn ▸ h.length_le
  have hlt := below_lt hx hle
  have hlow : (⟨c, e⟩ : Decimal).value * unitsPerOne ≤ x.units := by linarith
  have hhigh : (x.units : ℚ) < (⟨c + 1, e⟩ : Decimal).value * unitsPerOne := by linarith
  have hn' : (⟨c + 1, e⟩ : Decimal).digits.length = n := (h.high.length_eq h.low).trans hn
  have hc := coefficient_pos_of_roundsTo hx h.low.rounds
  have hc' := coefficient_pos_of_roundsTo hx h.high.rounds
  have hbelow := attracts_below hx hc hn hle h.low.rounds hlow
  have habove := attracts_above hx hc' hn' hle h.high.rounds hhigh
  refine ⟨hbelow, habove, ?low, ?high⟩
  case low =>
    subst hn
    have hnear := h.low.nearest_onGrid hle hlt.le hbelow
    rw [abs_of_nonpos (sub_nonpos.2 hlow), abs_of_nonpos (sub_nonpos.2 (x.below_le _))] at hnear
    exact le_antisymm (le_below hx hc rfl hle hlow) (by linarith)
  case high =>
    subst hn'
    have hnear := h.high.nearest_onGrid hle hlt habove
    rw [abs_of_pos (sub_pos.2 hhigh), abs_of_nonneg (sub_nonneg.2 (x.le_above _))] at hnear
    exact le_antisymm (by linarith) (above_le hx hc' rfl hle hhigh)

/-- So the double stands in the middle of a step of the grid, behind an even number of steps. -/
theorem onGrid {n : ℕ} (hn : (⟨c, e⟩ : Decimal).digits.length = n) :
    x.centre / x.gridStep n = c ∧ (x.decimalLength : ℤ) - n - decimalPlaces = e ∧
      2 * (x.centre % x.gridStep n) = x.gridStep n := by
  obtain ⟨-, -, hlow, hhigh⟩ := h.value_eq hn
  have hle : n ≤ x.decimalLength := hn ▸ h.length_le
  have hhalf := h.halfway
  rw [hlow, hhigh, ← unitsOfPoint_centre] at hhalf
  have hsum : 2 * x.centre = x.centre / x.gridStep n * x.gridStep n
      + (x.centre / x.gridStep n + 1) * x.gridStep n := by
    rw [unitsOfPoint, unitsOfPoint, unitsOfPoint, ← add_div, ← mul_div_assoc,
      div_left_inj' scale_pos.ne'] at hhalf
    exact_mod_cast hhalf
  rw [unitsOfPoint_mul_gridStep hle, Decimal.value] at hlow hhigh
  generalize (x.decimalLength : ℤ) - n - decimalPlaces = exponent at hlow hhigh ⊢
  have hlow' := mul_right_cancel₀ unitsPerOne_cast_pos.ne' hlow
  have hhigh' := mul_right_cancel₀ unitsPerOne_cast_pos.ne' hhigh
  push_cast at hlow' hhigh'
  have hpower : (10 : ℚ) ^ e = 10 ^ exponent := by linarith
  have hexponent : e = exponent := zpow_right_injective₀ (by norm_num) (by norm_num) hpower
  rw [hpower] at hlow'
  have hcoefficient : c = x.centre / x.gridStep n := by
    exact_mod_cast mul_right_cancel₀ (zpow_ne_zero exponent (by norm_num)) hlow'
  have hdiv := Nat.div_add_mod' x.centre (x.gridStep n)
  refine ⟨hcoefficient.symm, hexponent.symm, ?_⟩
  rw [Nat.add_mul] at hsum
  omega

end IsTie

/-! ## The two rules -/

theorem roundDiv_half {num den : Nat} (h : 2 * (num % den) = den) :
    roundDiv .even num den = num / den + num / den % 2 ∧
      roundDiv .up num den = num / den + 1 := by
  simp [roundDiv, h]

theorem roundDiv_up_cases (num den : Nat) : roundDiv .up num den = roundDiv .even num den ∨
    num / den % 2 = 0 ∧ roundDiv .even num den = num / den ∧
      roundDiv .up num den = num / den + 1 := by
  by_cases hhalf : 2 * (num % den) = den
  · obtain ⟨heven, hup⟩ := roundDiv_half hhalf
    rcases Nat.mod_two_eq_zero_or_one (num / den) with hmod | hmod
    · exact .inr ⟨hmod, by rw [heven, hmod, Nat.add_zero], hup⟩
    · exact .inl (by rw [hup, heven, hmod])
  · left
    unfold roundDiv
    split
    · rfl
    · rw [if_pos (by omega), if_pos (by omega)]

theorem neighbour?_up_cases {centre step p q : Nat} {below above : Bool}
    (hup : neighbour? .up centre step below above = some p)
    (heven : neighbour? .even centre step below above = some q) :
    p = q ∨ q % 2 = 0 ∧ q = centre / step ∧ p = q + 1 := by
  cases below <;> cases above <;>
    simp only [neighbour?, Option.some.injEq, reduceCtorEq] at hup heven
  case false.true | true.false => exact .inl (hup.symm.trans heven)
  case true.true =>
    rcases roundDiv_up_cases centre step with hsame | ⟨hmod, hdown, hup'⟩
    · exact .inl (hup.symm.trans (hsame.trans heven))
    · obtain rfl : centre / step = q := hdown.symm.trans heven
      exact .inr ⟨hmod, rfl, hup.symm.trans hup'⟩

/-- **The rule decides a tie**: a document takes the even decimal, and SQL the larger one. -/
theorem IsTie.shortest_eq {c : ℕ} {e : ℤ} (h : x.IsTie c e) :
    x.shortest .even = ⟨c, e⟩ ∧ x.shortest .up = ⟨c + 1, e⟩ := by
  have hx := h.units_pos
  -- the search ends on the grid on which the two stand
  have hpoint (tie : Tie) : ∃ n, (⟨c, e⟩ : Decimal).digits.length = n ∧
      x.shortest tie = x.decimalOnGrid n (roundDiv tie x.centre (x.gridStep n)) := by
    obtain ⟨n, point, -, -, hpoint, hd, hdigits, -⟩ := exists_onGrid? tie hx
    have hn := (h.low.length_eq (x.isShortest_shortest tie)).trans hdigits
    obtain ⟨hbelow, habove, -, -⟩ := h.value_eq hn
    rw [onGrid?, hbelow, habove, neighbour?, Option.some.injEq] at hpoint
    exact ⟨n, hn, hpoint ▸ hd⟩
  have hc := (Decimal.coefficient_bounds (coefficient_pos_of_roundsTo hx h.low.rounds)).2
  have hc' := (Decimal.coefficient_bounds (coefficient_pos_of_roundsTo hx h.high.rounds)).2
  rw [h.high.length_eq h.low] at hc'
  constructor
  · obtain ⟨n, hn, hd⟩ := hpoint .even
    obtain ⟨hquotient, hexponent, hhalf⟩ := h.onGrid hn
    rw [hd, (roundDiv_half hhalf).1, hquotient, h.even, Nat.add_zero, decimalOnGrid, hexponent,
      if_neg (hn ▸ hc).ne]
  · obtain ⟨n, hn, hd⟩ := hpoint .up
    obtain ⟨hquotient, hexponent, hhalf⟩ := h.onGrid hn
    rw [hd, (roundDiv_half hhalf).2, hquotient, decimalOnGrid, hexponent, if_neg (hn ▸ hc').ne]

/-- Only in a tie do the two rules take different decimals. -/
theorem shortest_up_cases (x : Double) :
    x.shortest .up = x.shortest .even ∨ ∃ c e, x.IsTie c e := by
  rcases Nat.eq_zero_or_pos x.units with hx | hx
  · exact .inl (by rw [shortest, shortest, if_pos hx, if_pos hx])
  obtain ⟨n, p, hpos, hle, hp, hup, hdigits, hfewest⟩ := exists_onGrid? .up hx
  obtain ⟨m, q, -, -, hq, heven, hdigits', hfewest'⟩ := exists_onGrid? .even hx
  obtain rfl : n = m := Nat.le_antisymm (hdigits' ▸ hfewest _ (x.roundsTo_shortest .even))
    (hdigits ▸ hfewest' _ (x.roundsTo_shortest .up))
  rcases neighbour?_up_cases hp hq with rfl | ⟨hmod, hbelow, rfl⟩
  · exact .inl (hup.trans heven.symm)
  · -- neither of the two is the power of ten at the end of the grid, which is even
    have hlt : q < 10 ^ n := hbelow ▸ below_lt hx hle
    have hten : 10 ^ n % 2 = 0 := by
      obtain ⟨k, rfl⟩ : ∃ k, n = k + 1 := ⟨n - 1, by omega⟩
      omega
    rw [decimalOnGrid, if_neg (by omega)] at hup heven
    exact .inr ⟨q, _, hmod, heven ▸ x.isShortest_shortest .even, hup ▸ x.isShortest_shortest .up⟩

end Double

end SqlTree
