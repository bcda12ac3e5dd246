import SqlTree.Proofs.Double.Rounding
import SqlTree.Proofs.Double.Text

/-!
# The shortest decimal rounds to its double

A point on the scale of `Double.shortest` is attracted by a double just when the number of units
that it stands for rounds to the double's rank (`attracts_iff`). With seventeen digits the grid is
finer than the interval that is attracted, so the search finds a point (`attracts_onGrid`), and
what it finds rounds to the double that it was found for (`roundsTo_shortest`). Two doubles with
equal shortest decimals have therefore the same magnitude (`rank_eq_of_shortest`).
-/

namespace SqlTree

/-- The number that a decimal denotes. -/
def Decimal.value (d : Decimal) : ℚ := d.coefficient * 10 ^ d.exponent

namespace Double

/-! ## Points that are attracted -/

/-- The number of units that a point on the scale of the search stands for. -/
def unitsOfPoint (point : Nat) : ℚ := point / (4 * 10 ^ decimalPlaces)

theorem scale_pos : (0 : ℚ) < 4 * 10 ^ decimalPlaces := by positivity

theorem unitsPerOne_cast_pos : (0 : ℚ) < unitsPerOne := Nat.cast_pos.2 unitsPerOne_pos

theorem lt_unitsOfPoint {v : ℚ} {point : Nat} :
    v < unitsOfPoint point ↔ v * (4 * 10 ^ decimalPlaces) < point := lt_div_iff₀ scale_pos

theorem unitsOfPoint_lt {v : ℚ} {point : Nat} :
    unitsOfPoint point < v ↔ point < v * (4 * 10 ^ decimalPlaces) := div_lt_iff₀ scale_pos

/-- Half the gap upwards leads to the tie above. -/
theorem centre_add_reachUp (x : Double) :
    ((x.centre + x.reachUp : Nat) : ℚ) = tie x.rank * (4 * 10 ^ decimalPlaces) := by
  rw [tie_eq, centre, reachUp, units_eq]
  change ((4 * magnitude x.rank * 10 ^ decimalPlaces
    + 2 * gap x.rank * 10 ^ decimalPlaces : Nat) : ℚ) = _
  push_cast
  ring

/-- Half the gap downwards leads to the tie below. -/
theorem reachDown_eq {x : Double} {r : Nat} (hx : x.rank = r + 1) :
    x.reachDown = 2 * gap r * 10 ^ decimalPlaces := by
  have hgap : x.reachUp = 2 * gap (r + 1) * 10 ^ decimalPlaces := by rw [← hx]; rfl
  unfold reachDown
  rw [hgap, significand, shift, hx]
  split
  · next h =>
    have hdouble : gap (r + 1) = 2 * gap r := by
      unfold gap
      rw [← Nat.pow_succ']
      congr 1
      omega
    rw [hdouble, Nat.mul_assoc 2 (2 * _), Nat.mul_div_cancel_left _ Nat.two_pos]
  · next h =>
    have hsame : gap (r + 1) = gap r := by
      unfold gap
      congr 1
      omega
    rw [hsame]

theorem centre_sub_reachDown {x : Double} {r : Nat} (hx : x.rank = r + 1) :
    (x.centre : ℚ) = tie r * (4 * 10 ^ decimalPlaces) + x.reachDown := by
  rw [reachDown_eq hx, tie_eq, centre, units_eq, hx, magnitude_succ]
  push_cast
  ring

theorem significand_mod_two (x : Double) : x.significand % 2 = x.rank % 2 := by
  unfold significand shift
  omega

theorem reaches_unitsOfPoint (x : Double) (point : Nat) :
    Reaches (unitsOfPoint point) x.rank ↔
      if x.significand % 2 = 0 then x.centre ≤ point + x.reachDown
      else x.centre < point + x.reachDown := by
  rw [significand_mod_two]
  cases hx : x.rank with
  | zero =>
    have hcentre : x.centre = 0 := by rw [centre, units_eq, hx, magnitude_zero]; simp
    simp [Reaches, hcentre]
  | succ r =>
    have hdown := centre_sub_reachDown hx
    split
    · next heven =>
      rw [reaches_even heven, unitsOfPoint, le_div_iff₀ scale_pos, ← @Nat.cast_le ℚ]
      push_cast
      constructor <;> intro h <;> linarith
    · next hodd =>
      rw [reaches_odd (by omega), lt_unitsOfPoint, ← @Nat.cast_lt ℚ]
      push_cast
      constructor <;> intro h <;> linarith

theorem reaches_succ_unitsOfPoint (x : Double) (point : Nat) :
    ¬ Reaches (unitsOfPoint point) (x.rank + 1) ↔
      if x.significand % 2 = 0 then point ≤ x.centre + x.reachUp
      else point < x.centre + x.reachUp := by
  have hup := x.centre_add_reachUp
  rw [significand_mod_two]
  split
  · next heven =>
    rw [reaches_odd (by omega), not_lt, unitsOfPoint, div_le_iff₀ scale_pos, ← hup, Nat.cast_le]
  · next hodd =>
    rw [reaches_even (by omega), not_le, unitsOfPoint_lt, ← hup, Nat.cast_lt]

/-- **A point is attracted when it rounds to the double.** -/
theorem attracts_iff {x : Double} {point : Nat} :
    x.attracts point = true ↔ RoundsTo (unitsOfPoint point) x.rank := by
  unfold attracts RoundsTo
  rw [reaches_unitsOfPoint, reaches_succ_unitsOfPoint]
  split <;> simp

/-! ## The search finds a point -/

theorem reachUp_pos (x : Double) : 0 < x.reachUp :=
  Nat.mul_pos (Nat.mul_pos Nat.two_pos (Nat.two_pow_pos _)) (Nat.pow_pos (by omega))

/-- A grid whose step is narrower than what is attracted has a point next to the centre that is
attracted. -/
theorem attracts_neighbour {x : Double} {step : Nat} (hpos : 0 < step)
    (hstep : step < x.reachDown + x.reachUp) :
    x.attracts (x.centre / step * step) = true
      ∨ x.attracts ((x.centre / step + 1) * step) = true := by
  have hbelow : x.centre / step * step ≤ x.centre := Nat.div_mul_le_self _ _
  have habove : x.centre < x.centre / step * step + step := Nat.lt_div_mul_add hpos
  have hnext : (x.centre / step + 1) * step = x.centre / step * step + step := by
    rw [Nat.add_mul, Nat.one_mul]
  have hup := x.reachUp_pos
  rw [hnext]
  unfold attracts
  split <;> simp only [decide_eq_true_eq] <;> omega

/-- The interval that is attracted is wide: more than `10 ^ -16` of the double. -/
theorem centre_lt_reach (x : Double) : x.centre < (x.reachDown + x.reachUp) * 10 ^ 16 := by
  have hpos : 0 < 2 ^ x.shift * 10 ^ decimalPlaces :=
    Nat.mul_pos (Nat.two_pow_pos _) (Nat.pow_pos (by omega))
  have hsig : x.significand < 2 ^ 53 := by
    unfold significand shift
    omega
  have hcentre : x.centre = 4 * x.significand * (2 ^ x.shift * 10 ^ decimalPlaces) := by
    unfold centre units
    ring
  have hup : x.reachUp = 2 * (2 ^ x.shift * 10 ^ decimalPlaces) := Nat.mul_assoc _ _ _
  unfold reachDown
  rw [hcentre, hup, Nat.mul_div_cancel_left _ Nat.two_pos]
  generalize 2 ^ x.shift * 10 ^ decimalPlaces = g at hpos
  split
  · next h =>
    rw [h.1]
    omega
  · calc 4 * x.significand * g < 4 * 10 ^ 16 * g :=
          Nat.mul_lt_mul_of_pos_right (by omega) hpos
      _ = (2 * g + 2 * g) * 10 ^ 16 := by ring

/-- A double other than zero has at least seventeen digits on the scale of the search. -/
theorem seventeen_le_decimalLength {x : Double} (hx : 0 < x.units) : 17 ≤ x.decimalLength := by
  have hlarge : 10 ^ 16 * unitsPerOne ≤ 10 ^ decimalPlaces := by decide +kernel
  exact (lt_decimalLength_iff (by omega)).2 (hlarge.trans (Nat.le_mul_of_pos_left _ hx))

/-- The first decimal with `n` digits on the grid is not above the double. -/
theorem ten_pow_mul_gridStep_le {x : Double} {n : Nat} (hx : 0 < x.units) (hn : 0 < n)
    (hle : n ≤ x.decimalLength) : 10 ^ (n - 1) * x.gridStep n ≤ x.centre := by
  have hlen := seventeen_le_decimalLength hx
  have hdigits : 10 ^ (x.decimalLength - 1) * unitsPerOne ≤ x.units * 10 ^ decimalPlaces :=
    (lt_decimalLength_iff (by omega)).1 (by omega)
  have hpow : 10 ^ (n - 1) * 10 ^ (x.decimalLength - n) = 10 ^ (x.decimalLength - 1) := by
    rw [← Nat.pow_add]
    congr 1
    omega
  calc 10 ^ (n - 1) * x.gridStep n
      = 4 * (10 ^ (n - 1) * 10 ^ (x.decimalLength - n) * unitsPerOne) := by unfold gridStep; ring
    _ ≤ 4 * (x.units * 10 ^ decimalPlaces) := by
        rw [hpow]
        exact Nat.mul_le_mul_left 4 hdigits
    _ = x.centre := (Nat.mul_assoc _ _ _).symm

/-- With seventeen digits the grid is fine enough. -/
theorem gridStep_lt_reach {x : Double} (hx : 0 < x.units) :
    x.gridStep 17 < x.reachDown + x.reachUp := by
  have hstep := ten_pow_mul_gridStep_le hx (Nat.succ_pos 16) (seventeen_le_decimalLength hx)
  rw [Nat.mul_comm] at hstep
  exact Nat.lt_of_mul_lt_mul_right (hstep.trans_lt x.centre_lt_reach)

/-! ## What the search finds -/

/-- A point that the search finds is attracted. -/
theorem attracts_onGrid {tie : Tie} {x : Double} {n point : Nat}
    (h : x.onGrid? tie n = some point) : x.attracts (point * x.gridStep n) = true := by
  rcases neighbour?_cases h with ⟨hbelow, rfl⟩ | ⟨habove, rfl⟩
  · exact hbelow
  · exact habove

theorem isSome_neighbour? (tie : Tie) (centre step : Nat) (below above : Bool) :
    (neighbour? tie centre step below above).isSome = (below || above) := by
  cases below <;> cases above <;> rfl

theorem onGrid?_isSome {tie : Tie} {x : Double} (hx : 0 < x.units) :
    (x.onGrid? tie 17).isSome = true := by
  rw [onGrid?, isSome_neighbour?, Bool.or_eq_true]
  exact attracts_neighbour (x.gridStep_pos 17) (gridStep_lt_reach hx)

/-- What a point of a grid stands for is a decimal. -/
theorem unitsOfPoint_mul_gridStep {x : Double} {n : Nat} (hn : n ≤ x.decimalLength) (point : Nat) :
    unitsOfPoint (point * x.gridStep n)
      = point * 10 ^ ((x.decimalLength : ℤ) - n - decimalPlaces) * unitsPerOne := by
  have hexp : (10 : ℚ) ^ ((x.decimalLength : ℤ) - n - decimalPlaces)
      = 10 ^ (x.decimalLength - n) / 10 ^ decimalPlaces := by
    rw [← Nat.cast_sub hn, zpow_sub₀ (by norm_num), zpow_natCast, zpow_natCast]
  rw [hexp, unitsOfPoint, gridStep]
  push_cast
  ring

/-- The decimal of a point denotes the number that the point stands for. -/
theorem value_decimalOnGrid {x : Double} {n : Nat} (hn : n ≤ x.decimalLength) (point : Nat) :
    (x.decimalOnGrid n point).value * unitsPerOne = unitsOfPoint (point * x.gridStep n) := by
  have hvalue : (x.decimalOnGrid n point).value
      = point * 10 ^ ((x.decimalLength : ℤ) - n - decimalPlaces) := by
    unfold decimalOnGrid Decimal.value
    simp only
    split
    · next hpoint =>
      rw [hpoint, zpow_add₀ (by norm_num), zpow_natCast]
      push_cast
      ring
    · rfl
  rw [hvalue, unitsOfPoint_mul_gridStep hn]

theorem rank_eq_zero {x : Double} (hx : x.units = 0) : x.rank = 0 := by
  rw [units_eq, ← magnitude_zero] at hx
  exact magnitude_strictMono.injective hx

/-- The shortest decimal of zero is zero, and that of another double is found on a grid: the first
that has a point for it. -/
theorem shortest_cases (tie : Tie) (x : Double) :
    x.units = 0 ∧ x.shortest tie = ⟨0, 0⟩ ∨
      0 < x.units ∧ ∃ n point, n ≤ 17 ∧ x.onGrid? tie n = some point ∧
        x.shortest tie = x.decimalOnGrid n point ∧
        0 < n ∧ ∀ m, 0 < m → m < n → x.onGrid? tie m = none := by
  unfold shortest
  split
  · next hx => exact .inl ⟨hx, rfl⟩
  · next hx =>
    have hpos := Nat.pos_of_ne_zero hx
    refine .inr ⟨hpos, ?_⟩
    cases hfind : (List.range 17).findSome? fun i =>
        (x.onGrid? tie (i + 1)).map (x.decimalOnGrid (i + 1)) with
    | none =>
      have hlast := List.findSome?_eq_none_iff.1 hfind 16 (by simp)
      have hsome : (x.onGrid? tie 17).isSome = true := onGrid?_isSome hpos
      rw [Option.map_eq_none_iff] at hlast
      simp [hlast] at hsome
    | some d =>
      obtain ⟨before, i, after, hrange, hd, hnone⟩ := List.findSome?_eq_some_iff.1 hfind
      obtain ⟨point, hpoint, rfl⟩ := Option.map_eq_some_iff.1 hd
      have hmem (j : Nat) : j < 17 ↔ j ∈ before ∨ j = i ∨ j ∈ after := by
        rw [← List.mem_range, hrange, List.mem_append, List.mem_cons]
      have hsorted : ∀ j ∈ after, i < j := by
        have h : (before ++ i :: after).Pairwise (· < ·) := hrange ▸ List.pairwise_lt_range
        exact (List.pairwise_cons.1 (List.pairwise_append.1 h).2.1).1
      have hi : i < 17 := (hmem i).2 (.inr (.inl rfl))
      refine ⟨i + 1, point, hi, hpoint, rfl, i.succ_pos, fun m hm hlt => ?_⟩
      obtain ⟨j, rfl⟩ : ∃ j, m = j + 1 := ⟨m - 1, by omega⟩
      rcases (hmem j).1 (by omega) with hbefore | rfl | hafter
      · exact Option.map_eq_none_iff.1 (hnone j hbefore)
      · omega
      · have := hsorted j hafter
        omega

/-- **The shortest decimal of a double rounds to it.** -/
theorem roundsTo_shortest (tie : Tie) (x : Double) :
    RoundsTo ((x.shortest tie).value * unitsPerOne) x.rank := by
  rcases x.shortest_cases tie with ⟨hx, hzero⟩ | ⟨hpos, n, point, hn, hpoint, hd, -⟩
  · have hvalue : (⟨0, 0⟩ : Decimal).value * unitsPerOne = (magnitude 0 : ℚ) := by
      simp only [Decimal.value, magnitude_zero, Nat.cast_zero, zero_mul]
    rw [hzero, rank_eq_zero hx, hvalue]
    exact roundsTo_magnitude 0
  · rw [hd, value_decimalOnGrid (hn.trans (seventeen_le_decimalLength hpos))]
    exact attracts_iff.1 (attracts_onGrid hpoint)

/-- The grid with `n` digits holds a double between zero and `10 ^ n`. -/
theorem centre_lt_mul_gridStep {x : Double} {n : Nat} (hn : n ≤ x.decimalLength)
    (hlen : 0 < x.decimalLength) : x.centre < 10 ^ n * x.gridStep n := by
  have hdigits : x.units * 10 ^ decimalPlaces < 10 ^ x.decimalLength * unitsPerOne :=
    Nat.not_le.1 fun h => Nat.lt_irrefl _ ((lt_decimalLength_iff hlen).2 h)
  have hpow : 10 ^ n * 10 ^ (x.decimalLength - n) = 10 ^ x.decimalLength := by
    rw [← Nat.pow_add]
    congr 1
    omega
  calc x.centre = 4 * (x.units * 10 ^ decimalPlaces) := Nat.mul_assoc _ _ _
    _ < 4 * (10 ^ x.decimalLength * unitsPerOne) := Nat.mul_lt_mul_of_pos_left hdigits (by omega)
    _ = 10 ^ n * x.gridStep n := by
        rw [← hpow, gridStep]
        ring

/-- The shortest decimal has seventeen digits at most, and none of them stands behind the last
decimal place. -/
theorem shortest_bounds (tie : Tie) (x : Double) : (x.shortest tie).coefficient < 10 ^ 17 ∧
    -(decimalPlaces : ℤ) ≤ (x.shortest tie).exponent := by
  rcases x.shortest_cases tie with ⟨-, hzero⟩ | ⟨hpos, n, point, hn, hpoint, hd, -⟩
  · rw [hzero]
    decide
  · have hlen := seventeen_le_decimalLength hpos
    have hle : point ≤ 10 ^ n := by
      have hlt := (Nat.div_lt_iff_lt_mul (x.gridStep_pos n)).2
        (centre_lt_mul_gridStep (hn.trans hlen) (by omega))
      rcases neighbour?_cases hpoint with ⟨-, rfl⟩ | ⟨-, rfl⟩ <;> omega
    have hpow : 10 ^ n ≤ 10 ^ 17 := Nat.pow_le_pow_right (by omega) hn
    rw [hd]
    unfold decimalOnGrid
    simp only
    split
    · exact ⟨by simp, by simp only; omega⟩
    · exact ⟨by simp only; omega, by simp only; omega⟩

/-- Doubles whose shortest decimals denote the same number have the same magnitude. -/
theorem rank_eq_of_shortest {tie tie' : Tie} {x y : Double}
    (h : (x.shortest tie).value = (y.shortest tie').value) : x.rank = y.rank := by
  have hx := x.roundsTo_shortest tie
  rw [h] at hx
  exact hx.unique (y.roundsTo_shortest tie')

end Double

end SqlTree
