import Mathlib.Tactic.Positivity
import SqlTree.Proofs.Double.Shortest

/-!
# How far rounding leads

Two numbers are *within* a factor when each is at most so many times the other. Rounding moves a
number by a factor of `1 + 2 ^ -53` at most, unless the number is among the smallest
(`within_of_roundsTo`), and factors multiply along products and quotients. In the other direction,
numbers within a small factor round to ranks that are close to each other (`roundsNear_of_within`):
from one rank to the next a magnitude grows by a factor of more than `1 + 2 ^ -53`.
-/

namespace SqlTree

/-! ## Factors -/

/-- Is each of two numbers at most `factor` times the other? -/
structure Within (factor v w : ℚ) : Prop where
  one_le : 1 ≤ factor
  le : v ≤ factor * w
  ge : w ≤ factor * v

namespace Within

variable {f g v w x y : ℚ}

theorem refl (v : ℚ) : Within 1 v v := ⟨le_rfl, (one_mul v).ge, (one_mul v).ge⟩

theorem eq_of_one (h : Within 1 v w) : v = w :=
  le_antisymm (h.le.trans_eq (one_mul w)) (h.ge.trans_eq (one_mul v))

theorem symm (h : Within f v w) : Within f w v := ⟨h.one_le, h.ge, h.le⟩

theorem pos (h : Within f v w) : 0 < f := zero_lt_one.trans_le h.one_le

theorem nonneg (h : Within f v w) (hw : 0 ≤ w) : 0 ≤ v :=
  nonneg_of_mul_nonneg_right (hw.trans h.ge) h.pos

theorem one_le_mul (h : Within f v w) (h' : Within g x y) : 1 ≤ f * g :=
  one_le_mul_of_one_le_of_one_le h.one_le h'.one_le

theorem trans (h : Within f v w) (h' : Within g w x) : Within (f * g) v x where
  one_le := h.one_le_mul h'
  le := calc
    v ≤ f * w := h.le
    _ ≤ f * (g * x) := mul_le_mul_of_nonneg_left h'.le h.pos.le
    _ = f * g * x := (mul_assoc f g x).symm
  ge := calc
    x ≤ g * w := h'.ge
    _ ≤ g * (f * v) := mul_le_mul_of_nonneg_left h.ge h'.pos.le
    _ = f * g * v := by ring

theorem mul (hv : 0 ≤ v) (hw : 0 ≤ w) (hx : 0 ≤ x) (hy : 0 ≤ y) (h : Within f v w)
    (h' : Within g x y) : Within (f * g) (v * x) (w * y) where
  one_le := h.one_le_mul h'
  le := calc
    v * x ≤ f * w * (g * y) :=
      mul_le_mul h.le h'.le hx (mul_nonneg h.pos.le hw)
    _ = f * g * (w * y) := by ring
  ge := calc
    w * y ≤ f * v * (g * x) :=
      mul_le_mul h.ge h'.ge hy (mul_nonneg h.pos.le hv)
    _ = f * g * (v * x) := by ring

theorem inv (hv : 0 < v) (hw : 0 < w) (h : Within f v w) : Within f v⁻¹ w⁻¹ where
  one_le := h.one_le
  le := by
    rw [← div_eq_mul_inv, le_div_iff₀ hw, inv_mul_le_iff₀ hv, mul_comm]
    exact h.ge
  ge := by
    rw [← div_eq_mul_inv, le_div_iff₀ hv, inv_mul_le_iff₀ hw, mul_comm]
    exact h.le

theorem div (hv : 0 ≤ v) (hw : 0 ≤ w) (hx : 0 < x) (hy : 0 < y) (h : Within f v w)
    (h' : Within g x y) : Within (f * g) (v / x) (w / y) := by
  rw [div_eq_mul_inv, div_eq_mul_inv]
  exact mul hv hw (inv_nonneg.2 hx.le) (inv_nonneg.2 hy.le) h (h'.inv hx hy)

end Within

namespace Double

/-! ## The error of one rounding -/

theorem magnitude_two_pow {n : Nat} (hn : n ≤ 52) : magnitude (2 ^ n) = 2 ^ n := by
  have hle : 2 ^ n ≤ 2 ^ 53 := Nat.pow_le_pow_right Nat.two_pos (by omega)
  have h : magnitude (0 * 2 ^ 52 + 2 ^ n) = 2 ^ n * 2 ^ 0 := magnitude_add (.inl rfl) hle
  rwa [Nat.zero_mul, Nat.zero_add, Nat.pow_zero, Nat.mul_one] at h

/-- The gap above a rank is small against its magnitude, or it is one unit. -/
theorem gap_mul_le {n r : Nat} (hn : n ≤ 52) (hr : 2 ^ n ≤ magnitude r) :
    gap r * 2 ^ n ≤ magnitude r := by
  obtain ⟨shift, m, rfl, hlow, hhigh, hgap⟩ := exists_shift r
  rw [hgap]
  rw [magnitude_add hlow hhigh.le] at hr ⊢
  rcases hlow with rfl | hlow
  · simpa using hr
  · rw [Nat.mul_comm]
    exact Nat.mul_le_mul_right _ ((Nat.pow_le_pow_right Nat.two_pos hn).trans hlow)

theorem half_gap_le {n r : Nat} {v : ℚ} (hn : n ≤ 52) (hr : 2 ^ n ≤ magnitude r)
    (hv : magnitude r ≤ v) : (gap r : ℚ) / 2 ≤ 1 / 2 ^ (n + 1) * v := by
  have hgap : (gap r : ℚ) * 2 ^ n ≤ magnitude r := by exact_mod_cast gap_mul_le hn hr
  rw [pow_succ, one_div_mul_eq_div, div_le_div_iff₀ two_pos (by positivity)]
  calc (gap r : ℚ) * (2 ^ n * 2) = gap r * 2 ^ n * 2 := (mul_assoc _ _ _).symm
    _ ≤ v * 2 := mul_le_mul_of_nonneg_right (hgap.trans hv) two_pos.le

theorem RoundsTo.le_tie {v : ℚ} {r : Nat} (h : RoundsTo v r) : v ≤ tie r := by
  by_contra hlt
  exact h.2 (.inl (not_le.1 hlt))

theorem RoundsTo.tie_le {v : ℚ} {r : Nat} (h : RoundsTo v (r + 1)) : tie r ≤ v := by
  rcases h.1 with hlt | ⟨heq, -⟩
  · exact hlt.le
  · exact heq.le

/-- **Rounding moves a number by a small factor.** It is `1 + 2 ^ -53` for all numbers but the
smallest, where the gap of one unit is large against the number. -/
theorem within_of_roundsTo {v : ℚ} {r n : Nat} (hn : n ≤ 52) (hv : 2 ^ n ≤ v)
    (h : RoundsTo v r) : Within (1 + 1 / 2 ^ (n + 1)) (magnitude r) v := by
  have hpow : ((magnitude (2 ^ n) : ℕ) : ℚ) = 2 ^ n := by
    rw [magnitude_two_pow hn]
    push_cast
    rfl
  have hle : 2 ^ n ≤ r := (roundsTo_magnitude (2 ^ n)).le h (hpow.trans_le hv)
  have hbig {s : Nat} (hs : 2 ^ n ≤ s) : 2 ^ n ≤ magnitude s := by
    rw [← magnitude_two_pow hn]
    exact magnitude_strictMono.monotone hs
  have hpos : (0 : ℚ) ≤ v := le_trans (by positivity) hv
  refine ⟨by simp, ?_, ?_⟩
  · rw [add_mul, one_mul]
    rcases hle.eq_or_lt with rfl | hlt
    · have : (0 : ℚ) ≤ 1 / 2 ^ (n + 1) * v := by positivity
      linarith
    · obtain ⟨q, rfl⟩ := Nat.exists_eq_add_of_lt hlt
      have htie := h.tie_le
      have hhalf := half_gap_le hn (hbig (Nat.le_add_right _ q)) ((lt_tie _).le.trans htie)
      rw [tie_eq] at htie
      rw [magnitude_succ]
      push_cast
      linarith
  · have htie := h.le_tie
    have hhalf := half_gap_le hn (hbig hle) le_rfl
    rw [tie_eq] at htie
    linarith

/-! ## The distance of ranks -/

theorem tie_add_mul_gap_le (r k : Nat) : tie r + k * gap r ≤ tie (r + k) := by
  induction k with
  | zero => simp
  | succ k ih =>
    have hgap : (gap r : ℚ) ≤ gap (r + k) := Nat.cast_le.2 (gap_mono (Nat.le_add_right r k))
    have hgap' : (gap r : ℚ) ≤ gap (r + k + 1) := Nat.cast_le.2 (gap_mono (by omega))
    have hstep : tie (r + k + 1) = tie (r + k) + gap (r + k) / 2 + gap (r + k + 1) / 2 := by
      rw [tie_eq, tie_eq, magnitude_succ]
      push_cast
      ring
    rw [← Nat.add_assoc, hstep]
    push_cast
    linarith

theorem exists_roundsTo {v : ℚ} (hv : 0 ≤ v) : ∃ r, RoundsTo v r := by
  have hratio : ((v.num.toNat : ℕ) : ℚ) / v.den = v := by
    have hnum : ((v.num.toNat : ℕ) : ℤ) = v.num := Int.toNat_of_nonneg (Rat.num_nonneg.2 hv)
    rw [← Int.cast_natCast, hnum]
    exact v.num_div_den
  rw [← hratio]
  exact ⟨_, roundsTo_nearestRank _ v.den_pos⟩

/-- A number that exceeds another by less than `k` gaps rounds to `k` ranks more at most. -/
theorem RoundsTo.le_add_of_sub_lt {v w : ℚ} {r s k : Nat} (hv : RoundsTo v r) (hw : RoundsTo w s)
    (h : w - v < k * gap r) : s ≤ r + k := by
  by_contra hlt
  have hreach : Reaches w (r + k + 1) := hw.1.of_le (by omega)
  have htie : tie (r + k) ≤ w := by
    rcases hreach with hlt | ⟨heq, -⟩
    · exact hlt.le
    · exact heq.le
  have hgaps := tie_add_mul_gap_le r k
  have hle := hv.le_tie
  linarith

/-- Below the tie of a rank lie less than `2 ^ 53` of its gaps. -/
theorem tie_le_mul_gap (r : Nat) : tie r ≤ (2 ^ 53 - 1 / 2) * gap r := by
  obtain ⟨shift, m, rfl, hlow, hhigh, hgap⟩ := exists_shift r
  have hm : (m : ℚ) ≤ 2 ^ 53 - 1 := by
    have : (m + 1 : ℕ) ≤ (2 ^ 53 : ℕ) := hhigh
    have : ((m + 1 : ℕ) : ℚ) ≤ ((2 ^ 53 : ℕ) : ℚ) := Nat.cast_le.2 this
    push_cast at this
    linarith
  rw [hgap, tie_add hlow hhigh]
  push_cast
  exact mul_le_mul_of_nonneg_right (by linarith) (by positivity)

/-- Do two numbers round to ranks that are at most so many places apart? -/
def RoundsNear (places : Nat) (v w : ℚ) : Prop :=
  ∀ r s, RoundsTo v r → RoundsTo w s → r ≤ s + places ∧ s ≤ r + places

theorem RoundsNear.mono {k l : Nat} {v w : ℚ} (h : RoundsNear k v w) (hkl : k ≤ l) :
    RoundsNear l v w := by
  intro r s hr hs
  obtain ⟨hle, hge⟩ := h r s hr hs
  exact ⟨by omega, by omega⟩

theorem RoundsTo.le_add_of_within {f v w : ℚ} {r s k : Nat}
    (hf : (f - 1) * (2 ^ 53 - 1 / 2) < k) (h : Within f w v) (hv : RoundsTo v r)
    (hw : RoundsTo w s) : s ≤ r + k := by
  refine hv.le_add_of_sub_lt hw ?_
  have hgap : (0 : ℚ) < gap r := Nat.cast_pos.2 (gap_pos r)
  have hone : 0 ≤ f - 1 := sub_nonneg.2 h.one_le
  calc w - v ≤ (f - 1) * v := by linarith [h.le]
    _ ≤ (f - 1) * ((2 ^ 53 - 1 / 2) * gap r) :=
        mul_le_mul_of_nonneg_left (hv.le_tie.trans (tie_le_mul_gap r)) hone
    _ = (f - 1) * (2 ^ 53 - 1 / 2) * gap r := (mul_assoc _ _ _).symm
    _ < k * gap r := mul_lt_mul_of_pos_right hf hgap

/-- **Numbers within a small factor round to close ranks.** -/
theorem roundsNear_of_within {f v w : ℚ} {k : Nat} (hf : (f - 1) * (2 ^ 53 - 1 / 2) < k)
    (h : Within f v w) : RoundsNear k v w := fun _ _ hr hs =>
  ⟨hs.le_add_of_within hf h hr, hr.le_add_of_within hf h.symm hs⟩

/-- Where a gap is wide against the number, a larger factor does less harm. -/
theorem roundsNear_of_le {f v w : ℚ} (hf : f ≤ 1 + 1 / 2 ^ 50) (hw : 0 ≤ w) (hle : w ≤ 2 ^ 49)
    (h : Within f v w) : RoundsNear 1 v w := by
  have hgap (r : Nat) : (1 : ℚ) ≤ (1 : ℕ) * gap r := by
    rw [Nat.cast_one, one_mul]
    exact_mod_cast gap_pos r
  have hfactor : f - 1 ≤ 1 / 2 ^ 50 := by linarith
  have hone : 0 ≤ f - 1 := sub_nonneg.2 h.one_le
  have hv : v ≤ 2 ^ 49 + 1 / 2 := by
    calc v ≤ f * w := h.le
      _ ≤ (1 + 1 / 2 ^ 50) * 2 ^ 49 := mul_le_mul hf hle hw (by norm_num)
      _ = 2 ^ 49 + 1 / 2 := by norm_num
  have habove : v - w < 1 := by
    calc v - w ≤ (f - 1) * w := by linarith [h.le]
      _ ≤ 1 / 2 ^ 50 * 2 ^ 49 := mul_le_mul hfactor hle hw (by norm_num)
      _ < 1 := by norm_num
  have hbelow : w - v < 1 := by
    calc w - v ≤ (f - 1) * v := by linarith [h.ge]
      _ ≤ 1 / 2 ^ 50 * (2 ^ 49 + 1 / 2) := mul_le_mul hfactor hv (h.nonneg hw) (by norm_num)
      _ < 1 := by norm_num
  intro r s hr hs
  constructor
  · exact hs.le_add_of_sub_lt hr (habove.trans_le (hgap s))
  · exact hr.le_add_of_sub_lt hs (hbelow.trans_le (hgap r))

end Double

end SqlTree
