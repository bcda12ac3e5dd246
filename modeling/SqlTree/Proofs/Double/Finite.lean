import SqlTree.Proofs.Double.Scaling

/-!
# Every number that is read is finite

A significand below `2 ^ 64` is a finite double, and the reader of numerals leaves the finite
doubles nowhere: a product is checked before it is used, and a quotient by a power of ten is not
larger than its dividend (`Double.isNearest_quotient`). So a numeral of any length, with an exponent
of any size, is read as a finite number or refused as out of range (`Numeral.value_cases`).
-/

namespace SqlTree

namespace Double

/-! ## Finite doubles -/

theorem isFinite_neg (x : Double) : x.neg.isFinite = x.isFinite := by
  unfold isFinite neg
  rw [rank_ofRank x.rank_lt]

theorem isFinite_ofNat {n : Nat} (hn : n < 2 ^ 64) : (ofNat n).isFinite = true :=
  (isNearest_ofNat (fits_of_lt hn)).isFinite

theorem unitsPerOne_le_powerOfTen {k : Nat} (hk : k ≤ maxPower) :
    unitsPerOne ≤ (powerOfTen k).units := by
  have hone : (ofNat 1).units = unitsPerOne := by
    rw [isExact_of_le (by omega), Nat.one_mul]
  have hle : ((1 : ℕ) * unitsPerOne : ℚ) ≤ (10 ^ k : ℕ) * unitsPerOne := by
    exact_mod_cast Nat.mul_le_mul_right unitsPerOne (Nat.one_le_pow k 10 (by omega))
  have hrank : (ofNat 1).rank ≤ (powerOfTen k).rank :=
    (isNearest_ofNat (fits_of_lt (by omega))).rounds.le (isNearest_ofNat (fits_ten_pow hk)).rounds
      hle
  rw [← hone, units_eq, units_eq]
  exact magnitude_strictMono.monotone hrank

end Double

namespace Json

/-! ## Numerals -/

namespace Numeral

theorem gather_lt {s : Nat} (hs : s < 2 ^ 64) (ds : List Nat) : (gather s ds).1 < 2 ^ 64 := by
  induction ds generalizing s with
  | nil => exact hs
  | cons d ds ih =>
    rw [gather]
    split
    · next hfits => exact ih hfits
    · exact hs

theorem significand_lt (n : Numeral) : n.significand.1 < 2 ^ 64 :=
  gather_lt (gather_lt (Nat.two_pow_pos 64) n.whole) n.fraction

theorem isFinite_shrink {f : Double} (hf : f.isFinite = true) (k : Nat) :
    (shrink k f).isFinite = true := by
  induction k generalizing f with
  | zero => exact hf
  | succ k ih =>
    rw [shrink]
    split
    · exact hf
    · exact ih (Double.isNearest_quotient hf (Double.unitsPerOne_le_powerOfTen le_rfl)).isFinite

/-- What a finite double is scaled to is finite. -/
theorem isFinite_of_scale {f y : Double} {power : ℤ} (hf : f.isFinite = true)
    (h : scale f power = some y) : y.isFinite = true := by
  cases power with
  | ofNat k =>
    rw [scale] at h
    split at h
    · simp only at h
      split at h
      · next hfinite =>
        obtain rfl := Option.some.inj h
        exact hfinite
      · cases h
    · split at h
      · obtain rfl := Option.some.inj h
        exact hf
      · cases h
  | negSucc k =>
    rw [scale] at h
    obtain rfl := Option.some.inj h
    have hplaces : k % 308 + 1 ≤ Double.maxPower := Nat.mod_lt k (by omega)
    exact (Double.isNearest_quotient (isFinite_shrink hf _)
      (Double.unitsPerOne_le_powerOfTen hplaces)).isFinite

/-- The magnitude of a numeral is finite, or the numeral is out of range. -/
theorem magnitude_cases (n : Numeral) :
    (∃ x, n.magnitude = .ok x ∧ x.isFinite = true) ∨ n.magnitude = .error .numberOutOfRange := by
  have hscale (power : ℤ) (x : Double)
      (h : scale (Double.ofNat n.significand.1) power = some x) : x.isFinite = true :=
    isFinite_of_scale (Double.isFinite_ofNat n.significand_lt) h
  unfold magnitude
  cases n.exponent with
  | none =>
    simp only
    split
    · next x hx => exact .inl ⟨x, rfl, hscale _ x hx⟩
    · exact .inr rfl
  | some exponent =>
    simp only
    split
    · split
      · exact .inl ⟨_, rfl, Double.isFinite_ofNat (by omega)⟩
      · exact .inr rfl
    · split
      · next x hx => exact .inl ⟨x, rfl, hscale _ x hx⟩
      · exact .inr rfl

theorem toDouble_cases (n : Numeral) :
    (∃ x, n.toDouble = .ok x ∧ x.isFinite = true) ∨ n.toDouble = .error .numberOutOfRange := by
  unfold toDouble
  rcases n.magnitude_cases with ⟨x, hx, hfinite⟩ | herror
  · rw [hx]
    refine .inl ⟨_, rfl, ?_⟩
    split
    · rwa [Double.isFinite_neg]
    · exact hfinite
  · rw [herror]
    exact .inr rfl

theorem natAbs_lt_of_integer? {n : Numeral} {m : ℤ} (h : n.integer? = some m) :
    m.natAbs < 2 ^ 64 := by
  unfold integer? at h
  split at h
  · simp only at h
    split at h
    · split at h
      · obtain rfl := Option.some.inj h
        omega
      · cases h
    · split at h
      · obtain rfl := Option.some.inj h
        omega
      · cases h
  · cases h

/-- **A number is read as a finite one or refused**, however many digits it has and however large
its exponent is. -/
theorem value_cases (n : Numeral) :
    (∃ m, n.value = .ok m ∧ m.toDouble.isFinite = true) ∨ n.value = .error .numberOutOfRange := by
  unfold value
  cases hinteger : n.integer? with
  | some m =>
    have hfinite := Double.isFinite_ofNat (natAbs_lt_of_integer? hinteger)
    refine .inl ⟨.integer m, rfl, ?_⟩
    rw [Number.toDouble]
    split
    · rwa [Double.isFinite_neg]
    · exact hfinite
  | none =>
    rcases n.toDouble_cases with ⟨x, hx, hfinite⟩ | herror
    · simp only [hx]
      exact .inl ⟨.double x, rfl, hfinite⟩
    · simp only [herror]
      exact .inr rfl

end Numeral

end Json

end SqlTree
