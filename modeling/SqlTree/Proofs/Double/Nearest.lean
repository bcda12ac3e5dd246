import SqlTree.Proofs.Double.Rounding

/-!
# Rounding takes the nearest

`RoundsTo` is laid down by ties, which is how it is computed with. Said by distances it is what it
is meant to be: a number rounds to the magnitude that no other is nearer to, and if two are as near,
to the one with the even rank (`roundsTo_iff_nearest`). All ranks count, those beyond the largest
finite double too, so a number that rounds to a finite double does not overflow.
-/

namespace SqlTree.Double

/-! ## Which of two is nearer -/

section

variable {a b v : ℚ} (h : a < b)
include h

theorem abs_sub_lt_upper_iff : |v - b| < |v - a| ↔ (a + b) / 2 < v := by
  rcases abs_cases (v - a) with ⟨ha, hva⟩ | ⟨ha, hva⟩ <;>
    rcases abs_cases (v - b) with ⟨hb, hvb⟩ | ⟨hb, hvb⟩ <;>
    constructor <;> intro hlt <;> linarith

theorem abs_sub_lt_lower_iff : |v - a| < |v - b| ↔ v < (a + b) / 2 := by
  rcases abs_cases (v - a) with ⟨ha, hva⟩ | ⟨ha, hva⟩ <;>
    rcases abs_cases (v - b) with ⟨hb, hvb⟩ | ⟨hb, hvb⟩ <;>
    constructor <;> intro hlt <;> linarith

theorem abs_sub_eq_iff : |v - a| = |v - b| ↔ v = (a + b) / 2 := by
  constructor
  · intro heq
    exact le_antisymm (not_lt.1 fun hlt => ((abs_sub_lt_upper_iff h).2 hlt).ne' heq)
      (not_lt.1 fun hlt => ((abs_sub_lt_lower_iff h).2 hlt).ne heq)
  · intro hmid
    exact le_antisymm (not_lt.1 fun hlt => ((abs_sub_lt_upper_iff h).1 hlt).ne' hmid)
      (not_lt.1 fun hlt => ((abs_sub_lt_lower_iff h).1 hlt).ne hmid)

end

/-! ## Distances to magnitudes -/

/-- Is a number of units as near to the magnitude of this rank as to any other, and nearer if the
rank is odd? -/
def IsNearestRank (v : ℚ) (r : Nat) : Prop :=
  ∀ s, s ≠ r → |v - magnitude r| < |v - magnitude s|
    ∨ |v - magnitude r| = |v - magnitude s| ∧ r % 2 = 0

theorem magnitude_cast_lt {r s : Nat} (h : r < s) : (magnitude r : ℚ) < magnitude s :=
  Nat.cast_lt.2 (magnitude_strictMono h)

/-- Seen from above, the neighbour below a rank is the one to compare with. -/
theorem Reaches.nearest {v : ℚ} {r s : Nat} (h : Reaches v r) (hs : s < r) :
    |v - magnitude r| < |v - magnitude s|
      ∨ |v - magnitude r| = |v - magnitude s| ∧ r % 2 = 0 := by
  obtain ⟨t, rfl⟩ : ∃ t, r = t + 1 := ⟨r - 1, by omega⟩
  have hlt := magnitude_cast_lt hs
  rcases Nat.eq_or_lt_of_le (Nat.le_of_lt_succ hs) with rfl | hbelow
  · rcases h with habove | ⟨heq, hodd⟩
    · exact .inl ((abs_sub_lt_upper_iff hlt).2 habove)
    · exact .inr ⟨((abs_sub_eq_iff hlt).2 heq.symm).symm, by omega⟩
  · have hle : tie t ≤ v := by
      rcases h with habove | ⟨heq, -⟩
      · exact habove.le
      · exact heq.le
    have hmagnitude := magnitude_cast_lt hbelow
    refine .inl ((abs_sub_lt_upper_iff hlt).2 (lt_of_lt_of_le ?_ hle))
    unfold tie
    linarith

/-- Seen from below, the neighbour above a rank is the one to compare with. -/
theorem nearest_of_not_reaches {v : ℚ} {r s : Nat} (h : ¬ Reaches v (r + 1)) (hs : r < s) :
    |v - magnitude r| < |v - magnitude s|
      ∨ |v - magnitude r| = |v - magnitude s| ∧ r % 2 = 0 := by
  have hlt := magnitude_cast_lt hs
  rw [reaches_succ, not_or, not_lt] at h
  obtain ⟨hle, heven⟩ := h
  rcases Nat.eq_or_lt_of_le (Nat.succ_le_of_lt hs) with rfl | habove
  · rcases hle.lt_or_eq with hbelow | heq
    · exact .inl ((abs_sub_lt_lower_iff hlt).2 hbelow)
    · refine .inr ⟨(abs_sub_eq_iff hlt).2 heq, ?_⟩
      have hodd : ¬ r % 2 = 1 := fun hodd => heven ⟨heq.symm, hodd⟩
      omega
  · have hmagnitude := magnitude_cast_lt habove
    refine .inl ((abs_sub_lt_lower_iff hlt).2 (lt_of_le_of_lt hle ?_))
    unfold tie
    linarith

/-- **A number rounds to the nearest magnitude, and halfway between two to the even one.** -/
theorem roundsTo_iff_nearest {v : ℚ} {r : Nat} : RoundsTo v r ↔ IsNearestRank v r := by
  constructor
  · rintro ⟨hreaches, hnot⟩ s hs
    rcases Nat.lt_or_gt_of_ne hs with hbelow | habove
    · exact hreaches.nearest hbelow
    · exact nearest_of_not_reaches hnot habove
  · intro h
    constructor
    · cases r with
      | zero => trivial
      | succ t =>
        have hlt := magnitude_cast_lt (Nat.lt_succ_self t)
        rcases h t (Nat.ne_of_lt (Nat.lt_succ_self t)) with hnearer | ⟨heq, heven⟩
        · exact .inl ((abs_sub_lt_upper_iff hlt).1 hnearer)
        · exact .inr ⟨((abs_sub_eq_iff hlt).1 heq.symm).symm, by omega⟩
    · have hlt := magnitude_cast_lt (Nat.lt_succ_self r)
      rcases h (r + 1) (Nat.ne_of_gt (Nat.lt_succ_self r)) with hnearer | ⟨heq, heven⟩
      · exact not_reaches_of_lt_tie ((abs_sub_lt_lower_iff hlt).1 hnearer)
      · have hmid : v = tie r := (abs_sub_eq_iff hlt).1 heq
        rw [reaches_succ, hmid]
        rintro (habove | ⟨-, hodd⟩)
        · exact lt_irrefl _ habove
        · omega

/-- What lies between two numbers that round to a rank rounds to it too. -/
theorem RoundsTo.between {u v w : ℚ} {r : Nat} (hu : RoundsTo u r) (hw : RoundsTo w r)
    (huv : u ≤ v) (hvw : v ≤ w) : RoundsTo v r :=
  ⟨hu.1.mono huv, fun h => hw.2 (h.mono hvw)⟩

end SqlTree.Double
