import SqlTree.Double.Text
import SqlTree.Proofs.Json.Numeral

/-!
# The text of a double is a number

Whatever the digits of a finite double are, its text in a document has the form of a number
(`Double.isNumeral_stored`). Two facts carry this: the search for the shortest decimal never yields
zero for a double other than zero (`Double.shortest_eq_zero_or_pos`), so no zero stands before
another digit, and each layout of `Decimal.stored` puts digits on both sides of its point.
-/

namespace SqlTree

/-! ## The shortest decimal is not zero -/

/-- A quotient is rounded down or up, and never the farther way. -/
theorem roundDiv_cases (tie : Tie) (num den : Nat) :
    roundDiv tie num den = num / den ∧ 2 * (num % den) ≤ den ∨
      roundDiv tie num den = num / den + 1 ∧ den ≤ 2 * (num % den) := by
  unfold roundDiv
  split
  · next h => exact .inl ⟨rfl, Nat.le_of_lt h⟩
  split
  · next h => exact .inr ⟨rfl, Nat.le_of_lt h⟩
  cases tie
  · rcases Nat.mod_two_eq_zero_or_one (num / den) with h | h
    · exact .inl ⟨by simp only [h, Nat.add_zero], by omega⟩
    · exact .inr ⟨by simp only [h], by omega⟩
  · exact .inr ⟨rfl, by omega⟩

namespace Double

theorem unitsPerOne_pos : 0 < unitsPerOne := by
  unfold unitsPerOne
  exact Nat.two_pow_pos 1074

/-- The smallest unit is far above the last decimal place. -/
theorem unitsPerOne_le : unitsPerOne ≤ 10 ^ decimalPlaces := by
  decide +kernel

/-- The digits in front of the last decimal place, counted from there. -/
theorem lt_decimalLength_iff {x : Double} {k : Nat} (hk : 0 < k) :
    k < x.decimalLength ↔ 10 ^ k * unitsPerOne ≤ x.units * 10 ^ decimalPlaces := by
  rw [← Nat.le_div_iff_mul_le unitsPerOne_pos, ← Decidable.not_iff_not, Nat.not_lt, Nat.not_le]
  exact Nat.length_toDigits_le_iff (by omega) hk

theorem gridStep_pos (x : Double) (n : Nat) : 0 < x.gridStep n :=
  Nat.mul_pos (Nat.mul_pos (by omega) (Nat.pow_pos (by omega))) unitsPerOne_pos

/-- The grid point below a double other than zero is not zero: so many digits reach its first. -/
theorem gridStep_le_centre {x : Double} (hx : 0 < x.units) {n : Nat} (hn : 0 < n) :
    0 < x.centre / x.gridStep n := by
  have hdigits : 10 ^ (x.decimalLength - n) * unitsPerOne ≤ x.units * 10 ^ decimalPlaces := by
    by_cases hlen : x.decimalLength - n = 0
    · rw [hlen, Nat.pow_zero, Nat.one_mul]
      exact Nat.le_trans unitsPerOne_le (Nat.le_mul_of_pos_left _ hx)
    · exact (lt_decimalLength_iff (by omega)).1 (by omega)
  refine Nat.div_pos ?_ (x.gridStep_pos n)
  calc x.gridStep n = 4 * (10 ^ (x.decimalLength - n) * unitsPerOne) := Nat.mul_assoc _ _ _
    _ ≤ 4 * (x.units * 10 ^ decimalPlaces) := Nat.mul_le_mul_left _ hdigits
    _ = x.centre := (Nat.mul_assoc _ _ _).symm

/-- Of the two neighbours one is taken that is allowed. -/
theorem neighbour?_cases {tie : Tie} {centre step point : Nat} {below above : Bool}
    (h : neighbour? tie centre step below above = some point) :
    below = true ∧ point = centre / step ∨ above = true ∧ point = centre / step + 1 := by
  have hround := (roundDiv_cases tie centre step).imp And.left And.left
  cases below <;> cases above <;>
    simp only [neighbour?, Option.some.injEq, reduceCtorEq] at h <;> subst h <;> simp [hround]

theorem onGrid?_pos {tie : Tie} {x : Double} (hx : 0 < x.units) {n point : Nat} (hn : 0 < n)
    (h : x.onGrid? tie n = some point) : 0 < point := by
  rcases neighbour?_cases h with ⟨-, rfl⟩ | ⟨-, rfl⟩
  · exact gridStep_le_centre hx hn
  · exact Nat.succ_pos _

theorem decimalOnGrid_coefficient_pos (x : Double) (n : Nat) {point : Nat} (h : 0 < point) :
    0 < (x.decimalOnGrid n point).coefficient := by
  unfold decimalOnGrid
  split
  · exact Nat.one_pos
  · exact h

/-- The shortest decimal is the plain zero or has a first digit other than zero. -/
theorem shortest_eq_zero_or_pos (tie : Tie) (x : Double) :
    x.shortest tie = ⟨0, 0⟩ ∨ 0 < (x.shortest tie).coefficient := by
  unfold shortest
  split
  · exact .inl rfl
  · next hx =>
    cases hfind : (List.range 17).findSome? fun i =>
        (x.onGrid? tie (i + 1)).map (x.decimalOnGrid (i + 1)) with
    | none => exact .inl rfl
    | some d =>
      obtain ⟨i, -, hi⟩ := List.exists_of_findSome?_eq_some hfind
      obtain ⟨point, hpoint, rfl⟩ := Option.map_eq_some_iff.1 hi
      exact .inr (decimalOnGrid_coefficient_pos x _
        (onGrid?_pos (Nat.pos_of_ne_zero hx) (Nat.succ_pos i) hpoint))

end Double

/-! ## The layouts of a decimal -/

namespace Decimal

open Json Json.Numeral

theorem isDigit_of_mem_replicate {k : Nat} {c : Char} (h : c ∈ List.replicate k '0') :
    c.isDigit = true := by
  rw [List.eq_of_mem_replicate h]
  rfl

/-- Behind whole digits or a fraction, an exponent with its sign. -/
theorem run_exponent {p : Place} (hp : p = .zero ∨ p = .whole ∨ p = .fraction) {sign : Char}
    (hsign : sign = '-' ∨ sign = '+') (n : Nat) :
    p.run ('e' :: sign :: Nat.toDigits 10 n) = some .exponent := by
  have hsign' : [sign] = [] ∨ [sign] = ['+'] ∨ [sign] = ['-'] := by
    rcases hsign with rfl | rfl <;> simp
  exact Place.run_mark hp (.inl rfl) hsign' Nat.toDigits_ne_nil fun _ hc => isDigit_of_mem hc

variable {d : Decimal}

theorem isDigit_of_mem_digits {c : Char} (h : c ∈ d.digits) : c.isDigit = true :=
  isDigit_of_mem h

theorem digits_ne_nil : d.digits ≠ [] := Nat.toDigits_ne_nil

theorem length_digits_le_iff {k : Nat} (hk : 0 < k) :
    d.digits.length ≤ k ↔ d.coefficient < 10 ^ k := Nat.length_toDigits_le_iff (by omega) hk

/-- The digits of a decimal other than zero, and any digits behind them. -/
theorem run_digits_append (hd : 0 < d.coefficient) {ds : List Char}
    (hds : ∀ c ∈ ds, c.isDigit = true) : Place.sign.run (d.digits ++ ds) = some .whole := by
  have hrun : Place.sign.run d.digits = some .whole := by
    rw [digits, run_sign_toDigits, Place.afterNat, if_neg (by omega)]
  rw [Place.run_append hrun, Place.run_digits (.inl rfl) hds]

/-- A beginning of the digits of a decimal other than zero. -/
theorem run_take_digits (hd : 0 < d.coefficient) {k : Nat} (hk : 0 < k) :
    Place.sign.run (d.digits.take k) = some .whole := by
  obtain ⟨c, rest, hc, hne⟩ := toDigits_eq_cons hd
  have hdigit : ∀ x ∈ c :: rest, x.isDigit = true := fun x hx => isDigit_of_mem (hc ▸ hx)
  obtain ⟨j, rfl⟩ : ∃ j, k = j + 1 := ⟨k - 1, by omega⟩
  rw [digits, hc, List.take_succ_cons, Place.run]
  simp only [Place.step, hne, hdigit c List.mem_cons_self, if_true, if_false]
  exact Place.run_digits (.inl rfl) fun x hx =>
    hdigit x (List.mem_cons_of_mem c (List.mem_of_mem_take hx))

theorem run_positional (hd : 0 < d.coefficient) (hexp : d.exponent < 0) :
    Place.sign.run d.positional = some .fraction := by
  have hall : ∀ c ∈ d.digits, c.isDigit = true := fun c hc => isDigit_of_mem_digits hc
  rw [positional, if_neg (by omega)]
  simp only
  split
  · next hplaces =>
    rw [Place.run_append (run_take_digits hd (by omega))]
    refine Place.run_point (.inr rfl) ?_ fun c hc => hall c (List.mem_of_mem_drop hc)
    rw [Ne, List.drop_eq_nil_iff]
    omega
  · refine Place.run_point (p := .zero) (.inl rfl) ?_ fun c hc => ?_
    · simp [digits_ne_nil]
    · rcases List.mem_append.1 hc with hc | hc
      · exact isDigit_of_mem_replicate hc
      · exact hall c hc

theorem run_scientific : Place.sign.run d.scientific = some .exponent := by
  have hsign : (if d.leading < 0 then '-' else '+') = '-' ∨
      (if d.leading < 0 then '-' else '+') = '+' := by
    split <;> simp
  have hplace : Place.sign.run d.digits = some (.afterNat d.coefficient) := run_sign_toDigits _
  unfold scientific
  simp only
  split
  · next hnil => exact absurd hnil digits_ne_nil
  · next c hc =>
    rw [← hc, Place.run_append hplace]
    refine run_exponent ?_ hsign _
    unfold Place.afterNat
    split <;> simp
  · next c rest hrest hc =>
    have hall : ∀ x ∈ c :: rest, x.isDigit = true := fun x hx => isDigit_of_mem_digits (hc ▸ hx)
    have hfirst : ∃ p, Place.sign.run [c] = some p ∧ (p = .zero ∨ p = .whole) := by
      by_cases h0 : c = '0'
      · exact ⟨.zero, by simp [Place.run, Place.step, h0], .inl rfl⟩
      · exact ⟨.whole, by simp [Place.run, Place.step, h0, hall c List.mem_cons_self], .inr rfl⟩
    obtain ⟨p, hp, hcase⟩ := hfirst
    have hpoint : Place.sign.run ([c] ++ '.' :: rest) = some .fraction := by
      rw [Place.run_append hp]
      exact Place.run_point hcase hrest fun x hx => hall x (List.mem_cons_of_mem c hx)
    rw [show c :: '.' :: rest = [c] ++ '.' :: rest from rfl, Place.run_append hpoint]
    exact run_exponent (by simp) hsign _

theorem isUnsigned_stored (hd : d = ⟨0, 0⟩ ∨ 0 < d.coefficient) : IsUnsigned d.stored := by
  rcases hd with rfl | hd
  · exact ⟨.fraction, by decide, rfl⟩
  unfold stored
  split
  · split
    · next hexp =>
      refine ⟨.fraction, ?_, rfl⟩
      rw [positional, if_pos hexp, Place.run_append (run_digits_append hd fun c hc =>
        isDigit_of_mem_replicate hc)]
      exact Place.run_point (.inr rfl) (by simp) (by simp)
    · next hexp => exact ⟨.fraction, run_positional hd (by omega), rfl⟩
  · exact ⟨.exponent, run_scientific, rfl⟩

end Decimal

namespace Double

open Json.Numeral

theorem isNumeral_signText_append (x : Double) {text : List Char} (h : IsUnsigned text) :
    IsNumeral (x.signText ++ text) := by
  unfold signText
  split
  · exact h.neg
  · exact h.isNumeral

theorem toList_stored {x : Double} (hx : x.isFinite = true) :
    x.stored.toList = x.signText ++ (x.shortest .even).stored := by
  rw [stored, if_pos hx, String.toList_ofList]

/-- The text of a finite double in a document is a number. -/
theorem isNumeral_stored {x : Double} (hx : x.isFinite = true) : IsNumeral x.stored.toList := by
  rw [toList_stored hx]
  exact x.isNumeral_signText_append (Decimal.isUnsigned_stored (x.shortest_eq_zero_or_pos .even))

end Double

end SqlTree
