import SqlTree.Proofs.Double.Denotes
import SqlTree.Proofs.Double.Fewest
import SqlTree.Proofs.Json.Grammar

/-!
# The SQL text of a double

In SQL a double is written in positional notation (`IsPositional`): without an exponent, without a
zero before another whole digit, and without a zero at the end of its places. Read digit by digit,
the text denotes the shortest decimal of the double (`Double.denotes_sql`), with its sign, so it
determines the double (`Double.isLiteral_sql`, `Double.IsLiteral.unique`). It is the text of an
integer just if the shortest decimal is that integer (`Double.sql_eq_toString_iff`).
-/

namespace SqlTree

open Json Json.Numeral

/-- Is a text a number in positional notation: whole digits that do not begin with a spare zero, and
perhaps places that do not end in one? -/
def IsPositional (t : List Char) : Prop :=
  ∃ whole fraction, IsWhole whole ∧ IsFraction fraction ∧ fraction.getLast? ≠ some '0'
    ∧ t = whole ++ fraction

theorem IsPositional.exists_digit {t : List Char} (h : IsPositional t) :
    ∃ d rest, t = d :: rest ∧ d.isDigit = true := by
  obtain ⟨whole, fraction, hwhole, -, -, rfl⟩ := h
  rcases hwhole with rfl | ⟨⟨hne, hdigits⟩, -⟩
  · exact ⟨'0', fraction, rfl, rfl⟩
  · obtain ⟨d, rest, rfl⟩ := List.exists_cons_of_ne_nil hne
    exact ⟨d, rest ++ fraction, rfl, hdigits d List.mem_cons_self⟩

namespace Decimal

variable {d : Decimal}

/-! ## The digits of a coefficient -/

theorem getLast?_digits (d : Decimal) :
    d.digits.getLast? = some (Nat.digitChar (d.coefficient % 10)) := by
  rcases Nat.lt_or_ge d.coefficient 10 with hlt | hge
  · rw [digits, Nat.toDigits_of_lt_base hlt, Nat.mod_eq_of_lt hlt]
    rfl
  · rw [digits, Nat.toDigits_of_base_le (by omega) hge, List.getLast?_concat]

theorem getLast?_digits_ne (h : d.coefficient % 10 ≠ 0) : d.digits.getLast? ≠ some '0' := by
  have hall : ∀ k < 10, k ≠ 0 → Nat.digitChar k ≠ '0' := by decide
  rw [getLast?_digits, Ne, Option.some.injEq]
  exact hall _ (Nat.mod_lt _ (by omega)) h

/-- The digits of a decimal other than zero are whole digits, whatever digits follow. -/
theorem isWhole_digits_append (h : 0 < d.coefficient) {ds : List Char}
    (hds : ∀ c ∈ ds, c.isDigit = true) : IsWhole (d.digits ++ ds) := by
  obtain ⟨c, rest, hc, hne⟩ := toDigits_eq_cons h
  have hdigits : d.digits = c :: rest := hc
  refine .inr ⟨⟨by simp [hdigits], fun x hx => ?_⟩, by simpa [hdigits] using hne⟩
  rcases List.mem_append.1 hx with hx | hx
  · exact isDigit_of_mem_digits hx
  · exact hds x hx

theorem isWhole_take_digits (h : 0 < d.coefficient) {k : Nat} (hk : 0 < k) :
    IsWhole (d.digits.take k) := by
  obtain ⟨c, rest, hc, hne⟩ := toDigits_eq_cons h
  obtain ⟨j, rfl⟩ : ∃ j, k = j + 1 := ⟨k - 1, by omega⟩
  have hdigits : d.digits = c :: rest := hc
  refine .inr ⟨⟨by simp [hdigits], fun x hx => ?_⟩, by simpa [hdigits] using hne⟩
  exact isDigit_of_mem_digits (List.mem_of_mem_take hx)

/-! ## Positional notation -/

theorem getLast?_point {ds : List Char} (hne : ds ≠ []) : ('.' :: ds).getLast? = ds.getLast? := by
  obtain ⟨c, rest, rfl⟩ := List.exists_cons_of_ne_nil hne
  exact List.getLast?_cons_cons

/-- A whole number is written as whole digits alone. -/
theorem isWhole_positional (h : d = ⟨0, 0⟩ ∨ 0 < d.coefficient) (hexp : 0 ≤ d.exponent) :
    IsWhole d.positional := by
  rcases h with rfl | hpos
  · exact .inl (by decide)
  · rw [positional, if_pos hexp]
    exact isWhole_digits_append hpos fun c hc => isDigit_of_mem_replicate hc

/-- Any other number has places, and they end as its digits do. -/
theorem exists_places (hpos : 0 < d.coefficient) (hexp : d.exponent < 0) :
    ∃ whole places, IsWhole whole ∧ IsDigits places ∧ places.getLast? = d.digits.getLast?
      ∧ d.positional = whole ++ '.' :: places := by
  have hdigits : ∀ c ∈ d.digits, c.isDigit = true := fun _ hc => isDigit_of_mem_digits hc
  rw [positional, if_neg (by omega)]
  simp only
  split
  · next hplaces =>
    -- the point stands between the digits
    have hne : d.digits.drop (d.digits.length - (-d.exponent).toNat) ≠ [] := by
      rw [Ne, List.drop_eq_nil_iff]
      omega
    refine ⟨_, _, isWhole_take_digits hpos (by omega),
      ⟨hne, fun c hc => hdigits c (List.mem_of_mem_drop hc)⟩, ?_, rfl⟩
    rw [List.getLast?_drop, if_neg (by omega)]
  · next hplaces =>
    -- zeros stand between the point and the digits
    refine ⟨['0'], _, .inl rfl, ⟨?_, fun c hc => ?_⟩, ?_, rfl⟩
    · simp [digits_ne_nil]
    · exact (List.mem_append.1 hc).elim isDigit_of_mem_replicate (hdigits c)
    · exact List.getLast?_append_of_ne_nil _ digits_ne_nil

/-- A decimal is written in positional notation without spare zeros, if it has none of its own. -/
theorem isPositional_positional (h : d = ⟨0, 0⟩ ∨ 0 < d.coefficient ∧ d.coefficient % 10 ≠ 0) :
    IsPositional d.positional := by
  rcases lt_or_ge d.exponent 0 with hneg | hnonneg
  · have hne : d ≠ ⟨0, 0⟩ := by
      rintro rfl
      exact absurd hneg (by decide)
    obtain ⟨hpos, hten⟩ := h.resolve_left hne
    obtain ⟨whole, places, hwhole, hplaces, hlast, heq⟩ := exists_places hpos hneg
    refine ⟨whole, '.' :: places, hwhole, .inr ⟨places, hplaces, rfl⟩, ?_, heq⟩
    rw [getLast?_point hplaces.1, hlast]
    exact getLast?_digits_ne hten
  · exact ⟨_, [], isWhole_positional (h.imp id And.left) hnonneg, .inl rfl, by simp,
      (List.append_nil _).symm⟩

/-! ## What the text denotes -/

variable (d)

/-- A whole number without a point. -/
theorem decimal_positional_of_nonneg (h : 0 ≤ d.exponent) :
    (ofText d.positional).decimal = ⟨d.coefficient * 10 ^ d.exponent.toNat, 0⟩ := by
  obtain ⟨hne, hall, hvalue⟩ := d.positional_of_nonneg h
  have htext := ofText_digits hne hall stops_nil
  rw [List.append_nil] at htext
  rw [htext, ← hvalue]
  simp [decimal, power, afterWhole, exponentOf]

/-- Positional notation denotes the decimal, wherever its point stands. -/
theorem value_positional : (ofText d.positional).decimal.value = d.value := by
  rcases lt_or_ge d.exponent 0 with hneg | hnonneg
  · rw [(d.decimal_positional hneg).1]
  · obtain ⟨k, hk⟩ := Int.eq_ofNat_of_zero_le hnonneg
    rw [d.decimal_positional_of_nonneg hnonneg]
    simp only [value, hk, Int.toNat_natCast, zpow_natCast, zpow_zero, mul_one]
    push_cast
    rfl

end Decimal

/-! ## The SQL text of a double -/

namespace Double

variable {x y : Double}

/-- The eleven bits below the sign. -/
def exponentBits (x : Double) : Nat := x.bits.toNat / 2 ^ 52 % 2 ^ 11

theorem shortest_eq_zero_or_mod_ten (tie : Tie) (x : Double) : x.shortest tie = ⟨0, 0⟩ ∨
    0 < (x.shortest tie).coefficient ∧ (x.shortest tie).coefficient % 10 ≠ 0 :=
  (x.shortest_eq_zero_or_pos tie).imp id fun hpos =>
    ⟨hpos, (x.isShortest_shortest tie).mod_ten_ne_zero hpos⟩

theorem isPositional_shortest (tie : Tie) (x : Double) : IsPositional (x.shortest tie).positional :=
  Decimal.isPositional_positional (x.shortest_eq_zero_or_mod_ten tie)

theorem toList_sql (hx : x.isFinite = true) :
    x.sql.toList = x.signText ++ (x.shortest .up).positional := by
  rw [sql, if_pos hx, String.toList_ofList]

/-- **The SQL text of a finite double denotes its shortest decimal**, with its sign. -/
theorem denotes_sql (hx : x.isFinite = true) :
    (ofText x.sql.toList).negative = x.negative ∧
      (ofText x.sql.toList).decimal.value = (x.shortest .up).value := by
  obtain ⟨d, rest, htext, hd⟩ := (x.isPositional_shortest .up).exists_digit
  have hvalue := (x.shortest .up).value_positional
  rw [htext] at hvalue
  rw [toList_sql hx, htext, ofText_signText x hd]
  exact ⟨rfl, hvalue⟩

/-- Is a text the literal of a double? It is a positional number with the sign of the double in
front; the double is the nearest to the magnitude that it denotes, and the even one of two; and no
decimal that rounds to the double is shorter. -/
structure IsLiteral (x : Double) (text : List Char) : Prop where
  form : ∃ number, text = (if x.negative then ['-'] else []) ++ number ∧ IsPositional number
  sign : (ofText text).negative = x.negative
  nearest : IsNearestRank ((ofText text).decimal.value * unitsPerOne) x.rank
  shortest : ∃ d, x.IsShortest d ∧ (ofText text).decimal.value = d.value

theorem isLiteral_sql (hx : x.isFinite = true) : x.IsLiteral x.sql.toList where
  form := ⟨_, toList_sql hx, x.isPositional_shortest .up⟩
  sign := (denotes_sql hx).1
  nearest := by
    rw [(denotes_sql hx).2]
    exact roundsTo_iff_nearest.1 (x.roundsTo_shortest .up)
  shortest := ⟨_, x.isShortest_shortest .up, (denotes_sql hx).2⟩

/-- The literal of a double determines it. -/
theorem IsLiteral.unique {text : List Char} (hx : x.IsLiteral text) (hy : y.IsLiteral text) :
    x = y :=
  eq_of_rank_eq (hx.sign.symm.trans hy.sign)
    ((roundsTo_iff_nearest.2 hx.nearest).unique (roundsTo_iff_nearest.2 hy.nearest))

/-- The finite doubles are those without the largest exponent. -/
theorem isFinite_eq_false_iff : x.isFinite = false ↔ x.exponentBits = 2 ^ 11 - 1 := by
  have hbits := x.bits.toNat_lt
  rw [isFinite, decide_eq_false_iff_not, rank, infiniteRank, exponentBits]
  omega

end Double

/-! ## Doubles that are written as integers -/

namespace Json.Numeral

/-- The text of an integer denotes it. -/
theorem denotes_toString (n : ℤ) : (ofText (toString n).toList).negative = decide (n < 0) ∧
    (ofText (toString n).toList).decimal.value = n.natAbs := by
  cases n with
  | ofNat n =>
    rw [Int.ofNat_eq_natCast, toList_toString_natCast, ofText_toDigits]
    simp [decimal, power, Decimal.value, ofDigits_digits_toDigits]
  | negSucc n =>
    rw [toList_toString_negSucc, ofText_minus_toDigits]
    simp [decimal, power, Decimal.value, ofDigits_digits_toDigits, Int.negSucc_lt_zero]

end Json.Numeral

namespace Decimal

variable {d : Decimal}

theorem toDigits_mul_ten_pow {c : Nat} (hc : 0 < c) (k : Nat) :
    Nat.toDigits 10 (c * 10 ^ k) = Nat.toDigits 10 c ++ List.replicate k '0' := by
  induction k with
  | zero => simp
  | succ k ih =>
    have hpos : 0 < c * 10 ^ k := Nat.mul_pos hc (Nat.pow_pos (by omega))
    have hten : c * 10 ^ (k + 1) = c * 10 ^ k * 10 := by rw [Nat.pow_succ, Nat.mul_assoc]
    rw [hten, Nat.toDigits_of_base_le (by omega) (by omega), Nat.mul_div_cancel _ (by omega), ih,
      Nat.mul_mod_left, List.replicate_succ', List.append_assoc]
    rfl

/-- A decimal without a spare zero is written as an integer if it is one. -/
theorem positional_eq_toDigits (h : d = ⟨0, 0⟩ ∨ 0 < d.coefficient ∧ d.coefficient % 10 ≠ 0)
    {n : Nat} (hvalue : d.value = n) : d.positional = Nat.toDigits 10 n := by
  rcases h with rfl | ⟨hpos, hten⟩
  · have hzero : n = 0 := by simpa [value, eq_comm] using hvalue
    rw [hzero]
    decide
  rcases lt_or_ge d.exponent 0 with hneg | hnonneg
  · obtain ⟨k, hk⟩ : ∃ k : Nat, d.exponent = -((k + 1 : ℕ) : ℤ) :=
      ⟨(-d.exponent).toNat - 1, by omega⟩
    have hcoefficient : d.coefficient = n * 10 ^ (k + 1) := by
      rw [value, hk, zpow_neg, zpow_natCast, ← div_eq_mul_inv, div_eq_iff (by positivity)] at hvalue
      exact_mod_cast hvalue
    rw [hcoefficient, Nat.pow_succ, ← Nat.mul_assoc, Nat.mul_mod_left] at hten
    exact absurd rfl hten
  · obtain ⟨k, hk⟩ := Int.eq_ofNat_of_zero_le hnonneg
    have hn : d.coefficient * 10 ^ k = n := by
      rw [value, hk, zpow_natCast] at hvalue
      exact_mod_cast hvalue
    rw [positional, if_pos hnonneg, hk, ← hn, toDigits_mul_ten_pow hpos, digits]
    rfl

end Decimal

namespace Double

variable {x : Double}

/-- The text of a double is that of an integer just if its shortest decimal is the integer, with the
same sign. -/
theorem sql_eq_toString_iff (hx : x.isFinite = true) (n : ℤ) : x.sql = toString n ↔
    x.negative = decide (n < 0) ∧ (x.shortest .up).value = n.natAbs := by
  constructor
  · intro h
    obtain ⟨hsign, hvalue⟩ := denotes_sql hx
    obtain ⟨hsign', hvalue'⟩ := denotes_toString n
    rw [h] at hsign hvalue
    exact ⟨hsign.symm.trans hsign', hvalue.symm.trans hvalue'⟩
  · rintro ⟨hsign, hvalue⟩
    have hdigits : (x.shortest .up).positional = Nat.toDigits 10 n.natAbs :=
      Decimal.positional_eq_toDigits (x.shortest_eq_zero_or_mod_ten .up) hvalue
    rw [← String.toList_inj, toList_sql hx, hdigits, signText, hsign]
    cases n with
    | ofNat n =>
      rw [Int.ofNat_eq_natCast, toList_toString_natCast, decide_eq_false (by omega)]
      rfl
    | negSucc n =>
      rw [toList_toString_negSucc, decide_eq_true (Int.negSucc_lt_zero n)]
      rfl

end Double

end SqlTree
