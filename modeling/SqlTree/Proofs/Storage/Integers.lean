import SqlTree.Proofs.Storage.Finite
import SqlTree.Proofs.Storage.Numbers

/-!
# Integers in stored trees

`IsInteger n t` says that the text `t` writes the integer `n`: digits without a leading zero, with or
without a minus. Each integer has one such text, the one that SQL shows, save zero, which has `-0`
besides (`IsInteger.cases`). A stored long is read just if its text is not that one and 64 bits with
a sign hold its value; then it has that value (`Kind.read_long_eq_ok_iff`). So no integer is ever
wrapped, cut or rounded on its way from a text into a tree and on to SQL (`Constant.read_long`).
-/

namespace SqlTree

open Json

/-! ## Texts of integers -/

namespace Json

/-- A text writes an integer. -/
def IsInteger (n : Int) (t : List Char) : Prop :=
  ∃ whole, IsWhole whole ∧
    (t = whole ∧ n = Nat.ofDigitChars 10 whole 0
      ∨ t = '-' :: whole ∧ n = -(Nat.ofDigitChars 10 whole 0 : Int))

theorem digitChar_toNat_sub {c : Char} (h : c.isDigit = true) :
    c.toNat - '0'.toNat < 10 ∧ Nat.digitChar (c.toNat - '0'.toNat) = c := by
  simp only [Char.isDigit, Bool.and_eq_true, decide_eq_true_eq] at h
  have hlow : 48 ≤ c.toNat := h.1
  have hhigh : c.toNat ≤ 57 := h.2
  have hzero : '0'.toNat = 48 := rfl
  refine ⟨by omega, Char.toNat_inj.1 ?_⟩
  rw [Nat.toNat_digitChar_of_lt_ten (by omega)]
  omega

theorem toDigits_ofDigitChars_cons {d : Char} (hd : d.isDigit = true) (hzero : d ≠ '0')
    {ds : List Char} (hds : ∀ c ∈ ds, c.isDigit = true) :
    0 < Nat.ofDigitChars 10 (d :: ds) 0 ∧
      Nat.toDigits 10 (Nat.ofDigitChars 10 (d :: ds) 0) = d :: ds := by
  induction ds using List.reverseRecOn with
  | nil =>
    obtain ⟨hlt, hchar⟩ := digitChar_toNat_sub hd
    rw [Nat.ofDigitChars_cons, Nat.ofDigitChars_nil, Nat.mul_zero, Nat.zero_add]
    refine ⟨Nat.pos_of_ne_zero fun h => hzero ?_, by rw [Nat.toDigits_of_lt_base hlt, hchar]⟩
    rw [← hchar, h]
    rfl
  | append_singleton ds c ih =>
    obtain ⟨hpos, hdigits⟩ := ih fun x hx => hds x (List.mem_append_left _ hx)
    obtain ⟨hlt, hchar⟩ := digitChar_toNat_sub (hds c (by simp))
    rw [← List.cons_append, Nat.ofDigitChars_append, Nat.ofDigitChars_cons, Nat.ofDigitChars_nil]
    refine ⟨by omega, ?_⟩
    rw [← Nat.toDigits_append_toDigits (by omega) hpos hlt, hdigits, Nat.toDigits_of_lt_base hlt,
      hchar]

theorem IsWhole.exists_digit {t : List Char} (h : IsWhole t) :
    ∃ d ds, t = d :: ds ∧ ∀ c ∈ d :: ds, c.isDigit = true := by
  rcases h with rfl | ⟨⟨hne, hdigits⟩, -⟩
  · exact ⟨'0', [], rfl, by simp⟩
  · obtain ⟨d, ds, rfl⟩ := List.exists_cons_of_ne_nil hne
    exact ⟨d, ds, rfl, hdigits⟩

/-- Digits without a spare zero are the digits of the number that they write. -/
theorem IsWhole.toDigits_ofDigitChars {t : List Char} (h : IsWhole t) :
    Nat.toDigits 10 (Nat.ofDigitChars 10 t 0) = t := by
  rcases h with rfl | ⟨⟨hne, hdigits⟩, hzero⟩
  · rfl
  · obtain ⟨d, ds, rfl⟩ := List.exists_cons_of_ne_nil hne
    obtain ⟨hd, hds⟩ := List.forall_mem_cons.1 hdigits
    exact (toDigits_ofDigitChars_cons hd (by simpa using hzero) hds).2

namespace IsInteger

variable {n : Int} {t : List Char}

theorem isNumber (h : IsInteger n t) : IsNumber t := by
  obtain ⟨whole, hwhole, ⟨rfl, -⟩ | ⟨rfl, -⟩⟩ := h
  · exact ⟨[], t, [], [], .inl rfl, hwhole, .inl rfl, .inl rfl, by simp⟩
  · exact ⟨['-'], whole, [], [], .inr rfl, hwhole, .inl rfl, .inl rfl, by simp⟩

theorem isDigit_of_mem (h : IsInteger n t) : ∀ c ∈ t, c = '-' ∨ c.isDigit = true := by
  intro c hc
  obtain ⟨whole, hwhole, hcases⟩ := h
  obtain ⟨d, ds, rfl, hdigits⟩ := hwhole.exists_digit
  rcases hcases with ⟨rfl, -⟩ | ⟨rfl, -⟩
  · exact .inr (hdigits c hc)
  · exact (List.mem_cons.1 hc).imp_right (hdigits c)

/-- An integer has one text; zero has another with a minus. -/
theorem cases (h : IsInteger n t) : t = (toString n).toList ∨ n = 0 ∧ t = ['-', '0'] := by
  obtain ⟨whole, hwhole, ⟨rfl, rfl⟩ | ⟨rfl, rfl⟩⟩ := h
  · rw [Numeral.toList_toString_natCast, hwhole.toDigits_ofDigitChars]
    exact .inl rfl
  · have hdigits := hwhole.toDigits_ofDigitChars
    generalize Nat.ofDigitChars 10 whole 0 = m at hdigits
    subst hdigits
    cases m with
    | zero => exact .inr ⟨rfl, rfl⟩
    | succ m =>
      rw [Int.natCast_succ, ← Int.negSucc_eq, Numeral.toList_toString_negSucc]
      exact .inl rfl

theorem eq_toString (h : IsInteger n t) (hminus : t ≠ ['-', '0']) : t = (toString n).toList :=
  h.cases.resolve_right fun hzero => hminus hzero.2

end IsInteger

end Json

/-! ## The integer that is read -/

namespace Json.Numeral

/-- The text of an integer denotes it, if 64 bits hold it with or without a sign. -/
theorem integer?_ofText_toString_eq_some_iff {n m : Int} :
    (ofText (toString n).toList).integer? = some m ↔ m = n ∧ -2 ^ 63 ≤ n ∧ n < 2 ^ 64 := by
  constructor
  · intro h
    cases n with
    | ofNat n =>
      rw [Int.ofNat_eq_natCast, toList_toString_natCast, ofText_toDigits] at h
      simp only [integer?, ofDigits_digits_toDigits] at h
      rw [if_neg Bool.false_ne_true] at h
      split at h
      · next hlt =>
        cases h
        rw [Int.ofNat_eq_natCast]
        exact ⟨rfl, by omega, by omega⟩
      · cases h
    | negSucc n =>
      rw [toList_toString_negSucc, ofText_minus_toDigits] at h
      simp only [integer?, ofDigits_digits_toDigits] at h
      rw [if_pos trivial] at h
      split at h
      · next hle =>
        cases h
        rw [Int.negSucc_eq]
        exact ⟨rfl, by omega, by omega⟩
      · cases h
  · rintro ⟨rfl, hmin, hmax⟩
    exact integer?_ofText_toString hmin hmax

theorem exponentOf_cons_ne (mark : Char) (rest : List Char) : exponentOf (mark :: rest) ≠ none := by
  unfold exponentOf
  split <;> simp_all

/-- What follows the whole digits of a number, if anything, makes it no integer. -/
theorem afterWhole_ne {fraction exponent : List Char} (hfraction : IsFraction fraction)
    (hexponent : IsExponent exponent) (hne : fraction ++ exponent ≠ []) :
    (afterWhole (fraction ++ exponent)).1 ≠ [] ∨ (afterWhole (fraction ++ exponent)).2 ≠ none := by
  rcases hfraction with rfl | ⟨ds, ⟨hds, hdigits⟩, rfl⟩
  · rcases hexponent with rfl | ⟨mark, sign, ds, hmark, -, -, rfl⟩
    · exact absurd rfl hne
    · right
      have hafter : (afterWhole (mark :: (sign ++ ds))).2 = exponentOf (mark :: (sign ++ ds)) := by
        rcases hmark with rfl | rfl <;> simp [afterWhole]
      rw [List.nil_append, hafter]
      exact exponentOf_cons_ne mark _
  · left
    obtain ⟨d, ds, rfl⟩ := List.exists_cons_of_ne_nil hds
    simp [afterWhole, digits, hdigits d List.mem_cons_self]

theorem ofText_isNumber {sign whole fraction exponent : List Char} (hsign : sign = [] ∨ sign = ['-'])
    (hwhole : IsWhole whole) (hfraction : IsFraction fraction) (hexponent : IsExponent exponent) :
    (ofText (sign ++ (whole ++ (fraction ++ exponent)))).fraction
        = (afterWhole (fraction ++ exponent)).1 ∧
      (ofText (sign ++ (whole ++ (fraction ++ exponent)))).exponent
        = (afterWhole (fraction ++ exponent)).2 := by
  obtain ⟨d, ds, rfl, hdigits⟩ := hwhole.exists_digit
  have hstops : Stops (fraction ++ exponent) := by
    rcases hfraction with rfl | ⟨es, -, rfl⟩
    · rcases hexponent with rfl | ⟨mark, sign, es, rfl | rfl, -, -, rfl⟩
      · exact stops_nil
      · exact stops_cons (by decide) _
      · exact stops_cons (by decide) _
    · exact stops_cons (by decide) _
  have hparts := ofText_digits (List.cons_ne_nil d ds) hdigits hstops
  rcases hsign with rfl | rfl
  · rw [List.nil_append, hparts]
    exact ⟨rfl, rfl⟩
  · rw [List.singleton_append, List.cons_append, ofText_minus (hdigits d List.mem_cons_self),
      ← List.cons_append, hparts]
    exact ⟨rfl, rfl⟩

/-- The integer that a number denotes is the one that it writes. -/
theorem isInteger_of_integer? {t : List Char} {n : Int} (ht : IsNumber t)
    (h : (ofText t).integer? = some n) : IsInteger n t ∧ t ≠ ['-', '0'] := by
  obtain ⟨sign, whole, fraction, exponent, hsign, hwhole, hfraction, hexponent, rfl⟩ := ht
  obtain ⟨hfirst, hsecond⟩ := ofText_isNumber hsign hwhole hfraction hexponent
  have hnothing : fraction ++ exponent = [] := by
    by_contra hne
    have hparts := afterWhole_ne hfraction hexponent hne
    rw [← hfirst, ← hsecond] at hparts
    rw [integer?_of_not_whole hparts] at h
    cases h
  rw [hnothing, List.append_nil] at h ⊢
  have hminus : sign ++ whole ≠ ['-', '0'] := by
    intro hzero
    have hnone : (ofText ['-', '0']).integer? = none := by decide
    rw [hzero, hnone] at h
    cases h
  have hinteger : ∃ k, IsInteger k (sign ++ whole) := by
    rcases hsign with rfl | rfl
    · exact ⟨_, whole, hwhole, .inl ⟨rfl, rfl⟩⟩
    · exact ⟨_, whole, hwhole, .inr ⟨rfl, rfl⟩⟩
  obtain ⟨k, hk⟩ := hinteger
  rw [hk.eq_toString hminus] at h
  obtain ⟨rfl, -, -⟩ := integer?_ofText_toString_eq_some_iff.1 h
  exact ⟨hk, hminus⟩

end Json.Numeral

/-! ## Stored longs -/

/-- A number is read as a long if it is an integer that 64 bits with a sign hold. -/
theorem Layout.token_long_eq_ok_iff {t : List Char} {m : Int64} :
    Layout.long.token (.number t) = .ok m ↔ (Numeral.ofText t).integer? = some m.toInt := by
  cases hinteger : (Numeral.ofText t).integer? with
  | none =>
    have htoken : Layout.long.token (.number t) = .error (Token.refusal .long (.number t)) := by
      simp only [Layout.long, Layout.scalar, hinteger]
    simp [htoken]
  | some n =>
    have htoken : Layout.long.token (.number t)
        = if Int64.minValue.toInt ≤ n ∧ n ≤ Int64.maxValue.toInt then .ok (Int64.ofInt n)
          else .error (.wrongInteger n) := by
      simp only [Layout.long, Layout.scalar, hinteger]
    have hmin : Int64.minValue.toInt = -2 ^ 63 := by decide
    have hmax : Int64.maxValue.toInt = 2 ^ 63 - 1 := by decide
    simp only [htoken, Option.some.injEq, hmin, hmax]
    split
    · next hrange =>
      rw [Except.ok.injEq]
      constructor
      · rintro rfl
        exact (Int64.toInt_ofInt_of_le hrange.1 (by omega)).symm
      · rintro rfl
        exact Int64.ofInt_toInt m
    · next hrange =>
      constructor
      · intro h
        cases h
      · rintro rfl
        exact absurd ⟨m.le_toInt, Int.le_sub_one_of_lt m.toInt_lt⟩ hrange

/-- A text is read as a long just if it writes an integer of 64 bits, other than `-0`. -/
theorem Kind.read_long_eq_ok_iff {t : List Char} (ht : IsNumber t) {c : Constant} :
    Kind.constant.read (numberText "Long" t) = .ok c
      ↔ ∃ m : Int64, c = .long m ∧ IsInteger m.toInt t ∧ t ≠ ['-', '0'] := by
  have hread : Kind.constant.read (numberText "Long" t)
      = (Layout.long.token (.number t)).map Constant.long :=
    @Kind.read_variant_numberText "Long" .long _ rfl _ ht
  simp only [hread, map_eq_ok, Layout.token_long_eq_ok_iff]
  constructor
  · rintro ⟨m, hm, rfl⟩
    exact ⟨m, rfl, Numeral.isInteger_of_integer? ht hm⟩
  · rintro ⟨m, rfl, hm, hminus⟩
    have hle := m.le_toInt
    have hlt := m.toInt_lt
    refine ⟨m, ?_, rfl⟩
    rw [hm.eq_toString hminus]
    exact Numeral.integer?_ofText_toString_eq_some_iff.2 ⟨rfl, by omega, by omega⟩

namespace Constant

theorem exists_error_of_forall_ne_ok {ε α : Type} {x : Except ε α} (h : ∀ a, x ≠ .ok a) :
    ∃ fault, x = .error fault := by
  cases x with
  | error fault => exact ⟨fault, rfl⟩
  | ok a => exact absurd rfl (h a)

/-- **A long is read exactly or not at all.** The text of an integer is read as the long with its
value just if 64 bits with a sign hold the value and the text is not `-0`. Any other integer is
refused, and so is any number with a fraction or an exponent, even a whole one. What is read is
shown in SQL as it was written. -/
theorem read_long :
    (∀ n t, IsInteger n t →
      ((∃ m : Int64, m.toInt = n ∧ Kind.constant.read (numberText "Long" t) = .ok (.long m))
          ↔ -2 ^ 63 ≤ n ∧ n ≤ 2 ^ 63 - 1 ∧ t ≠ ['-', '0'])
      ∧ (¬ (-2 ^ 63 ≤ n ∧ n ≤ 2 ^ 63 - 1 ∧ t ≠ ['-', '0']) →
          ∃ fault, Kind.constant.read (numberText "Long" t) = .error fault))
    ∧ (∀ t, IsNumber t → '.' ∈ t ∨ 'e' ∈ t ∨ 'E' ∈ t →
        ∃ fault, Kind.constant.read (numberText "Long" t) = .error fault)
    ∧ ∀ t c, IsNumber t → Kind.constant.read (numberText "Long" t) = .ok c →
        (toSql c).value = String.ofList t := by
  refine ⟨fun n t hn => ⟨⟨?range, ?reads⟩, fun hout => ?refused⟩, fun t ht hmark => ?marked,
    fun t c ht hread => ?shown⟩
  case range =>
    rintro ⟨m, rfl, hread⟩
    obtain ⟨m', hm', -, hminus⟩ := (Kind.read_long_eq_ok_iff hn.isNumber).1 hread
    exact ⟨m.le_toInt, Int.le_sub_one_of_lt m.toInt_lt, hminus⟩
  case reads =>
    rintro ⟨hmin, hmax, hminus⟩
    have hvalue : (Int64.ofInt n).toInt = n := Int64.toInt_ofInt_of_le hmin (by omega)
    exact ⟨.ofInt n, hvalue,
      (Kind.read_long_eq_ok_iff hn.isNumber).2 ⟨_, rfl, hvalue.symm ▸ hn, hminus⟩⟩
  case refused =>
    refine exists_error_of_forall_ne_ok fun c hread => hout ?_
    obtain ⟨m, -, hm, hminus⟩ := (Kind.read_long_eq_ok_iff hn.isNumber).1 hread
    obtain rfl : n = m.toInt := Document.toString_injective (String.toList_inj.1
      ((hn.eq_toString hminus).symm.trans (hm.eq_toString hminus)))
    exact ⟨m.le_toInt, Int.le_sub_one_of_lt m.toInt_lt, hminus⟩
  case marked =>
    refine exists_error_of_forall_ne_ok fun c hread => ?_
    obtain ⟨m, -, hm, -⟩ := (Kind.read_long_eq_ok_iff ht).1 hread
    have hdigit : ∀ c ∈ t, c = '-' ∨ c.isDigit = true := hm.isDigit_of_mem
    rcases hmark with h | h | h <;> exact absurd (hdigit _ h) (by decide)
  case shown =>
    obtain ⟨m, rfl, hm, hminus⟩ := (Kind.read_long_eq_ok_iff ht).1 hread
    rw [value_toSql, hm.eq_toString hminus, String.ofList_toList]
    rfl

/-- The least long is read and shown, the number above the greatest one is refused, and so is a
whole number with a point. -/
theorem read_long_limits :
    (IsInteger (-2 ^ 63) "-9223372036854775808".toList ∧
      (∃ m : Int64, m.toInt = -2 ^ 63 ∧
        Kind.constant.read (numberText "Long" "-9223372036854775808".toList) = .ok (.long m) ∧
        (toSql (Constant.long m)).value = "-9223372036854775808"))
    ∧ (IsInteger (2 ^ 63) "9223372036854775808".toList ∧
      ∃ fault, Kind.constant.read (numberText "Long" "9223372036854775808".toList) = .error fault)
    ∧ (IsNumber ['1', '.', '0'] ∧
      ∃ fault, Kind.constant.read (numberText "Long" ['1', '.', '0']) = .error fault) := by
  have hdigits : "9223372036854775808".toList = Nat.toDigits 10 (2 ^ 63) := by decide +kernel
  have hwhole : IsWhole "9223372036854775808".toList := hdigits ▸ Decimal.isWhole_toDigits _
  have hleast : IsInteger (-2 ^ 63) "-9223372036854775808".toList :=
    ⟨_, hwhole, .inr ⟨by decide, by decide +kernel⟩⟩
  have habove : IsInteger (2 ^ 63) "9223372036854775808".toList :=
    ⟨_, hwhole, .inl ⟨rfl, by decide +kernel⟩⟩
  have hpoint : IsNumber ['1', '.', '0'] :=
    ⟨[], ['1'], ['.', '0'], [], .inl rfl, Decimal.isWhole_toDigits 1,
      .inr ⟨['0'], ⟨by decide, by simp⟩, rfl⟩, .inl rfl, rfl⟩
  obtain ⟨hintegers, hmarked, hshown⟩ := read_long
  obtain ⟨m, hm, hread⟩ := (hintegers _ _ hleast).1.2 ⟨by decide, by decide, by decide⟩
  exact ⟨⟨hleast, m, hm, hread, hshown _ _ hleast.isNumber hread⟩,
    ⟨habove, (hintegers _ _ habove).2 (by decide)⟩,
    ⟨hpoint, hmarked _ hpoint (.inl (by decide))⟩⟩

end Constant

end SqlTree
