import SqlTree.Proofs.Double.Reading

/-!
# The beginning of a number

A text that begins like a number may be a number itself, of another value: `12` begins like `123`,
and `1.5e+30` like `1.5e+308`. Whatever text a finite double or an integer is stored as, every
number that it begins with can be read (`Double.exists_value_of_prefix`,
`Numeral.exists_integer_of_prefix`). Neither is obvious, since a number can be out of range.

Of a longer text the parts can only grow, from the left to the right: an exponent that has a digit
stands behind all digits of the number (`Numeral.ofText_append`). So the beginning of a stored
double has fewer digits, and an exponent of one digit less.
-/

namespace SqlTree

namespace Json.Numeral

/-! ## Parts of a longer text -/

theorem digits_append_cases (t u : List Char) :
    afterDigits t = [] ∧ digits (t ++ u) = digits t ++ digits u ∨
      afterDigits t ≠ [] ∧ digits (t ++ u) = digits t
        ∧ afterDigits (t ++ u) = afterDigits t ++ u := by
  by_cases h : afterDigits t = []
  · have hall : ∀ c ∈ t, c.isDigit = true := List.dropWhile_eq_nil_iff.1 h
    refine .inl ⟨h, ?_⟩
    unfold digits
    rw [List.takeWhile_append_of_pos hall, List.takeWhile_eq_self_iff.2 hall, List.map_append]
  · have hstops : (t.takeWhile Char.isDigit).length ≠ t.length := by
      intro hlength
      have hsplit : t.takeWhile Char.isDigit ++ afterDigits t = t :=
        List.takeWhile_append_dropWhile
      have hsum := congrArg List.length hsplit
      rw [List.length_append, hlength] at hsum
      exact h (List.eq_nil_of_length_eq_zero (by omega))
    refine .inr ⟨h, ?_, ?_⟩
    · rw [digits, List.takeWhile_append, if_neg hstops, digits]
    · unfold afterDigits at h ⊢
      rw [List.dropWhile_append, if_neg (by simpa using h)]

theorem digits_isPrefix (t u : List Char) : digits t <+: digits (t ++ u) := by
  rcases digits_append_cases t u with ⟨-, h⟩ | ⟨-, h, -⟩
  · rw [h]
    exact List.prefix_append _ _
  · rw [h]

theorem exponentOf_append (t u : List Char) :
    exponentOf t = none ∨ (∃ b, exponentOf t = some (b, [])) ∨
      ∃ b ds ds', exponentOf t = some (b, ds) ∧ exponentOf (t ++ u) = some (b, ds ++ ds') := by
  match t with
  | [] => exact .inl rfl
  | [c] => exact .inr (.inl ⟨false, rfl⟩)
  | c :: sign :: rest =>
    refine .inr (.inr ?_)
    by_cases hminus : sign = '-'
    · subst hminus
      obtain ⟨ds', hds'⟩ := digits_isPrefix rest u
      exact ⟨true, digits rest, ds', rfl, by rw [hds']; rfl⟩
    by_cases hplus : sign = '+'
    · subst hplus
      obtain ⟨ds', hds'⟩ := digits_isPrefix rest u
      exact ⟨false, digits rest, ds', rfl, by rw [hds']; rfl⟩
    · obtain ⟨ds', hds'⟩ := digits_isPrefix (sign :: rest) u
      have hplain (rest : List Char) :
          exponentOf (c :: sign :: rest) = some (false, digits (sign :: rest)) := by
        simp [exponentOf, hminus, hplus]
      exact ⟨false, digits (sign :: rest), ds', hplain rest, by rw [hds']; exact hplain _⟩

theorem afterWhole_append (t u : List Char) :
    (afterWhole t).1 <+: (afterWhole (t ++ u)).1 ∧
      ((afterWhole t).2 = none ∨ (∃ b, (afterWhole t).2 = some (b, [])) ∨
        ∃ b ds ds', (afterWhole t).2 = some (b, ds)
          ∧ afterWhole (t ++ u) = ((afterWhole t).1, some (b, ds ++ ds'))) := by
  by_cases hpoint : t.head? = some '.'
  · obtain ⟨rest, rfl⟩ : ∃ rest, t = '.' :: rest := List.head?_eq_some_iff.1 hpoint
    have hafter (rest : List Char) :
        afterWhole ('.' :: rest) = (digits rest, exponentOf (afterDigits rest)) := rfl
    rw [List.cons_append, hafter, hafter]
    refine ⟨digits_isPrefix rest u, ?_⟩
    rcases digits_append_cases rest u with ⟨hend, -⟩ | ⟨-, hdigits, hafterDigits⟩
    · exact .inl (by rw [hend]; rfl)
    · rcases exponentOf_append (afterDigits rest) u with hnone | hempty | ⟨b, ds, ds', hds, hlonger⟩
      · exact .inl hnone
      · exact .inr (.inl hempty)
      · exact .inr (.inr ⟨b, ds, ds', hds, by rw [hdigits, hafterDigits, hlonger]⟩)
  · by_cases hnil : t = []
    · subst hnil
      exact ⟨List.nil_prefix, .inl rfl⟩
    · have hafter (v : List Char) : afterWhole (t ++ v) = ([], exponentOf (t ++ v)) := by
        obtain ⟨c, rest, rfl⟩ := List.exists_cons_of_ne_nil hnil
        have hc : c ≠ '.' := by simpa using hpoint
        simp [afterWhole, hc]
      have hself := hafter []
      rw [List.append_nil] at hself
      rw [hself, hafter u]
      refine ⟨List.nil_prefix, ?_⟩
      rcases exponentOf_append t u with hnone | hempty | ⟨b, ds, ds', hds, hlonger⟩
      · exact .inl hnone
      · exact .inr (.inl hempty)
      · exact .inr (.inr ⟨b, ds, ds', hds, by rw [hlonger]⟩)

/-- The parts of a longer text: it has more digits, and if there is an exponent with a digit, only
the exponent is longer. -/
theorem ofText_append (t u : List Char) :
    (ofText t).whole ++ (ofText t).fraction
        <+: (ofText (t ++ u)).whole ++ (ofText (t ++ u)).fraction ∧
      ((ofText t).exponent = none ∨ (∃ b, (ofText t).exponent = some (b, [])) ∨
        ∃ b ds ds', (ofText t).exponent = some (b, ds)
          ∧ ofText (t ++ u) = { ofText t with exponent := some (b, ds ++ ds') }) := by
  by_cases hnil : t = []
  · subst hnil
    exact ⟨List.nil_prefix, .inl rfl⟩
  have hhead : (t ++ u).head? = t.head? := List.head?_append_of_ne_nil t hnil
  have hunsigned : unsigned (t ++ u) = unsigned t ++ u := by
    obtain ⟨c, rest, rfl⟩ := List.exists_cons_of_ne_nil hnil
    by_cases hminus : c = '-'
    · subst hminus
      rfl
    · simp [unsigned, hminus]
  rcases digits_append_cases (unsigned t) u with ⟨hend, hdigits⟩ | ⟨-, hdigits, hafterDigits⟩
  · have hfraction : (ofText t).fraction = [] := by simp [ofText, hend, afterWhole]
    have hexponent : (ofText t).exponent = none := by simp [ofText, hend, afterWhole, exponentOf]
    have hwhole : (ofText (t ++ u)).whole = (ofText t).whole ++ digits u := by
      simp [ofText, hunsigned, hdigits]
    rw [hfraction, hwhole, List.append_nil, List.append_assoc]
    exact ⟨List.prefix_append _ _, .inl hexponent⟩
  · obtain ⟨hfraction, hexponent⟩ := afterWhole_append (afterDigits (unsigned t)) u
    have hlonger : ofText (t ++ u) = ⟨t.head? == some '-', digits (unsigned t),
        (afterWhole (afterDigits (unsigned t) ++ u)).1,
        (afterWhole (afterDigits (unsigned t) ++ u)).2⟩ := by
      simp [ofText, hhead, hunsigned, hdigits, hafterDigits]
    rw [hlonger]
    refine ⟨(List.prefix_append_right_inj _).2 hfraction, ?_⟩
    rcases hexponent with hnone | hempty | ⟨b, ds, ds', hds, heq⟩
    · exact .inl hnone
    · exact .inr (.inl hempty)
    · exact .inr (.inr ⟨b, ds, ds', hds, by rw [heq]; rfl⟩)

theorem ofDigits_le_of_prefix {ds es : List Nat} (h : ds <+: es) : ofDigits ds ≤ ofDigits es := by
  obtain ⟨fs, rfl⟩ := h
  rw [ofDigits_append]
  have hpow : 0 < 10 ^ fs.length := Nat.pow_pos (by omega)
  exact (Nat.le_mul_of_pos_right _ hpow).trans (Nat.le_add_right _ _)

/-! ## Integers -/

/-- The beginning of the digits of a number is the digits of a number. -/
theorem exists_toDigits_of_prefix {t : List Char} (hne : t ≠ []) {n : Nat}
    (h : t <+: Nat.toDigits 10 n) :
    ∃ m, t = Nat.toDigits 10 m ∧ m ≤ n ∧ (0 < n → 0 < m) := by
  induction n using Nat.strongRecOn with
  | _ n ih =>
    by_cases hlt : n < 10
    · rw [Nat.toDigits_of_lt_base hlt] at h
      have ht : t = [Nat.digitChar n] := by
        rcases List.prefix_concat_iff.1 (show t <+: [] ++ [Nat.digitChar n] from h) with ht | ht
        · exact ht
        · exact absurd (List.prefix_nil.1 ht) hne
      exact ⟨n, by rw [ht, Nat.toDigits_of_lt_base hlt], le_rfl, id⟩
    · have hsplit := Nat.toDigits_of_base_le (b := 10) (n := n) (by omega) (by omega)
      rw [hsplit] at h
      rcases List.prefix_concat_iff.1 h with ht | ht
      · exact ⟨n, by rw [ht, hsplit], le_rfl, id⟩
      · obtain ⟨m, hm, hle, hpos⟩ := ih (n / 10) (by omega) ht
        exact ⟨m, hm, by omega, fun _ => hpos (by omega)⟩

/-- **Every number that the text of an integer begins with is an integer**, and none of a larger
magnitude. -/
theorem exists_integer_of_prefix {t : List Char} (ht : IsNumeral t) {n : ℤ}
    (h : t <+: (toString n).toList) :
    ∃ m : ℤ, t = (toString m).toList ∧ min n 0 ≤ m ∧ m ≤ max n 0 := by
  have hne : t ≠ [] := by
    rintro rfl
    obtain ⟨p, hp, -⟩ := ht
    cases hp
  cases n with
  | ofNat n =>
    rw [Int.ofNat_eq_natCast, toList_toString_natCast] at h
    obtain ⟨m, hm, hle, -⟩ := exists_toDigits_of_prefix hne h
    exact ⟨m, by rw [hm, toList_toString_natCast], by omega, by rw [Int.ofNat_eq_natCast]; omega⟩
  | negSucc n =>
    rw [toList_toString_negSucc] at h
    obtain ⟨c, rest, rfl⟩ := List.exists_cons_of_ne_nil hne
    obtain ⟨rfl, hrest⟩ := List.cons_prefix_cons.1 h
    have hdigits : rest ≠ [] := by
      rintro rfl
      obtain ⟨p, hp, hfinal⟩ := ht
      obtain rfl : Place.sign = p := by simpa [placeAfter, Place.start?, Place.run] using hp
      cases hfinal
    obtain ⟨m, hm, hle, hpos⟩ := exists_toDigits_of_prefix hdigits hrest
    obtain ⟨k, rfl⟩ : ∃ k, m = k + 1 := ⟨m - 1, by have := hpos (by omega); omega⟩
    exact ⟨.negSucc k, by rw [hm, toList_toString_negSucc], by omega, by omega⟩

end Json.Numeral

/-! ## Doubles -/

namespace Double

open Json Json.Numeral

/-- A significand of so few digits is not scaled beyond the finite doubles. -/
theorem exists_scale {c : Nat} {e : ℤ} (hc : c < 10 ^ 17) (he : e ≤ 100) :
    ∃ y, scale (ofNat c) e = some y := by
  cases e with
  | negSucc k => exact ⟨_, rfl⟩
  | ofNat k =>
    have hk : k ≤ 100 := Int.ofNat_le.1 he
    have hmax : k ≤ maxPower := hk.trans (by decide)
    obtain ⟨v, hscales, hwithin⟩ := exists_scalesTo (c := c) (e := k) hmax
      (within_ofNat (fits_of_lt (by omega))) (within_powerOfTen hmax)
    obtain ⟨r, hr⟩ := exists_roundsTo (hwithin.nonneg (value_nonneg _))
    have hlarge : (Decimal.mk c k).value ≤ 10 ^ 117 := by
      have hpower : c * 10 ^ k ≤ 10 ^ 117 :=
        (Nat.mul_le_mul hc.le (Nat.pow_le_pow_right (by omega) hk)).trans_eq (by norm_num)
      rw [Decimal.value, zpow_natCast]
      exact_mod_cast hpower
    have hfits : (10 ^ 118 * unitsPerOne : ℚ) ≤ magnitude (infiniteRank - 1) := by
      have hten : Fits (10 ^ 118) := fits_ten_pow (by decide)
      have hcast : ((10 ^ 118 * unitsPerOne : ℕ) : ℚ) ≤ magnitude (infiniteRank - 1) :=
        Nat.cast_le.2 hten
      rwa [Nat.cast_mul, Nat.cast_pow, Nat.cast_ofNat] at hcast
    have hv : v ≤ magnitude (infiniteRank - 1) :=
      calc v ≤ oneRounding * oneRounding * ((Decimal.mk c k).value * unitsPerOne) := hwithin.le
        _ ≤ 10 * (10 ^ 117 * unitsPerOne) := by
          refine mul_le_mul (by norm_num [oneRounding]) ?_ (value_nonneg _) (by norm_num)
          exact mul_le_mul_of_nonneg_right hlarge unitsPerOne_cast_pos.le
        _ = 10 ^ 118 * unitsPerOne := by ring
        _ ≤ magnitude (infiniteRank - 1) := hfits
    have hrank := hr.le (roundsTo_magnitude _) hv
    exact ⟨_, hscales r (Nat.lt_of_le_pred (by decide) hrank) hr⟩

/-- The exponent of the first digit of a finite double. -/
theorem leading_natAbs_le {x : Double} (hx : x.isFinite = true) :
    (x.shortest .even).leading.natAbs ≤ 340 := by
  obtain ⟨hc, hlow⟩ := x.shortest_bounds .even
  have hplaces : decimalPlaces = 340 := rfl
  have hhigh := exponent_shortest_le hx
  have hpos : 0 < (x.shortest .even).digits.length :=
    List.length_pos_of_ne_nil Decimal.digits_ne_nil
  have hdigits : (x.shortest .even).digits.length ≤ 17 :=
    (Decimal.length_digits_le_iff (by omega)).2 hc
  unfold Decimal.leading
  omega

/-- A number of so few digits, and with a small exponent, can be read. -/
theorem exists_value_of_small {m : Numeral} (hc : m.decimal.coefficient < 10 ^ 17)
    (hsmall : ∀ b ds, m.exponent = some (b, ds) → ofDigits ds ≤ 100) :
    ∃ x, m.value = .ok x := by
  have hpower : m.decimal.exponent ≤ 100 := by
    have hle : m.power ≤ 100 := by
      rcases hexp : m.exponent with _ | ⟨b, ds⟩
      · simp [power, hexp]
      · have hds := hsmall b ds hexp
        cases b with
        | false => simpa [power, hexp] using hds
        | true =>
          simp only [power, hexp]
          omega
    simp only [decimal]
    omega
  obtain ⟨y, hy⟩ := exists_scale hc hpower
  have hmagnitude := magnitude_eq (hc.trans (by omega))
    (fun b ds hds => (hsmall b ds hds).trans_lt (by omega)) hy
  rw [Numeral.value]
  cases m.integer? with
  | some n => exact ⟨_, rfl⟩
  | none => simp [toDouble, hmagnitude, Except.map]

/-- **Every number that the text of a finite double begins with can be read.** -/
theorem exists_value_of_prefix {x : Double} (hx : x.isFinite = true) {t : List Char}
    (h : t <+: x.stored.toList) : ∃ m, (ofText t).value = .ok m := by
  obtain ⟨u, hu⟩ := h
  obtain ⟨-, hdecimal, hexponent⟩ := shows_stored hx
  rw [← hu] at hdecimal hexponent
  obtain ⟨hbeginning, hcases⟩ := ofText_append t u
  have hc : (ofText t).decimal.coefficient < 10 ^ 17 := by
    have hle : (ofText t).decimal.coefficient ≤ (ofText (t ++ u)).decimal.coefficient :=
      ofDigits_le_of_prefix hbeginning
    rw [hdecimal] at hle
    exact hle.trans_lt (shown_bounds hx).1
  rcases hcases with hnone | ⟨b, hempty⟩ | ⟨b, ds, ds', hds, hlonger⟩
  · exact exists_value_of_small hc fun b ds hds => by rw [hnone] at hds; cases hds
  · refine exists_value_of_small hc fun b' ds hds => ?_
    rw [hempty] at hds
    cases hds
    decide
  -- an exponent that is not all there lacks a digit
  by_cases hall : ds' = []
  · have hsame : ofText (t ++ u) = ofText t := by rw [hlonger, hall, List.append_nil, ← hds]
    obtain ⟨s, -, hvalue, -⟩ := exists_value_stored hx
    rw [← hu, hsame] at hvalue
    exact ⟨_, hvalue⟩
  · have hsum : ofDigits (ds ++ ds') = (x.shortest .even).leading.natAbs := by
      rw [hlonger] at hexponent
      rcases hexponent with ⟨hnone, -⟩ | ⟨b', es, hes, hleading⟩
      · cases hnone
      · cases hes
        exact hleading
    refine exists_value_of_small hc fun b' es hes => ?_
    obtain ⟨-, rfl⟩ : b = b' ∧ ds = es := by
      rw [hds, Option.some.injEq, Prod.mk.injEq] at hes
      exact hes
    have hleading := leading_natAbs_le hx
    have hten : 10 ^ 1 ≤ 10 ^ ds'.length :=
      Nat.pow_le_pow_right (by omega) (List.length_pos_of_ne_nil hall)
    have hmul := Nat.mul_le_mul_left (ofDigits ds) hten
    rw [ofDigits_append] at hsum
    omega

end Double

end SqlTree
