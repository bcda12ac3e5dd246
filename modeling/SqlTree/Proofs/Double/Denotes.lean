import Mathlib.Algebra.Field.Rat
import SqlTree.Proofs.Double.Shortest

/-!
# The number that a text denotes

Read digit by digit, without any rounding, a numeral denotes a decimal (`Numeral.decimal`). The text
of a double in a document denotes the number that the shortest decimal does
(`Decimal.shows_stored`), wherever its point stands and however many zeros it is filled up with.
So the text determines the double (`Double.eq_of_stored_eq`), and it is not the text of an integer
(`Double.stored_ne_toString`).
-/

namespace SqlTree

namespace Json.Numeral

/-- The exponent that is written, zero if there is none. -/
def power (n : Numeral) : ℤ :=
  match n.exponent with
  | none => 0
  | some (true, ds) => -(ofDigits ds : ℤ)
  | some (false, ds) => ofDigits ds

/-- The magnitude that a numeral denotes, of all its digits. -/
def decimal (n : Numeral) : Decimal :=
  ⟨ofDigits (n.whole ++ n.fraction), n.power - n.fraction.length⟩

/-! ## Digits -/

/-- Does a character that is no digit, or nothing, stand at the beginning of a text? -/
def Stops (rest : List Char) : Prop := ∀ c ∈ rest.head?, c.isDigit = false

theorem stops_nil : Stops [] := by
  simp [Stops]

theorem stops_cons {c : Char} (hc : c.isDigit = false) (rest : List Char) : Stops (c :: rest) := by
  simpa [Stops] using hc

section

variable {ds es rest : List Char} (hds : ∀ c ∈ ds, c.isDigit = true)
include hds

theorem digits_eq_map : digits ds = ds.map fun c => c.toNat - 48 := by
  unfold digits
  rw [List.takeWhile_eq_self_iff.2 hds]

theorem digits_append_stops (hrest : Stops rest) : digits (ds ++ rest) = digits ds := by
  have hstop : rest.takeWhile Char.isDigit = [] := by
    cases rest with
    | nil => rfl
    | cons c rest => simp [hrest c rfl]
  unfold digits
  rw [List.takeWhile_append_of_pos hds, hstop, List.append_nil,
    List.takeWhile_eq_self_iff.2 hds]

theorem afterDigits_append_stops (hrest : Stops rest) : afterDigits (ds ++ rest) = rest := by
  have hstop : rest.dropWhile Char.isDigit = rest := by
    cases rest with
    | nil => rfl
    | cons c rest => simp [hrest c rfl]
  unfold afterDigits
  rw [List.dropWhile_append_of_pos hds, hstop]

theorem digits_append (hes : ∀ c ∈ es, c.isDigit = true) :
    digits (ds ++ es) = digits ds ++ digits es := by
  have hall : ∀ c ∈ ds ++ es, c.isDigit = true := fun c hc =>
    (List.mem_append.1 hc).elim (hds c) (hes c)
  rw [digits_eq_map hall, digits_eq_map hds, digits_eq_map hes, List.map_append]

theorem length_digits : (digits ds).length = ds.length := by
  rw [digits_eq_map hds, List.length_map]

end

theorem ofDigits_append (ds es : List Nat) :
    ofDigits (ds ++ es) = ofDigits ds * 10 ^ es.length + ofDigits es := by
  have hfold (n : Nat) : es.foldl (fun n d => n * 10 + d) n
      = n * 10 ^ es.length + es.foldl (fun n d => n * 10 + d) 0 := by
    induction es generalizing n with
    | nil => simp
    | cons e es ih =>
      rw [List.foldl_cons, ih, List.foldl_cons, ih (0 * 10 + e), List.length_cons, Nat.pow_succ]
      ring
  unfold ofDigits
  rw [List.foldl_append, hfold]

theorem ofDigits_zeros (k : Nat) : ofDigits (List.replicate k 0) = 0 := by
  induction k with
  | zero => rfl
  | succ k ih => rw [List.replicate_succ', ofDigits_append, ih]; rfl

theorem digits_zeros (k : Nat) : digits (List.replicate k '0') = List.replicate k 0 := by
  rw [digits_eq_map fun _ hc => Decimal.isDigit_of_mem_replicate hc, List.map_replicate]
  rfl

/-! ## The parts of a text -/

/-- The parts of a text that begins with digits. -/
theorem ofText_digits {ds rest : List Char} (hne : ds ≠ []) (hds : ∀ c ∈ ds, c.isDigit = true)
    (hrest : Stops rest) :
    ofText (ds ++ rest) = ⟨false, digits ds, (afterWhole rest).1, (afterWhole rest).2⟩ := by
  obtain ⟨d, tail, rfl⟩ := List.exists_cons_of_ne_nil hne
  have hminus : d ≠ '-' := ne_minus_of_isDigit (hds d List.mem_cons_self)
  have hunsigned : unsigned (d :: tail ++ rest) = d :: tail ++ rest := by
    rw [List.cons_append, unsigned]
    simpa using hminus
  unfold ofText
  simp only [hunsigned, digits_append_stops hds hrest, afterDigits_append_stops hds hrest]
  simp [hminus]

/-- A minus in front changes the sign alone. -/
theorem ofText_minus {d : Char} (hd : d.isDigit = true) (text : List Char) :
    ofText ('-' :: d :: text) = { ofText (d :: text) with negative := true } := by
  have hunsigned : unsigned (d :: text) = d :: text := by
    rw [unsigned]
    simpa using ne_minus_of_isDigit hd
  unfold ofText
  rw [hunsigned]
  rfl

theorem negative_ofText {d : Char} (hd : d.isDigit = true) (text : List Char) :
    (ofText (d :: text)).negative = false := by
  simpa [ofText] using ne_minus_of_isDigit hd

/-- A number without a minus begins with a digit. -/
theorem IsUnsigned.exists_digit {text : List Char} (h : IsUnsigned text) :
    ∃ d rest, text = d :: rest ∧ d.isDigit = true := by
  obtain ⟨p, hrun, hfinal⟩ := h
  cases text with
  | nil =>
    obtain rfl : Place.sign = p := by simpa [Place.run] using hrun
    exact absurd hfinal (by decide)
  | cons d rest =>
    refine ⟨d, rest, rfl, ?_⟩
    by_contra hd
    have hzero : d ≠ '0' := by
      rintro rfl
      exact hd rfl
    simp [Place.run, Place.step, hd, hzero] at hrun

theorem afterWhole_point {ds rest : List Char} (hds : ∀ c ∈ ds, c.isDigit = true)
    (hrest : Stops rest) :
    afterWhole ('.' :: (ds ++ rest)) = (digits ds, exponentOf rest) := by
  rw [afterWhole, digits_append_stops hds hrest, afterDigits_append_stops hds hrest]

theorem afterWhole_mark (rest : List Char) :
    afterWhole ('e' :: rest) = ([], exponentOf ('e' :: rest)) := by
  rw [afterWhole]
  simp

/-- The parts of whole digits with an exponent. -/
theorem ofText_mark {ds ks : List Char} (hne : ds ≠ []) (hds : ∀ c ∈ ds, c.isDigit = true)
    (sign : Char) (hsign : sign = '-' ∨ sign = '+') :
    ofText (ds ++ 'e' :: sign :: ks)
      = ⟨false, digits ds, [], some (sign == '-', digits ks)⟩ := by
  rw [ofText_digits hne hds (stops_cons (by decide) _), afterWhole_mark]
  rcases hsign with rfl | rfl <;> rfl

/-- The parts of digits with a point between them. -/
theorem ofText_point {ds es : List Char} (hne : ds ≠ []) (hds : ∀ c ∈ ds, c.isDigit = true)
    (hes : ∀ c ∈ es, c.isDigit = true) :
    ofText (ds ++ '.' :: es) = ⟨false, digits ds, digits es, none⟩ := by
  rw [ofText_digits hne hds (stops_cons (by decide) _)]
  have hafter : afterWhole ('.' :: es) = (digits es, none) := by
    simpa [exponentOf] using afterWhole_point hes stops_nil
  rw [hafter]

/-- The parts of digits with a point between them and an exponent. -/
theorem ofText_point_mark {ds es ks : List Char} (hne : ds ≠ [])
    (hds : ∀ c ∈ ds, c.isDigit = true) (hes : ∀ c ∈ es, c.isDigit = true) (sign : Char)
    (hsign : sign = '-' ∨ sign = '+') :
    ofText (ds ++ '.' :: (es ++ 'e' :: sign :: ks))
      = ⟨false, digits ds, digits es, some (sign == '-', digits ks)⟩ := by
  rw [ofText_digits hne hds (stops_cons (by decide) _),
    afterWhole_point hes (stops_cons (by decide) _)]
  rcases hsign with rfl | rfl <;> rfl

end Json.Numeral

/-! ## The text of a decimal in a document -/

namespace Decimal

open Json.Numeral

variable (d : Decimal)

/-- The decimal as a document shows it: a whole number has one place. -/
def shown : Decimal :=
  if d.isModerate ∧ 0 ≤ d.exponent then ⟨d.coefficient * 10 ^ (d.exponent.toNat + 1), -1⟩ else d

theorem value_shown : d.shown.value = d.value := by
  unfold shown
  split
  · next h =>
    obtain ⟨k, hk⟩ := Int.eq_ofNat_of_zero_le h.2
    simp only [value, hk, Int.toNat_natCast]
    push_cast
    rw [pow_succ, zpow_natCast, zpow_neg_one]
    ring
  · rfl

theorem ofDigits_digits : ofDigits (Json.Numeral.digits d.digits) = d.coefficient :=
  ofDigits_digits_toDigits d.coefficient

/-- A whole number is written as digits alone, those of its value. -/
theorem positional_of_nonneg (h : 0 ≤ d.exponent) :
    d.positional ≠ [] ∧ (∀ c ∈ d.positional, c.isDigit = true) ∧
      ofDigits (Json.Numeral.digits d.positional) = d.coefficient * 10 ^ d.exponent.toNat := by
  have hds : ∀ c ∈ d.digits, c.isDigit = true := fun _ hc => isDigit_of_mem_digits hc
  have hzeros : ∀ c ∈ List.replicate d.exponent.toNat '0', c.isDigit = true :=
    fun _ hc => isDigit_of_mem_replicate hc
  rw [positional, if_pos h]
  refine ⟨by simp [digits_ne_nil], fun c hc => (List.mem_append.1 hc).elim (hds c) (hzeros c), ?_⟩
  rw [digits_append hds hzeros, digits_zeros, ofDigits_append, ofDigits_zeros, ofDigits_digits,
    List.length_replicate, Nat.add_zero]

theorem decimal_whole (h : 0 ≤ d.exponent) :
    (ofText (d.positional ++ ['.', '0'])).decimal
        = ⟨d.coefficient * 10 ^ (d.exponent.toNat + 1), -1⟩
      ∧ (ofText (d.positional ++ ['.', '0'])).exponent = none := by
  obtain ⟨hne, hall, hvalue⟩ := d.positional_of_nonneg h
  have hpoint : Json.Numeral.digits ['0'] = [0] := rfl
  rw [ofText_point hne hall (by simp)]
  refine ⟨?_, rfl⟩
  rw [decimal, hpoint, ofDigits_append, hvalue, Nat.mul_assoc, List.length_singleton, ← pow_add]
  rfl

theorem decimal_positional (h : d.exponent < 0) :
    (ofText d.positional).decimal = d ∧ (ofText d.positional).exponent = none := by
  have hds : ∀ c ∈ d.digits, c.isDigit = true := fun _ hc => isDigit_of_mem_digits hc
  rw [positional, if_neg (by omega)]
  simp only
  split
  · next hplaces =>
    -- the point stands between the digits
    have htake : ∀ c ∈ d.digits.take (d.digits.length - (-d.exponent).toNat), c.isDigit = true :=
      fun c hc => hds c (List.mem_of_mem_take hc)
    have hdrop : ∀ c ∈ d.digits.drop (d.digits.length - (-d.exponent).toNat), c.isDigit = true :=
      fun c hc => hds c (List.mem_of_mem_drop hc)
    rw [ofText_point (by simp [digits_ne_nil]; omega) htake hdrop]
    refine ⟨?_, rfl⟩
    rw [decimal, ← digits_append htake hdrop, List.take_append_drop, ofDigits_digits]
    simp only [power, length_digits hdrop, List.length_drop]
    congr 1
    omega
  · next hplaces =>
    -- zeros fill the places between the point and the digits
    have hzeros : ∀ c ∈ List.replicate ((-d.exponent).toNat - d.digits.length) '0',
        c.isDigit = true := fun _ hc => isDigit_of_mem_replicate hc
    have hall : ∀ c ∈ List.replicate ((-d.exponent).toNat - d.digits.length) '0' ++ d.digits,
        c.isDigit = true := fun c hc => (List.mem_append.1 hc).elim (hzeros c) (hds c)
    rw [show ∀ es : List Char, '0' :: '.' :: es = ['0'] ++ '.' :: es from fun _ => rfl,
      ofText_point (by simp) (by simp) hall]
    refine ⟨?_, rfl⟩
    rw [decimal, length_digits hall, digits_append hzeros hds, digits_zeros]
    have hpoint : Json.Numeral.digits ['0'] = [0] := rfl
    simp only [hpoint, ofDigits_append, ofDigits_zeros, ofDigits_digits, power, List.length_append,
      List.length_replicate]
    simp only [ofDigits]
    congr 1
    · simp
    · omega

theorem decimal_scientific : (ofText d.scientific).decimal = d
    ∧ ∃ b ds, (ofText d.scientific).exponent = some (b, ds) ∧ ofDigits ds = d.leading.natAbs := by
  have hds : ∀ c ∈ d.digits, c.isDigit = true := fun _ hc => isDigit_of_mem_digits hc
  have hsign : (if d.leading < 0 then '-' else '+') = '-' ∨
      (if d.leading < 0 then '-' else '+') = '+' := by
    split <;> simp
  have hpower (whole fraction : List Nat) :
      (Json.Numeral.mk false whole fraction (some ((if d.leading < 0 then '-' else '+') == '-',
        Json.Numeral.digits (Nat.toDigits 10 d.leading.natAbs)))).power = d.leading := by
    by_cases hneg : d.leading < 0
    · simp [power, hneg, ofDigits_digits_toDigits, abs_of_neg hneg]
    · simpa [power, hneg, ofDigits_digits_toDigits] using not_lt.1 hneg
  unfold scientific
  simp only
  split
  · next hnil => exact absurd hnil digits_ne_nil
  · next c hc =>
    have hlength : d.digits.length = 1 := by rw [hc]; rfl
    rw [← hc, ofText_mark digits_ne_nil hds _ hsign]
    refine ⟨?_, _, _, rfl, ofDigits_digits_toDigits _⟩
    rw [decimal, hpower, List.append_nil, ofDigits_digits]
    simp [leading, hlength]
  · next c rest _ hc =>
    have hcons : ∀ x ∈ c :: rest, x.isDigit = true := fun x hx => hds x (hc ▸ hx)
    have hfirst : ∀ x ∈ [c], x.isDigit = true := by simpa using hcons c List.mem_cons_self
    have hrest : ∀ x ∈ rest, x.isDigit = true := fun x hx => hcons x (List.mem_cons_of_mem c hx)
    have hlength : d.digits.length = rest.length + 1 := by rw [hc]; rfl
    rw [show ∀ es ks : List Char, c :: '.' :: es ++ ks = [c] ++ '.' :: (es ++ ks) from
        fun _ _ => rfl, ofText_point_mark (by simp) hfirst hrest _ hsign]
    refine ⟨?_, _, _, rfl, ofDigits_digits_toDigits _⟩
    rw [decimal, hpower, ← digits_append hfirst hrest, List.singleton_append, ← hc, ofDigits_digits]
    simp only [leading, hlength, length_digits hrest]
    congr 1
    omega

/-- Does a numeral denote a decimal, and show that it is no integer? There are places, or there is
an exponent, and it is that of the first digit. -/
def Shows (n : Json.Numeral) (d : Decimal) : Prop :=
  n.decimal = d.shown ∧ (n.exponent = none ∧ d.shown.exponent < 0 ∨
    ∃ b ds, n.exponent = some (b, ds) ∧ ofDigits ds = d.leading.natAbs)

/-- **The text of a decimal in a document denotes it**, with the places that are shown. -/
theorem shows_stored : Shows (ofText d.stored) d := by
  unfold Shows stored shown
  by_cases hmoderate : d.isModerate = true
  · by_cases hexp : 0 ≤ d.exponent
    · rw [if_pos hmoderate, if_pos hexp, if_pos ⟨hmoderate, hexp⟩]
      obtain ⟨hdecimal, hnone⟩ := d.decimal_whole hexp
      exact ⟨hdecimal, .inl ⟨hnone, Int.negSucc_lt_zero 0⟩⟩
    · rw [if_pos hmoderate, if_neg hexp, if_neg fun h => hexp h.2]
      obtain ⟨hdecimal, hnone⟩ := d.decimal_positional (not_le.1 hexp)
      exact ⟨hdecimal, .inl ⟨hnone, not_le.1 hexp⟩⟩
  · rw [if_neg hmoderate, if_neg fun h => hmoderate h.1]
    obtain ⟨hdecimal, hsome⟩ := d.decimal_scientific
    exact ⟨hdecimal, .inr hsome⟩

/-- A document shows a point or an exponent. -/
theorem mark_mem_stored : '.' ∈ d.stored ∨ 'e' ∈ d.stored := by
  unfold stored
  split
  · split
    · exact .inl (by simp)
    · next hexp =>
      rw [positional, if_neg hexp]
      simp only
      split <;> exact .inl (by simp)
  · exact .inr (by simp [scientific])

end Decimal

/-! ## The text of a double in a document -/

namespace Double

open Json.Numeral

variable {x y : Double}

/-- In front of a digit the sign is read as it is written, and nothing else changes. -/
theorem ofText_signText (x : Double) {d : Char} (hd : d.isDigit = true) (text : List Char) :
    ofText (x.signText ++ d :: text) = { ofText (d :: text) with negative := x.negative } := by
  rw [signText]
  cases x.negative
  · have hnone := negative_ofText hd text
    show ofText (d :: text) = _
    generalize ofText (d :: text) = n at hnone ⊢
    cases n
    cases hnone
    rfl
  · exact ofText_minus hd text

/-- The text of a finite double shows its sign and its shortest decimal. -/
theorem shows_stored (hx : x.isFinite = true) :
    (ofText x.stored.toList).negative = x.negative ∧
      Decimal.Shows (ofText x.stored.toList) (x.shortest .even) := by
  obtain ⟨d, rest, htext, hd⟩ :=
    (Decimal.isUnsigned_stored (x.shortest_eq_zero_or_pos .even)).exists_digit
  have hshows := (x.shortest .even).shows_stored
  rw [htext] at hshows
  rw [toList_stored hx, htext, ofText_signText x hd]
  exact ⟨rfl, hshows⟩

/-- **The text of a finite double in a document determines the double.** -/
theorem eq_of_stored_eq (hx : x.isFinite = true) (hy : y.isFinite = true)
    (h : x.stored = y.stored) : x = y := by
  obtain ⟨hxsign, hxshown, -⟩ := shows_stored hx
  obtain ⟨hysign, hyshown, -⟩ := shows_stored hy
  rw [h] at hxsign hxshown
  have hvalue : (x.shortest .even).value = (y.shortest .even).value := by
    rw [← Decimal.value_shown, ← hxshown, hyshown, Decimal.value_shown]
  exact eq_of_rank_eq (hxsign.symm.trans hysign) (rank_eq_of_shortest hvalue)

/-- The text of a finite double is not the text of an integer. -/
theorem stored_ne_toString (hx : x.isFinite = true) (n : Int) : x.stored ≠ toString n := by
  intro h
  have hmem : ∀ c ∈ (toString n).toList, c = '-' ∨ c.isDigit = true := by
    cases n with
    | ofNat n =>
      rw [Int.ofNat_eq_natCast, toList_toString_natCast]
      exact fun c hc => .inr (isDigit_of_mem hc)
    | negSucc n =>
      rw [toList_toString_negSucc]
      exact fun c hc => (List.mem_cons.1 hc).imp id isDigit_of_mem
  rw [← h, toList_stored hx] at hmem
  rcases (x.shortest .even).mark_mem_stored with hmark | hmark
  · exact absurd (hmem _ (List.mem_append_right _ hmark)) (by decide)
  · exact absurd (hmem _ (List.mem_append_right _ hmark)) (by decide)

end Double

end SqlTree
