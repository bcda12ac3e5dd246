import SqlTree.Proofs.Double.Reading
import SqlTree.Proofs.Double.Ties
import SqlTree.Proofs.Sql.Constants
import SqlTree.Proofs.Storage.RoundTrip

/-!
# A double in a document and in SQL

One double has two spellings. In SQL it is positional, and a whole number has no point. A document
writes it with at least one place (`IsPointed`), or with an exponent (`IsScientific`) if it is far
from one. Both show the sign, and both denote the same number (`Constant.spellings_double`), unless
the double lies halfway between two shortest decimals: then they denote these two
(`Constant.spellings_ne`).
-/

namespace SqlTree

open Json Json.Numeral

/-! ## The two forms of a document -/

/-- Is a text a number with a point: whole digits that do not begin with a spare zero, and places
that do not end in one? -/
def IsPointed (t : List Char) : Prop :=
  ∃ whole places, IsWhole whole ∧ IsDigits places ∧ (places = ['0'] ∨ places.getLast? ≠ some '0')
    ∧ t = whole ++ '.' :: places

/-- Is a text a number with an exponent: one digit before the point, and an exponent with a sign? -/
def IsScientific (t : List Char) : Prop :=
  ∃ first fraction sign exponent, first.isDigit = true ∧ first ≠ '0' ∧ IsFraction fraction
    ∧ fraction.getLast? ≠ some '0' ∧ (sign = '+' ∨ sign = '-') ∧ IsWhole exponent
    ∧ t = first :: (fraction ++ 'e' :: sign :: exponent)

namespace Decimal

variable {d : Decimal}

/-- The exponent of the first digit tells how large a decimal is. -/
theorem value_bounds (h : 0 < d.coefficient) :
    (10 : ℚ) ^ d.leading ≤ d.value ∧ d.value < 10 ^ (d.leading + 1) := by
  obtain ⟨hlow, hhigh⟩ := coefficient_bounds h
  have hlength : 0 < d.digits.length := List.length_pos_of_ne_nil digits_ne_nil
  have hpos : (0 : ℚ) < 10 ^ d.exponent := zpow_pos (by norm_num) _
  have hexp (k : ℕ) (l : ℤ) (h : l = k + d.exponent) :
      (10 : ℚ) ^ l = (10 ^ k : ℕ) * 10 ^ d.exponent := by
    rw [h, zpow_add₀ (by norm_num), zpow_natCast]
    push_cast
    rfl
  constructor
  · rw [hexp (d.digits.length - 1) d.leading (by unfold leading; omega)]
    exact mul_le_mul_of_nonneg_right (Nat.cast_le.2 hlow) hpos.le
  · rw [hexp d.digits.length (d.leading + 1) (by unfold leading; omega)]
    exact mul_lt_mul_of_pos_right (Nat.cast_lt.2 hhigh) hpos

/-- The numbers without an exponent are zero and those from `10 ^ -5` up to `10 ^ 16`. -/
theorem isModerate_iff (h : d = ⟨0, 0⟩ ∨ 0 < d.coefficient) :
    d.isModerate = true ↔
      d.value = 0 ∨ (10 : ℚ) ^ (-5 : ℤ) ≤ d.value ∧ d.value < 10 ^ (16 : ℤ) := by
  rcases h with rfl | hpos
  · have hzero : (⟨0, 0⟩ : Decimal).value = 0 := by simp [value]
    exact ⟨fun _ => .inl hzero, fun _ => by decide⟩
  · obtain ⟨hlow, hhigh⟩ := value_bounds hpos
    have hten : (1 : ℚ) < 10 := by norm_num
    have hne : d.value ≠ 0 := (lt_of_lt_of_le (zpow_pos (by norm_num) _) hlow).ne'
    rw [isModerate, decide_eq_true_iff]
    constructor
    · rintro ⟨hsmall, hlarge⟩
      refine .inr ⟨(zpow_le_zpow_right₀ hten.le hsmall).trans hlow, hhigh.trans_le ?_⟩
      exact zpow_le_zpow_right₀ hten.le (by omega)
    · rintro (hzero | ⟨hsmall, hlarge⟩)
      · exact absurd hzero hne
      · have hupper := (zpow_lt_zpow_iff_right₀ hten).1 (hsmall.trans_lt hhigh)
        have hlower := (zpow_lt_zpow_iff_right₀ hten).1 (hlow.trans_lt hlarge)
        omega

theorem isWhole_toDigits (n : Nat) : IsWhole (Nat.toDigits 10 n) := by
  rcases n.eq_zero_or_pos with rfl | hpos
  · exact .inl (by decide)
  · obtain ⟨c, rest, hc, hne⟩ := toDigits_eq_cons hpos
    exact .inr ⟨⟨by simp [hc], fun x hx => isDigit_of_mem hx⟩, by simpa [hc] using hne⟩

theorem isPointed_stored (h : d = ⟨0, 0⟩ ∨ 0 < d.coefficient ∧ d.coefficient % 10 ≠ 0)
    (hmoderate : d.isModerate = true) : IsPointed d.stored := by
  rw [stored, if_pos hmoderate]
  split
  · next hexp =>
    exact ⟨_, ['0'], isWhole_positional (h.imp id And.left) hexp, ⟨by simp, by simp⟩, .inl rfl, rfl⟩
  · next hexp =>
    have hne : d ≠ ⟨0, 0⟩ := by
      rintro rfl
      exact hexp le_rfl
    obtain ⟨hpos, hten⟩ := h.resolve_left hne
    obtain ⟨whole, places, hwhole, hplaces, hlast, heq⟩ := exists_places hpos (not_le.1 hexp)
    exact ⟨whole, places, hwhole, hplaces, .inr (hlast ▸ getLast?_digits_ne hten), heq⟩

theorem isScientific_stored (hpos : 0 < d.coefficient) (hten : d.coefficient % 10 ≠ 0)
    (hfar : ¬ d.isModerate = true) : IsScientific d.stored := by
  have hsign : (if d.leading < 0 then '-' else '+') = '+' ∨
      (if d.leading < 0 then '-' else '+') = '-' := by
    split <;> simp
  obtain ⟨c, rest, hc, hne⟩ := toDigits_eq_cons hpos
  have hdigits : d.digits = c :: rest := hc
  have hmem : ∀ x ∈ c :: rest, x.isDigit = true := fun x hx => isDigit_of_mem_digits (hdigits ▸ hx)
  have hlast := getLast?_digits_ne hten
  rw [stored, if_neg hfar, scientific]
  simp only [hdigits]
  cases rest with
  | nil =>
    exact ⟨c, [], _, _, hmem c List.mem_cons_self, hne, .inl rfl, by simp, hsign,
      isWhole_toDigits _, rfl⟩
  | cons c' rest =>
    have hplaces : ∀ x ∈ c' :: rest, x.isDigit = true := fun x hx =>
      hmem x (List.mem_cons_of_mem c hx)
    refine ⟨c, '.' :: c' :: rest, _, _, hmem c List.mem_cons_self, hne,
      .inr ⟨_, ⟨by simp, hplaces⟩, rfl⟩, ?_, hsign, isWhole_toDigits _, rfl⟩
    rw [getLast?_point (by simp)]
    rwa [hdigits, List.getLast?_cons_cons] at hlast

end Decimal

/-! ## The two spellings of a double -/

namespace Double

variable {x : Double}

/-- What the number in a document and the number in SQL have to do with a double and with each
other. -/
structure Spellings (x : Double) (stored sql : List Char) : Prop where
  storedSign : (ofText stored).negative = x.negative
  sqlSign : (ofText sql).negative = x.negative
  same : (∀ c e, ¬ x.IsTie c e) → (ofText stored).decimal.value = (ofText sql).decimal.value
  tie : ∀ c e, x.IsTie c e → (ofText stored).decimal.value = c * 10 ^ e ∧
    (ofText sql).decimal.value = (c + 1) * 10 ^ e
  storedForm : ∃ number, stored = (if x.negative then ['-'] else []) ++ number ∧
    if (ofText stored).decimal.value = 0 ∨ (10 : ℚ) ^ (-5 : ℤ) ≤ (ofText stored).decimal.value
        ∧ (ofText stored).decimal.value < 10 ^ (16 : ℤ)
      then IsPointed number else IsScientific number
  sqlForm : ∃ number, sql = (if x.negative then ['-'] else []) ++ number ∧ IsPositional number
  mark : '.' ∈ stored ∨ 'e' ∈ stored

theorem spellings (hx : x.isFinite = true) : x.Spellings x.stored.toList x.sql.toList := by
  obtain ⟨hsign, hshown, -⟩ := shows_stored hx
  obtain ⟨hsqlSign, hsqlValue⟩ := denotes_sql hx
  have hvalue : (ofText x.stored.toList).decimal.value = (x.shortest .even).value := by
    rw [hshown, Decimal.value_shown]
  have hshortest := x.shortest_eq_zero_or_mod_ten .even
  refine ⟨hsign, hsqlSign, fun hnone => ?same, fun c e htie => ?tie,
    ⟨_, toList_stored hx, ?form⟩, (isLiteral_sql hx).form, ?mark⟩
  case same =>
    rcases x.shortest_up_cases with heq | ⟨c, e, htie⟩
    · rw [hvalue, hsqlValue, heq]
    · exact absurd htie (hnone c e)
  case tie =>
    obtain ⟨heven, hup⟩ := htie.shortest_eq
    rw [hvalue, hsqlValue, heven, hup, Decimal.value, Decimal.value]
    push_cast
    exact ⟨rfl, rfl⟩
  case form =>
    rw [hvalue]
    have hrange := Decimal.isModerate_iff (hshortest.imp id And.left)
    split
    · next hmoderate => exact Decimal.isPointed_stored hshortest (hrange.2 hmoderate)
    · next houtside =>
      have hfar := mt hrange.1 houtside
      have hne : x.shortest .even ≠ ⟨0, 0⟩ := by
        intro hzero
        rw [hzero] at hfar
        exact hfar (by decide)
      obtain ⟨hpos, hten⟩ := hshortest.resolve_left hne
      exact Decimal.isScientific_stored hpos hten hfar
  case mark =>
    rw [toList_stored hx]
    exact (x.shortest .even).mark_mem_stored.imp (List.mem_append_right _)
      (List.mem_append_right _)

end Double

/-! ## Constants -/

theorem Json.Document.ofList_print_tagged (name : String) (content : Document) :
    String.ofList (Document.tagged name content).print = numberText name content.print := by
  simp [Document.tagged, Document.print, Document.printMembers, commas, numberText]

namespace Constant

/-- **SQL and a document agree on a double**, unless two decimals tie. The number in a document
always shows a point or an exponent, so it is the number of no integer. -/
theorem spellings_double (x : Double) (hx : x.isFinite = true) :
    ∃ number, Kind.constant.stored (.double x) = numberText "Double" number ∧
      x.Spellings number (toSql (Constant.double x)).value.toList ∧
      ∀ n : Int64, Kind.constant.stored (.long n) = numberText "Long" (toString n.toInt).toList ∧
        number ≠ (toString n.toInt).toList := by
  refine ⟨x.stored.toList, Document.ofList_print_tagged _ _, ?_,
    fun n => ⟨Document.ofList_print_tagged _ _, fun h => ?_⟩⟩
  · rw [value_toSql]
    exact Double.spellings hx
  · exact Double.stored_ne_toString hx _ (String.toList_inj.1 h)

/-- The double `0x3f1e200000000000` lies halfway between two decimals of seventeen digits. SQL takes
the larger, and a document the even one. -/
theorem spelt_halfway :
    Kind.constant.stored (.double ⟨0x3f1e200000000000⟩)
        = numberText "Double" "0.00011491775512695312".toList ∧
      (toSql (Constant.double ⟨0x3f1e200000000000⟩)).value = "0.00011491775512695313" := by
  decide +kernel

theorem spellings_double_halfway : (⟨0x3f1e200000000000⟩ : Double).isFinite = true ∧
    (⟨0x3f1e200000000000⟩ : Double).IsTie 11491775512695312 (-20) ∧
    (⟨0x3f1e200000000000⟩ : Double).Spellings "0.00011491775512695312".toList
      "0.00011491775512695313".toList := by
  have heven : (⟨0x3f1e200000000000⟩ : Double).shortest .even = ⟨11491775512695312, -20⟩ := by
    decide +kernel
  have hup : (⟨0x3f1e200000000000⟩ : Double).shortest .up = ⟨11491775512695313, -20⟩ := by
    decide +kernel
  obtain ⟨hstored, hsql⟩ := spelt_halfway
  obtain ⟨number, hnumber, hspellings, -⟩ := spellings_double ⟨0x3f1e200000000000⟩ (by decide)
  rw [numberText_inj.1 (hnumber.symm.trans hstored), hsql] at hspellings
  exact ⟨by decide, ⟨by decide, heven ▸ Double.isShortest_shortest .even _,
    hup ▸ Double.isShortest_shortest .up _⟩, hspellings⟩

/-- **A tie is spelt in two ways**, so the two numbers differ. -/
theorem spellings_ne :
    Kind.constant.stored (.double ⟨0x3f1e200000000000⟩)
        = "\x7b\"Double\":0.00011491775512695312\x7d" ∧
      (toSql (Constant.double ⟨0x3f1e200000000000⟩)).value = "0.00011491775512695313" ∧
      ¬ ∀ x : Double, x.isFinite = true → ∀ number,
        Kind.constant.stored (.double x) = numberText "Double" number →
        (ofText number).decimal.value
          = (ofText (toSql (Constant.double x)).value.toList).decimal.value := by
  obtain ⟨hstored, hsql⟩ := spelt_halfway
  refine ⟨hstored, hsql, fun h => ?_⟩
  have hvalue := h ⟨0x3f1e200000000000⟩ (by decide) _ hstored
  have heven : (ofText "0.00011491775512695312".toList).decimal = ⟨11491775512695312, -20⟩ := by
    decide +kernel
  have hup : (ofText "0.00011491775512695313".toList).decimal = ⟨11491775512695313, -20⟩ := by
    decide +kernel
  rw [hsql, heven, hup] at hvalue
  norm_num [Decimal.value] at hvalue

end Constant

end SqlTree
