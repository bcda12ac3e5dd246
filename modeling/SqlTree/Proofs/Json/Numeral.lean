import Mathlib.Data.List.TakeWhile
import SqlTree.Proofs.Json.Quoted

/-!
# The form of a number

`IsNumeral text` says that `Place.step` goes through the whole text and ends where a number may end.
Such a text is one token as soon as a blank, a comma, a closing bracket or nothing follows it
(`scan_numeral`). The text of every integer is one, and denotes that integer if 64 bits hold it
(`integer?_ofText_toString`).
-/

namespace SqlTree.Json

namespace Numeral

/-- The place behind a text of which every character belongs to the number. -/
def Place.run : Place → List Char → Option Place
  | p, [] => some p
  | p, c :: rest =>
    match p.step c with
    | .go q => q.run rest
    | .ended | .wrong => none

/-- The place behind a text that a number begins with. -/
def placeAfter : List Char → Option Place
  | [] => none
  | c :: rest => (Place.start? c).bind (·.run rest)

/-- A text that is a number from its first character to its last. -/
def IsNumeral (text : List Char) : Prop := ∃ p, placeAfter text = some p ∧ p.isFinal = true

/-- A text that is a number without a minus. -/
def IsUnsigned (text : List Char) : Prop := ∃ p, Place.sign.run text = some p ∧ p.isFinal = true

theorem Place.run_append {p q : Place} {s : List Char} (h : p.run s = some q) (t : List Char) :
    p.run (s ++ t) = q.run t := by
  induction s generalizing p with
  | nil =>
    obtain rfl : p = q := by simpa [Place.run] using h
    rfl
  | cons c rest ih =>
    rw [Place.run] at h
    rw [List.cons_append, Place.run]
    cases hstep : p.step c with
    | go p' =>
      rw [hstep] at h
      exact ih h
    | ended => simp [hstep] at h
    | wrong => simp [hstep] at h

theorem ne_minus_of_isDigit {c : Char} (h : c.isDigit = true) : c ≠ '-' := by
  rintro rfl
  simp at h

/-- A digit is read at the beginning as it is read behind a minus. -/
theorem start?_of_step_sign {c : Char} {p : Place} (h : Place.sign.step c = .go p) :
    Place.start? c = some p := by
  simp only [Place.step] at h
  unfold Place.start?
  split at h
  · next h0 => simpa [h0] using h
  split at h
  · next h0 hd => simpa [h0, hd, ne_minus_of_isDigit hd] using h
  · simp at h

/-- What is true of every character that a number may go on with is true of all of its characters. -/
theorem Place.forall_mem_of_run {P : Char → Prop}
    (hstep : ∀ {p q : Place} {c : Char}, p.step c = .go q → P c) {p q : Place} {text : List Char}
    (h : p.run text = some q) : ∀ c ∈ text, P c := by
  induction text generalizing p with
  | nil => simp
  | cons c rest ih =>
    rw [Place.run] at h
    cases hc : p.step c with
    | go p' =>
      rw [hc] at h
      exact List.forall_mem_cons.2 ⟨hstep hc, ih h⟩
    | ended => simp [hc] at h
    | wrong => simp [hc] at h

theorem IsNumeral.forall_mem {P : Char → Prop}
    (hstep : ∀ {p q : Place} {c : Char}, p.step c = .go q → P c) (hminus : P '-')
    {text : List Char} (h : IsNumeral text) : ∀ c ∈ text, P c := by
  obtain ⟨q, hplace, -⟩ := h
  cases text with
  | nil => simp
  | cons c rest =>
    obtain ⟨p, hp, hrun⟩ := Option.bind_eq_some_iff.1 hplace
    refine List.forall_mem_cons.2 ⟨?_, Place.forall_mem_of_run hstep hrun⟩
    by_cases hc : c = '-'
    · exact hc ▸ hminus
    · refine hstep (p := .sign) (q := p) ?_
      simp only [Place.start?, hc, if_false] at hp
      simp only [Place.step]
      split at hp <;> simp_all

theorem IsUnsigned.isNumeral {text : List Char} (h : IsUnsigned text) : IsNumeral text := by
  obtain ⟨p, hrun, hfinal⟩ := h
  refine ⟨p, ?_, hfinal⟩
  cases text with
  | nil =>
    obtain rfl : Place.sign = p := by simpa [Place.run] using hrun
    simp [Place.isFinal] at hfinal
  | cons c rest =>
    rw [Place.run] at hrun
    cases hstep : Place.sign.step c with
    | go q =>
      rw [hstep] at hrun
      rw [placeAfter, start?_of_step_sign hstep]
      exact hrun
    | ended => simp [hstep] at hrun
    | wrong => simp [hstep] at hrun

theorem IsUnsigned.neg {text : List Char} (h : IsUnsigned text) : IsNumeral ('-' :: text) := h

/-! ## Digits -/

/-- Where a reader is among digits, another one changes nothing. -/
theorem Place.run_digits {p : Place} (hp : p = .whole ∨ p = .fraction ∨ p = .exponent)
    {ds : List Char} (hds : ∀ c ∈ ds, c.isDigit = true) : p.run ds = some p := by
  induction ds with
  | nil => rfl
  | cons d rest ih =>
    have hd := hds d List.mem_cons_self
    have hstep : p.step d = .go p := by rcases hp with rfl | rfl | rfl <;> simp [Place.step, hd]
    rw [Place.run, hstep]
    exact ih fun c hc => hds c (List.mem_cons_of_mem _ hc)

/-- Behind whole digits, a point and at least one more digit. -/
theorem Place.run_point {p : Place} (hp : p = .zero ∨ p = .whole) {ds : List Char} (hne : ds ≠ [])
    (hds : ∀ c ∈ ds, c.isDigit = true) : p.run ('.' :: ds) = some .fraction := by
  obtain ⟨d, rest, rfl⟩ := List.exists_cons_of_ne_nil hne
  obtain ⟨hd, hrest⟩ := List.forall_mem_cons.1 hds
  have hrun : Place.fraction.run rest = some .fraction := Place.run_digits (.inr (.inl rfl)) hrest
  rcases hp with rfl | rfl <;> simp [Place.run, Place.step, Place.step.stepWhole, hd, hrun]

/-- Behind whole digits or a fraction, an exponent with its mark and perhaps a sign. -/
theorem Place.run_mark {p : Place} (hp : p = .zero ∨ p = .whole ∨ p = .fraction) {mark : Char}
    (hmark : mark = 'e' ∨ mark = 'E') {sign ds : List Char}
    (hsign : sign = [] ∨ sign = ['+'] ∨ sign = ['-']) (hne : ds ≠ [])
    (hds : ∀ c ∈ ds, c.isDigit = true) : p.run (mark :: (sign ++ ds)) = some .exponent := by
  obtain ⟨d, rest, rfl⟩ := List.exists_cons_of_ne_nil hne
  obtain ⟨hd, hrest⟩ := List.forall_mem_cons.1 hds
  have hrun : Place.exponent.run rest = some .exponent := Place.run_digits (.inr (.inr rfl)) hrest
  have hstart : p.step mark = .go .mark := by
    rcases hp with rfl | rfl | rfl <;> rcases hmark with rfl | rfl <;> rfl
  have hsigned : Place.mark.run (sign ++ d :: rest) = some .exponent := by
    have hplus : d ≠ '+' := by
      rintro rfl
      simp at hd
    rcases hsign with rfl | rfl | rfl <;>
      simp [Place.run, Place.step, hd, hrun, hplus, ne_minus_of_isDigit hd]
  rw [Place.run, hstart]
  exact hsigned

/-- The digits of a number other than zero do not begin with a zero. -/
theorem toDigits_eq_cons {n : Nat} (hn : 0 < n) :
    ∃ d ds, Nat.toDigits 10 n = d :: ds ∧ d ≠ '0' := by
  induction n using Nat.strongRecOn with
  | _ n ih =>
    by_cases hlt : n < 10
    · exact ⟨_, [], Nat.toDigits_of_lt_base hlt, by simp; omega⟩
    · obtain ⟨d, ds, hds, hd⟩ := ih (n / 10) (by omega) (by omega)
      exact ⟨d, ds ++ [Nat.digitChar (n % 10)],
        by rw [Nat.toDigits_of_base_le (by omega) (by omega), hds, List.cons_append], hd⟩

theorem isDigit_of_mem {n : Nat} {c : Char} (h : c ∈ Nat.toDigits 10 n) : c.isDigit = true :=
  Nat.isDigit_of_mem_toDigits (by omega) (by omega) h

/-- The place behind the digits of a natural number. -/
def Place.afterNat (n : Nat) : Place := if n = 0 then .zero else .whole

theorem run_sign_toDigits (n : Nat) : Place.sign.run (Nat.toDigits 10 n) = some (.afterNat n) := by
  by_cases hn : n = 0
  · subst hn
    rfl
  · obtain ⟨d, ds, hds, hd⟩ := toDigits_eq_cons (Nat.pos_of_ne_zero hn)
    have hdigit : ∀ c ∈ d :: ds, c.isDigit = true := fun c hc => isDigit_of_mem (hds ▸ hc)
    rw [hds, Place.run]
    simp only [Place.step, hd, hdigit d List.mem_cons_self, if_true, if_false]
    rw [Place.run_digits (.inl rfl) fun c hc => hdigit c (List.mem_cons_of_mem _ hc)]
    simp [Place.afterNat, hn]

theorem isUnsigned_toDigits (n : Nat) : IsUnsigned (Nat.toDigits 10 n) :=
  ⟨_, run_sign_toDigits n, by unfold Place.afterNat; split <;> rfl⟩

/-! ## The text of an integer -/

theorem toList_toString_natCast (n : Nat) : (toString (n : Int)).toList = Nat.toDigits 10 n :=
  Nat.toList_repr

theorem toList_toString_negSucc (n : Nat) :
    (toString (Int.negSucc n)).toList = '-' :: Nat.toDigits 10 (n + 1) := by
  show ("-" ++ Nat.repr (n + 1)).toList = _
  rw [String.toList_append, Nat.toList_repr]
  rfl

theorem isNumeral_toString (n : Int) : IsNumeral (toString n).toList := by
  cases n with
  | ofNat n =>
    rw [Int.ofNat_eq_natCast, toList_toString_natCast]
    exact (isUnsigned_toDigits n).isNumeral
  | negSucc n =>
    rw [toList_toString_negSucc]
    exact (isUnsigned_toDigits (n + 1)).neg

/-! ## The value of an integer -/

theorem ofDigits_digits_toDigits (n : Nat) : ofDigits (digits (Nat.toDigits 10 n)) = n := by
  have htake : (Nat.toDigits 10 n).takeWhile Char.isDigit = Nat.toDigits 10 n :=
    List.takeWhile_eq_self_iff.2 fun c hc => isDigit_of_mem hc
  calc ofDigits (digits (Nat.toDigits 10 n))
      = Nat.ofDigitChars 10 (Nat.toDigits 10 n) 0 := by
        simp [ofDigits, digits, htake, List.foldl_map, Nat.ofDigitChars, Nat.mul_comm]
    _ = n := Nat.ofDigitChars_ten_toDigits

theorem afterDigits_toDigits (n : Nat) : afterDigits (Nat.toDigits 10 n) = [] :=
  List.dropWhile_eq_nil_iff.2 fun _ hc => isDigit_of_mem hc

theorem unsigned_toDigits (n : Nat) : unsigned (Nat.toDigits 10 n) = Nat.toDigits 10 n := by
  unfold unsigned
  split
  · next rest h =>
    have : ('-' : Char).isDigit = true := isDigit_of_mem (n := n) (by simp [h])
    simp at this
  · rfl

theorem ofText_toDigits (n : Nat) :
    ofText (Nat.toDigits 10 n) = ⟨false, digits (Nat.toDigits 10 n), [], none⟩ := by
  have hhead : ((Nat.toDigits 10 n).head? == some '-') = false := by
    cases hds : Nat.toDigits 10 n with
    | nil => rfl
    | cons d ds =>
      have hd : d.isDigit = true := isDigit_of_mem (n := n) (by simp [hds])
      simp [ne_minus_of_isDigit hd]
  simp [ofText, unsigned_toDigits, afterDigits_toDigits, hhead, afterWhole, exponentOf]

theorem ofText_minus_toDigits (n : Nat) :
    ofText ('-' :: Nat.toDigits 10 n) = ⟨true, digits (Nat.toDigits 10 n), [], none⟩ := by
  simp [ofText, unsigned, afterDigits_toDigits, afterWhole, exponentOf]

/-- The text of an integer of 64 bits, with or without a sign, denotes it. -/
theorem integer?_ofText_toString {n : Int} (hmin : -2 ^ 63 ≤ n) (hmax : n < 2 ^ 64) :
    (ofText (toString n).toList).integer? = some n := by
  cases n with
  | ofNat n =>
    rw [Int.ofNat_eq_natCast] at hmax
    have hn : n < 2 ^ 64 := by omega
    rw [Int.ofNat_eq_natCast, toList_toString_natCast, ofText_toDigits]
    simp only [integer?, ofDigits_digits_toDigits]
    rw [if_neg Bool.false_ne_true, if_pos hn]
  | negSucc n =>
    have hn : 0 < n + 1 ∧ n + 1 ≤ 2 ^ 63 := by omega
    rw [toList_toString_negSucc, ofText_minus_toDigits]
    simp only [integer?, ofDigits_digits_toDigits]
    rw [if_pos trivial, if_pos hn, Int.negSucc_eq, Int.natCast_add, Int.natCast_one]

end Numeral

/-! ## Numbers are tokens -/

namespace Token

open Numeral

/-- Does a blank, a comma, a closing bracket or nothing stand at the beginning of a text? -/
def Closes (rest : List Char) : Prop :=
  ∀ c ∈ rest.head?, isBlank c = true ∨ c = ',' ∨ c = ']' ∨ c = '\x7d'

theorem closes_nil : Closes [] := by
  simp [Closes]

theorem closes_cons {c : Char} (hc : c = ',' ∨ c = ']' ∨ c = '\x7d') (rest : List Char) :
    Closes (c :: rest) := by
  simpa [Closes] using .inr hc

theorem scan_number_run {p q : Place} {text : List Char} (h : p.run text = some q)
    (before rest : List Char) :
    scan (.number before p) (text ++ rest) = scan (.number (text.reverse ++ before) q) rest := by
  induction text generalizing p before with
  | nil =>
    obtain rfl : p = q := by simpa [Place.run] using h
    rfl
  | cons c text ih =>
    rw [Place.run] at h
    cases hstep : p.step c with
    | go p' =>
      rw [hstep] at h
      rw [List.cons_append, scan_cons]
      simp only [Pending.step, hstep, List.nil_append]
      rw [ih h]
      simp
    | ended => simp [hstep] at h
    | wrong => simp [hstep] at h

theorem start_of_start? {c : Char} {p : Place} (h : Place.start? c = some p) :
    start c = ([], .number [c] p) := by
  have hne : c = '-' ∨ c.isDigit = true := by
    unfold Place.start? at h
    split at h
    · exact .inl ‹_›
    split at h
    · next h0 => exact .inr (by simp [h0])
    split at h
    · exact .inr ‹_›
    · simp at h
  unfold start
  rw [h]
  rcases hne with rfl | hd
  · simp [isBlank]
  · have hother : ∀ x : Char, x.isDigit = false → c ≠ x := by
      rintro x hx rfl
      simp [hx] at hd
    simp [isBlank, hother]

/-- A number is one token when it is followed by what may follow a value. -/
theorem scan_numeral {text rest : List Char} (h : IsNumeral text) (hrest : Closes rest) :
    scan .nothing (text ++ rest) = .number text :: scan .nothing rest := by
  obtain ⟨q, hplace, hfinal⟩ := h
  cases text with
  | nil => simp [placeAfter] at hplace
  | cons c text =>
    obtain ⟨p, hp, hrun⟩ := Option.bind_eq_some_iff.1 hplace
    rw [List.cons_append, scan_cons]
    simp only [Pending.step, start_of_start? hp, List.nil_append]
    rw [scan_number_run hrun]
    cases rest with
    | nil => simp [scan, Pending.finish, hfinal]
    | cons r rest =>
      have hended : q.step r = .ended := by
        have hr := hrest r rfl
        simp only [isBlank, Bool.or_eq_true, decide_eq_true_eq, or_assoc] at hr
        rcases hr with rfl | rfl | rfl | rfl | rfl | rfl | rfl <;> cases q <;>
          first | rfl | simp [Place.isFinal] at hfinal
      rw [scan_cons, scan_cons]
      simp [Pending.step, hended, endedBy]

end Token

end SqlTree.Json
