import SqlTree.Node
import SqlTree.Proofs.Json.Alone
import SqlTree.Proofs.Json.Depth
import SqlTree.Proofs.Storage.Plain
import SqlTree.Proofs.Storage.ReadBack

/-!
# Identifiers in stored trees

`SpelledString s t` says that the text `t` spells the characters of `s` between quotes: as they are,
by short escapes, or by the hexadecimal digits of their 16-bit units, two of them for a surrogate
pair. A text is read as an identifier just if it spells one, with blanks around it, and is stored as
such a text; so no character of an identifier is ever lost or changed (`Ident.read_spelled`).

What is stored has no control characters (`Document.isLine_print`), so every stored tree is one line.
-/

namespace SqlTree

open Json

/-! ## Characters -/

namespace Json

/-- The escape of a 16-bit unit: four hexadecimal digits. -/
def IsEscape (u : Nat) (t : List Char) : Prop :=
  ∃ w x y z a b c d, IsHexDigit w a ∧ IsHexDigit x b ∧ IsHexDigit y c ∧ IsHexDigit z d
    ∧ u = ((w * 16 + x) * 16 + y) * 16 + z ∧ t = ['\\', 'u', a, b, c, d]

/-- What stands between quotes for a sequence of characters. -/
inductive SpelledChars : List Char → List Char → Prop where
  | nil : SpelledChars [] []
  | plain {cs t : List Char} (c : Char) (hc : 0x20 ≤ c.toNat ∧ c ≠ '\x22' ∧ c ≠ '\\')
    (h : SpelledChars cs t) : SpelledChars (c :: cs) (c :: t)
  | short {cs t : List Char} (letter c : Char) (hc : (letter, c) ∈ shortEscapes)
    (h : SpelledChars cs t) : SpelledChars (c :: cs) ('\\' :: letter :: t)
  /-- a unit that is no surrogate -/
  | unit {cs t escape : List Char} {u : Nat} (hu : u < 0xD800 ∨ 0xDFFF < u)
    (hescape : IsEscape u escape) (h : SpelledChars cs t) :
    SpelledChars (Char.ofNat u :: cs) (escape ++ t)
  /-- a high surrogate and a low one -/
  | pair {cs t first second : List Char} {high low : Nat} (hhigh : 0xD800 ≤ high ∧ high ≤ 0xDBFF)
    (hlow : 0xDC00 ≤ low ∧ low ≤ 0xDFFF) (hfirst : IsEscape high first)
    (hsecond : IsEscape low second) (h : SpelledChars cs t) :
    SpelledChars (Char.ofNat (0x10000 + (high - 0xD800) * 0x400 + (low - 0xDC00)) :: cs)
      (first ++ (second ++ t))

/-- A text between quotes. -/
def SpelledString (s : String) (t : List Char) : Prop :=
  ∃ body, SpelledChars s.toList body ∧ t = '\x22' :: (body ++ ['\x22'])

theorem IsEscape.spelledUnits {u : Nat} {t : List Char} (h : IsEscape u t) {us : List Nat}
    {rest : List Char} (hrest : SpelledUnits us rest) : SpelledUnits (u :: us) (t ++ rest) := by
  obtain ⟨w, x, y, z, a, b, c, d, ha, hb, hc, hd, rfl, rfl⟩ := h
  exact .unit ha hb hc hd hrest

namespace SpelledChars

open Quoted

/-- Spelled characters are spelled units that denote them. -/
theorem exists_units {cs t : List Char} (h : SpelledChars cs t) :
    ∃ us, SpelledUnits us t ∧ decodeUnits us = some cs := by
  induction h with
  | nil => exact ⟨[], .nil, rfl⟩
  | plain c hc h ih =>
    obtain ⟨us, hus, hcs⟩ := ih
    exact ⟨charUnits c ++ us, .plain c hc hus, by rw [decodeUnits_charUnits, hcs]; rfl⟩
  | short letter c hc h ih =>
    obtain ⟨us, hus, hcs⟩ := ih
    exact ⟨charUnits c ++ us, .short letter c hc hus, by rw [decodeUnits_charUnits, hcs]; rfl⟩
  | @unit cs t escape u hu hescape h ih =>
    obtain ⟨us, hus, hcs⟩ := ih
    have hlow : isLow u = false := by simp only [isLow, decide_eq_false_iff_not]; omega
    have hhigh : isHigh u = false := by simp only [isHigh, decide_eq_false_iff_not]; omega
    exact ⟨u :: us, hescape.spelledUnits hus, by rw [decodeUnits_single hlow hhigh, hcs]; rfl⟩
  | @pair cs t first second high low hhigh hlow hfirst hsecond h ih =>
    obtain ⟨us, hus, hcs⟩ := ih
    refine ⟨high :: low :: us, hfirst.spelledUnits (hsecond.spelledUnits hus), ?_⟩
    rw [decodeUnits_pair (decide_eq_true hhigh) (decide_eq_true hlow), hcs]
    rfl


/-- Spelled units that denote characters spell these. A high surrogate waits for the low one, so what
stands behind one is followed as well. -/
theorem of_units {us : List Nat} {t : List Char} (h : SpelledUnits us t) :
    (∀ {cs}, decodeUnits us = some cs → SpelledChars cs t)
    ∧ ∀ {high first cs}, isHigh high = true → IsEscape high first →
      decodeUnits (high :: us) = some cs → SpelledChars cs (first ++ t) := by
  -- no low surrogate comes first where a character is not escaped by its units
  have hlone {c : Char} {us : List Nat} {high : Nat} {cs : List Char} (hhigh : isHigh high = true)
      (h : decodeUnits (high :: (charUnits c ++ us)) = some cs) : False := by
    rw [decodeUnits_unpaired hhigh (isLow_head_charUnits c us)] at h
    cases h
  have hchar {c : Char} {us : List Nat} {cs : List Char}
      (h : decodeUnits (charUnits c ++ us) = some cs) :
      ∃ rest, decodeUnits us = some rest ∧ c :: rest = cs := by
    rw [decodeUnits_charUnits] at h
    exact Option.map_eq_some_iff.1 h
  induction h with
  | nil =>
    refine ⟨fun hcs => ?_, fun hhigh _ hcs => ?_⟩
    · cases hcs
      exact .nil
    · rw [decodeUnits_unpaired hhigh (by simp)] at hcs
      cases hcs
  | plain c hc h ih =>
    refine ⟨fun hcs => ?_, fun hhigh _ hcs => (hlone hhigh hcs).elim⟩
    obtain ⟨rest, hrest, rfl⟩ := hchar hcs
    exact .plain c hc (ih.1 hrest)
  | short letter c hc h ih =>
    refine ⟨fun hcs => ?_, fun hhigh _ hcs => (hlone hhigh hcs).elim⟩
    obtain ⟨rest, hrest, rfl⟩ := hchar hcs
    exact .short letter c hc (ih.1 hrest)
  | @unit us t w x y z a b c d ha hb hc hd h ih =>
    have hescape : IsEscape (((w * 16 + x) * 16 + y) * 16 + z) ['\\', 'u', a, b, c, d] :=
      ⟨w, x, y, z, a, b, c, d, ha, hb, hc, hd, rfl, rfl⟩
    generalize ((w * 16 + x) * 16 + y) * 16 + z = u at hescape
    refine ⟨fun hcs => ?_, fun hhigh hfirst hcs => ?_⟩
    · by_cases hlow : isLow u = true
      · rw [decodeUnits_low hlow] at hcs
        cases hcs
      by_cases hhigh : isHigh u = true
      · exact ih.2 hhigh hescape hcs
      · rw [Bool.not_eq_true] at hlow hhigh
        rw [decodeUnits_single hlow hhigh] at hcs
        obtain ⟨rest, hrest, rfl⟩ := Option.map_eq_some_iff.1 hcs
        have hu : u < 0xD800 ∨ 0xDFFF < u := by
          simp only [isLow, isHigh, decide_eq_false_iff_not] at hlow hhigh
          omega
        exact .unit hu hescape (ih.1 hrest)
    · by_cases hlow : isLow u = true
      · rw [decodeUnits_pair hhigh hlow] at hcs
        obtain ⟨rest, hrest, rfl⟩ := Option.map_eq_some_iff.1 hcs
        exact .pair (of_decide_eq_true hhigh) (of_decide_eq_true hlow) hfirst hescape (ih.1 hrest)
      · have hhead : ∀ v ∈ (u :: us).head?, isLow v = false := by simpa using hlow
        rw [decodeUnits_unpaired hhigh hhead] at hcs
        cases hcs

end SpelledChars

/-- A text spells characters just if it spells units that denote them. -/
theorem spelledChars_iff {cs t : List Char} :
    SpelledChars cs t ↔ ∃ us, SpelledUnits us t ∧ Quoted.decodeUnits us = some cs :=
  ⟨SpelledChars.exists_units, fun ⟨_, hus, hcs⟩ => (SpelledChars.of_units hus).1 hcs⟩

theorem spelledString_iff {s : String} {t : List Char} :
    SpelledString s t ↔ ∃ us, SpelledText us t ∧ Quoted.decodeUnits us = some s.toList := by
  simp only [SpelledString, SpelledText, spelledChars_iff]
  constructor
  · rintro ⟨body, ⟨us, hus, hs⟩, rfl⟩
    exact ⟨us, ⟨body, hus, rfl⟩, hs⟩
  · rintro ⟨us, ⟨body, hus, rfl⟩, hs⟩
    exact ⟨body, ⟨us, hus, hs⟩, rfl⟩

end Json

/-! ## Reading -/

/-- A quoted text denotes what its units stand for, if it has its closing quote. -/
theorem Json.Quoted.decode_eq_ok_iff {q : Quoted} {s : String} :
    q.decode = .ok s ↔ q.ending = .closed ∧ decodeUnits q.units = some s.toList := by
  have hlist (x : Option (List Char)) : x.map String.ofList = some s ↔ x = some s.toList := by
    rw [Option.map_eq_some_iff]
    constructor
    · rintro ⟨cs, rfl, rfl⟩
      rw [String.toList_ofList]
    · rintro rfl
      exact ⟨s.toList, rfl, String.ofList_toList⟩
  rw [← toOption_eq_some, q.toOption_decode, hlist]
  cases q.ending <;> simp [Ending.check, Except.toOption]

namespace Ident

/-- Nothing but a quoted text is read as an identifier. -/
theorem read_part_eq_ok_iff {p : Part} {n : Nat} {i : Ident} :
    p.read n Kind.ident.layout = .ok i
      ↔ ∃ q : Quoted, p = .token (.quoted q) ∧ q.decode = .ok i.text := by
  constructor
  · intro h
    cases p with
    | list items ending => cases h
    | object members ending => cases h
    | token t =>
      cases t with
      | quoted q =>
        obtain ⟨s, hs, rfl⟩ := map_eq_ok.1 (show q.decode.map Ident.mk = .ok i from h)
        exact ⟨q, rfl, hs⟩
      | _ => cases h
  · rintro ⟨q, rfl, hq⟩
    show q.decode.map Ident.mk = .ok i
    rw [hq]
    rfl

/-- A text is read as an identifier just if it spells it. -/
theorem read_eq_ok_iff {text : String} {i : Ident} :
    Kind.ident.read text = .ok i ↔ ∃ t, SpelledString i.text t ∧ Padded t text.toList := by
  rw [Kind.read_eq_ok_iff]
  constructor
  · rintro ⟨p, houtline, hread⟩
    obtain ⟨q, rfl, hdecode⟩ := read_part_eq_ok_iff.1 hread
    obtain ⟨hclosed, hunits⟩ := Quoted.decode_eq_ok_iff.1 hdecode
    obtain ⟨t, ht, hpad⟩ := Outline.exists_spelledText hclosed houtline
    exact ⟨t, spelledString_iff.2 ⟨q.units, ht, hunits⟩, hpad⟩
  · rintro ⟨t, hstring, hpad⟩
    obtain ⟨us, ht, hunits⟩ := spelledString_iff.1 hstring
    obtain ⟨p, hp, houtline⟩ := Outline.ofText_isText (v := .text us) ⟨t, .text ht, hpad⟩
    have hdecode : (Quoted.ofUnits us).decode = .ok i.text := by
      refine Quoted.decode_eq_ok_iff.2 ⟨rfl, ?_⟩
      have hus : (Quoted.ofUnits us).units = us := by
        simp [Quoted.ofUnits, Quoted.units, List.flatMap_map, Piece.units]
      rw [hus, hunits]
    refine ⟨p, houtline, ?_⟩
    -- how the characters are escaped in `p` does not matter
    rw [← toOption_eq_some, ← Part.toOption_read_plain p (Kind.legible .ident), hp,
      toOption_eq_some]
    exact read_part_eq_ok_iff.2 ⟨.ofUnits us, rfl, hdecode⟩

end Ident

/-! ## Storing -/

namespace Json

/-- No character below the blank, so no line ends. -/
def IsLine (t : List Char) : Prop := ∀ c ∈ t, 0x20 ≤ c.toNat

namespace IsLine

theorem nil : IsLine [] := fun _ h => absurd h List.not_mem_nil

theorem cons {c : Char} {t : List Char} (hc : 0x20 ≤ c.toNat) (h : IsLine t) : IsLine (c :: t) :=
  List.forall_mem_cons.2 ⟨hc, h⟩

theorem append {s t : List Char} (hs : IsLine s) (ht : IsLine t) : IsLine (s ++ t) :=
  List.forall_mem_append.2 ⟨hs, ht⟩

end IsLine

theorem IsEscape.isLine {u : Nat} {t : List Char} (h : IsEscape u t) : IsLine t := by
  have hdigit {v : Nat} {c : Char} (hc : IsHexDigit v c) : 0x20 ≤ c.toNat := by
    have hall : ∀ v < 16, 0x20 ≤ (Nat.digitChar v).toNat ∧ 0x20 ≤ (Nat.digitChar v).toUpper.toNat := by
      decide
    obtain ⟨hv, rfl | rfl⟩ := hc
    · exact (hall v hv).1
    · exact (hall v hv).2
  obtain ⟨w, x, y, z, a, b, c, d, ha, hb, hc, hd, -, rfl⟩ := h
  exact .cons (by decide) (.cons (by decide)
    (.cons (hdigit ha) (.cons (hdigit hb) (.cons (hdigit hc) (.cons (hdigit hd) .nil)))))

/-- Whatever is spelled between quotes stands on one line. -/
theorem SpelledChars.isLine {cs t : List Char} (h : SpelledChars cs t) : IsLine t := by
  induction h with
  | nil => exact .nil
  | plain c hc h ih => exact .cons hc.1 ih
  | short letter c hc h ih =>
    have hall : ∀ p ∈ shortEscapes, 0x20 ≤ p.1.toNat := by decide
    exact .cons (by decide) (.cons (hall _ hc) ih)
  | unit hu hescape h ih => exact hescape.isLine.append ih
  | pair hhigh hlow hfirst hsecond h ih => exact hfirst.isLine.append (hsecond.isLine.append ih)

theorem SpelledString.isLine {s : String} {t : List Char} (h : SpelledString s t) : IsLine t := by
  obtain ⟨body, hbody, rfl⟩ := h
  exact .cons (by decide) (hbody.isLine.append (.cons (by decide) .nil))

/-- A character is spelled by its escape. -/
theorem SpelledChars.escape (c : Char) {cs t : List Char} (h : SpelledChars cs t) :
    SpelledChars (c :: cs) (Quoted.escape c ++ t) := by
  unfold Quoted.escape
  split_ifs with hsame h8 hc hn hr ht hcontrol
  · rcases hsame with rfl | rfl <;> exact .short _ _ (by decide) h
  · exact .short 'b' c (by rw [h8]; decide) h
  · exact .short 'f' c (by rw [hc]; decide) h
  · exact .short 'n' c (by rw [hn]; decide) h
  · exact .short 'r' c (by rw [hr]; decide) h
  · exact .short 't' c (by rw [ht]; decide) h
  · have hlt : c.toNat < 0x20 := of_decide_eq_true hcontrol
    have hescape : IsEscape c.toNat
        ['\\', 'u', '0', '0', Nat.digitChar (c.toNat / 16), Nat.digitChar (c.toNat % 16)] :=
      ⟨0, 0, c.toNat / 16, c.toNat % 16, _, _, _, _, ⟨by decide, .inl rfl⟩, ⟨by decide, .inl rfl⟩,
        ⟨by omega, .inl rfl⟩, ⟨by omega, .inl rfl⟩, by omega, rfl⟩
    have hunit := SpelledChars.unit (.inl (by omega)) hescape h
    rwa [Char.ofNat_toNat] at hunit
  · rw [not_or] at hsame
    have hplain : 0x20 ≤ c.toNat := by simpa [Quoted.isControl] using hcontrol
    exact .plain c ⟨hplain, hsame.1, hsame.2⟩ h

/-- A text is spelled by its quotation. -/
theorem spelledString_quote (s : String) : SpelledString s (Quoted.quote s) := by
  have hbody (cs : List Char) : SpelledChars cs (cs.flatMap Quoted.escape) := by
    induction cs with
    | nil => exact .nil
    | cons c rest ih => exact .escape c ih
  exact ⟨_, hbody s.toList, rfl⟩

/-! ## Lines -/

theorem Numeral.le_of_step {p q : Place} {c : Char} (h : p.step c = .go q) : 0x20 ≤ c.toNat := by
  by_contra hlt
  have hne (d : Char) (hd : 0x20 ≤ d.toNat) : c ≠ d := by
    rintro rfl
    exact hlt hd
  have hdigit : c.isDigit = false := by
    refine Bool.eq_false_iff.2 fun hdigit => hlt ?_
    simp only [Char.isDigit, Bool.and_eq_true, decide_eq_true_eq] at hdigit
    have hzero : 48 ≤ c.toNat := hdigit.1
    omega
  cases p <;> simp [Place.step, Place.step.stepWhole, Place.step.stepFraction, hdigit,
    hne '0' (by decide), hne '.' (by decide), hne 'e' (by decide), hne 'E' (by decide),
    hne '+' (by decide), hne '-' (by decide)] at h

theorem Numeral.IsNumeral.isLine {t : List Char} (h : IsNumeral t) : IsLine t :=
  h.forall_mem le_of_step (by decide)

namespace Document

theorem isLine_stored (x : Double) : IsLine x.stored.toList := by
  by_cases hx : x.isFinite = true
  · exact (Double.isNumeral_stored hx).isLine
  · rw [Double.stored, if_neg hx]
    simp [IsLine]

theorem isLine_commas : ∀ {ts : List (List Char)}, (∀ t ∈ ts, IsLine t) → IsLine (commas ts)
  | [], _ => .nil
  | [t], h => h t List.mem_cons_self
  | t :: u :: rest, h => by
    obtain ⟨ht, hrest⟩ := List.forall_mem_cons.1 h
    exact ht.append (.cons (by decide) (isLine_commas hrest))

mutual

/-- A document is printed on one line. -/
theorem isLine_print : ∀ d : Document, IsLine d.print
  | .null | .boolean true | .boolean false => by simp [print, IsLine]
  | .integer n => (Numeral.isNumeral_toString n).isLine
  | .double x => isLine_stored x
  | .text s => (spelledString_quote s).isLine
  | .list items =>
    .cons (by decide) ((isLine_commas (isLine_printItems items)).append (.cons (by decide) .nil))
  | .object members =>
    .cons (by decide)
      ((isLine_commas (isLine_printMembers members)).append (.cons (by decide) .nil))

theorem isLine_printItems : ∀ (items : List Document), ∀ t ∈ printItems items, IsLine t
  | [] => fun _ h => absurd h List.not_mem_nil
  | d :: rest => List.forall_mem_cons.2 ⟨isLine_print d, isLine_printItems rest⟩

theorem isLine_printMembers :
    ∀ (members : List (String × Document)), ∀ t ∈ printMembers members, IsLine t
  | [] => fun _ h => absurd h List.not_mem_nil
  | (name, d) :: rest => by
    have hmember : IsLine (Quoted.quote name ++ ':' :: d.print) :=
      (spelledString_quote name).isLine.append (.cons (by decide) (isLine_print d))
    exact List.forall_mem_cons.2 ⟨hmember, isLine_printMembers rest⟩

end

end Document

end Json

/-! ## Identifiers and lines -/

/-- **An identifier is read and stored character by character.** A text is read as an identifier just
if it is a spelling of it between quotes, with blanks around it. Every identifier is stored as such a
spelling, without control characters; and so every stored tree is one line. -/
theorem Ident.read_spelled :
    (∀ (text : String) (i : Ident),
      Kind.ident.read text = .ok i ↔ ∃ t, SpelledString i.text t ∧ Padded t text.toList)
    ∧ (∀ i : Ident, SpelledString i.text (Kind.ident.stored i).toList
      ∧ IsLine (Kind.ident.stored i).toList)
    ∧ ∀ n : Node, IsLine n.stored.toList := by
  have hline (n : Node) : IsLine n.stored.toList := by
    rw [Node.stored, Kind.stored, String.toList_ofList]
    exact Document.isLine_print _
  refine ⟨fun text i => read_eq_ok_iff, fun i => ⟨?_, hline ⟨.ident, i⟩⟩, hline⟩
  rw [Kind.stored, String.toList_ofList]
  exact spelledString_quote i.text

/-- A surrogate pair in digits of either case, a slash behind a backslash and a plain letter, with
blanks around the quotes; and a line end that is stored as an escape. -/
theorem Ident.read_spelled_pair :
    Kind.ident.read " \"\\ud83D\\uDE00\\/é\"\n" = .ok ⟨"😀/é"⟩
    ∧ SpelledString "\n😀" (Kind.ident.stored ⟨"\n😀"⟩).toList
    ∧ IsLine (Kind.ident.stored ⟨"\n😀"⟩).toList := by
  have hhigh : IsEscape 0xD83D ['\\', 'u', 'd', '8', '3', 'D'] :=
    ⟨13, 8, 3, 13, 'd', '8', '3', 'D', ⟨by decide, .inl rfl⟩, ⟨by decide, .inl rfl⟩,
      ⟨by decide, .inl rfl⟩, ⟨by decide, .inr rfl⟩, rfl, rfl⟩
  have hlow : IsEscape 0xDE00 ['\\', 'u', 'D', 'E', '0', '0'] :=
    ⟨13, 14, 0, 0, 'D', 'E', '0', '0', ⟨by decide, .inr rfl⟩, ⟨by decide, .inr rfl⟩,
      ⟨by decide, .inl rfl⟩, ⟨by decide, .inl rfl⟩, rfl, rfl⟩
  have hsmile : Char.ofNat (0x10000 + (0xD83D - 0xD800) * 0x400 + (0xDE00 - 0xDC00)) = '😀' := by
    decide
  have hrest : SpelledChars ['/', 'é'] ['\\', '/', 'é'] :=
    .short '/' '/' (by decide) (.plain 'é' (by decide) .nil)
  have hchars := SpelledChars.pair (by decide) (by decide) hhigh hlow hrest
  rw [hsmile] at hchars
  obtain ⟨hread, hstored, -⟩ := Ident.read_spelled
  exact ⟨(hread _ _).2 ⟨_, ⟨_, hchars, rfl⟩, [' '], ['\n'], by decide, by decide, by decide⟩,
    hstored ⟨"\n😀"⟩⟩

end SqlTree
