import SqlTree.Json.Token

/-!
# Quoted texts read back

`Quoted.ofText s` holds the pieces that a reader finds between the quotes around `s`, one for each
character. Reading `quote s` finds just these (`scan_quote`), and they denote `s` (`decode_ofText`),
whatever characters `s` has.
-/

namespace SqlTree.Json

namespace Quoted

/-- The controls that have a short escape. -/
def isNamedControl (c : Char) : Bool :=
  c = '\x08' || c = '\x0c' || c = '\n' || c = '\r' || c = '\t'

/-- The piece that a character is written as. -/
def piece (c : Char) : Piece :=
  if isControl c && !isNamedControl c then .unit c.toNat else .char c

/-- What stands between the quotes around a text. -/
def ofText (s : String) : Quoted := ⟨s.toList.map piece, .closed⟩

/-! ## The pieces denote the text -/

/-- A unit that is no surrogate denotes its character, whatever follows. -/
theorem decodePieces_unit {code : Nat} (hlow : isLow code = false) (hhigh : isHigh code = false)
    (ending : Ending) (rest : List Piece) :
    decodePieces ending (.unit code :: rest)
      = (decodePieces ending rest).map (Char.ofNat code :: ·) := by
  rw [decodePieces.eq_def]
  simp [hlow, hhigh]

theorem decodePieces_map_piece (cs : List Char) :
    decodePieces .closed (cs.map piece) = .ok cs := by
  induction cs with
  | nil => rfl
  | cons c rest ih =>
    rw [List.map_cons, piece]
    split
    · next hc =>
      have hlt : c.toNat < 0x20 := by simpa [isControl] using (Bool.and_eq_true_iff.1 hc).1
      have hlow : isLow c.toNat = false := by simp [isLow]; omega
      have hhigh : isHigh c.toNat = false := by simp [isHigh]; omega
      simp [decodePieces_unit hlow hhigh, ih, Except.map]
    · simp [decodePieces, ih, Except.map]

@[simp] theorem decode_ofText (s : String) : (ofText s).decode = .ok s := by
  simp [decode, ofText, decodePieces_map_piece, Except.map]

/-! ## The pieces are found -/

/-- The two hexadecimal digits of a control are read as its code. -/
theorem hexValue?_digitChar : ∀ d, d < 16 → hexValue? (Nat.digitChar d) = some d := by
  decide

theorem utf8Size_digitChar : ∀ d, d < 16 → (Nat.digitChar d).utf8Size = 1 := by
  decide

end Quoted

namespace Token

open Quoted

theorem scan_cons (pending : Pending) (c : Char) (rest : List Char) :
    scan pending (c :: rest) = (pending.step c).1 ++ scan (pending.step c).2 rest := rfl

theorem scan_escape (before : List Piece) (c : Char) (rest : List Char) :
    scan (.quoted before .plain) (escape c ++ rest)
      = scan (.quoted (piece c :: before) .plain) rest := by
  unfold escape
  split
  · next h => rcases h with rfl | rfl <;> rfl
  split
  · next h => subst h; rfl
  split
  · next h => subst h; rfl
  split
  · next h => subst h; rfl
  split
  · next h => subst h; rfl
  split
  · next h => subst h; rfl
  next hquote h8 hc hn hr ht =>
  have hnamed : isNamedControl c = false := by simp [isNamedControl, h8, hc, hn, hr, ht]
  split
  · next hcontrol =>
    have hlt : c.toNat < 0x20 := by simpa [isControl] using hcontrol
    have hhigh := hexValue?_digitChar (c.toNat / 16) (by omega)
    have hlow := hexValue?_digitChar (c.toNat % 16) (by omega)
    have hsize := utf8Size_digitChar (c.toNat / 16) (by omega)
    have hsize' := utf8Size_digitChar (c.toNat % 16) (by omega)
    have hcode : c.toNat / 16 * 16 + c.toNat % 16 = c.toNat := by omega
    have hzero : hexValue? '0' = some 0 := rfl
    have hzero' : ('0' : Char).utf8Size = 1 := rfl
    simp [scan, Pending.step, Place.step, hhigh, hlow, hsize, hsize', hzero, hzero', hcode, piece,
      hcontrol, hnamed]
  · next hcontrol =>
    have hq : c ≠ '\x22' := fun h => hquote (.inl h)
    have hb : c ≠ '\\' := fun h => hquote (.inr h)
    simp [scan, Pending.step, Place.step, hq, hb, hcontrol, piece]

theorem scan_flatMap_escape (cs : List Char) (before : List Piece) (rest : List Char) :
    scan (.quoted before .plain) (cs.flatMap escape ++ rest)
      = scan (.quoted ((cs.map piece).reverse ++ before) .plain) rest := by
  induction cs generalizing before with
  | nil => rfl
  | cons c cs ih =>
    rw [List.flatMap_cons, List.append_assoc, scan_escape, ih]
    simp

/-- A quoted text is one token, and the reader goes on behind its closing quote. -/
theorem scan_quote (s : String) (rest : List Char) :
    scan .nothing (quote s ++ rest) = .quoted (.ofText s) :: scan .nothing rest := by
  have hopen : Pending.step .nothing '\x22' = ([], .quoted [] .plain) := rfl
  have hclose (before : List Piece) : Pending.step (.quoted before .plain) '\x22'
      = ([.quoted ⟨before.reverse, .closed⟩], .nothing) := rfl
  rw [quote, List.cons_append, List.append_assoc, scan_cons, hopen, List.nil_append,
    scan_flatMap_escape, List.singleton_append, scan_cons, hclose]
  simp [Quoted.ofText]

end Token

end SqlTree.Json
