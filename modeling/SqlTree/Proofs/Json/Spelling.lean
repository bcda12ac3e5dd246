import SqlTree.Proofs.Json.Document
import SqlTree.Proofs.Json.Grammar

/-!
# The outline of a spelled text

A text that spells a value has one part as its outline. Which one depends on how its characters are
spelled, so it is compared in its plain form, where every quoted text is given by its 16-bit units:
that form is `Value.part`, a function of the value alone (`Outline.ofText_isText`).

The proof goes through the text from left to right. `Outline.run` reads on at some level of nesting;
behind blanks it is where it was, and behind a spelled value there is one more part.
-/

namespace SqlTree.Json

/-! ## Plain parts -/

def Piece.units : Piece → List Nat
  | .char c => charUnits c
  | .unit code => [code]

/-- The units that a quoted text stands for. -/
def Quoted.units (q : Quoted) : List Nat := q.pieces.flatMap Piece.units

/-- The quoted text whose pieces are all units. -/
def Quoted.plain (q : Quoted) : Quoted := ⟨q.units.map .unit, q.ending⟩

def Token.plain : Token → Token
  | .quoted q => .quoted q.plain
  | t => t

mutual

/-- The part in which every quoted text is given by its units. -/
def Part.plain : Part → Part
  | .token t => .token t.plain
  | .list items ending => .list (Part.plainItems items) ending
  | .object members ending => .object (Part.plainMembers members) ending

def Part.plainItems : List Part → List Part
  | [] => []
  | p :: rest => p.plain :: Part.plainItems rest

def Part.plainMembers : List (Key × Part) → List (Key × Part)
  | [] => []
  | (key, p) :: rest => (key.map Quoted.plain, p.plain) :: Part.plainMembers rest

end

/-- The quoted text of these units. -/
def Quoted.ofUnits (us : List Nat) : Quoted := ⟨us.map .unit, .closed⟩

mutual

/-- The plain part of a value. -/
def Value.part : Value → Part
  | .null => .token (.word .null)
  | .boolean b => .token (.word (.boolean b))
  | .number t => .token (.number t)
  | .text us => .token (.quoted (.ofUnits us))
  | .list items => .list (Value.itemParts items) .closed
  | .object members => .object (Value.memberParts members) .closed

def Value.itemParts : List Value → List Part
  | [] => []
  | v :: rest => v.part :: Value.itemParts rest

def Value.memberParts : List (List Nat × Value) → List (Key × Part)
  | [] => []
  | (name, v) :: rest => (some (.ofUnits name), v.part) :: Value.memberParts rest

end

/-! ## Numbers -/

theorem IsWhole.run {t : List Char} (h : IsWhole t) :
    ∃ p : Numeral.Place, (p = .zero ∨ p = .whole) ∧ Numeral.Place.sign.run t = some p := by
  rcases h with rfl | ⟨⟨hne, hdigits⟩, hzero⟩
  · exact ⟨.zero, .inl rfl, rfl⟩
  · obtain ⟨d, ds, rfl⟩ := List.exists_cons_of_ne_nil hne
    obtain ⟨hd, hds⟩ := List.forall_mem_cons.1 hdigits
    have hd0 : d ≠ '0' := by simpa using hzero
    refine ⟨.whole, .inr rfl, ?_⟩
    simp only [Numeral.Place.run, Numeral.Place.step, hd0, hd, if_true, if_false]
    exact Numeral.Place.run_digits (.inl rfl) hds

theorem IsFraction.run {t : List Char} (h : IsFraction t) {p : Numeral.Place}
    (hp : p = .zero ∨ p = .whole) :
    ∃ q : Numeral.Place, (q = .zero ∨ q = .whole ∨ q = .fraction) ∧ p.run t = some q := by
  rcases h with rfl | ⟨ds, ⟨hne, hds⟩, rfl⟩
  · exact ⟨p, hp.imp_right .inl, rfl⟩
  · exact ⟨.fraction, by simp, Numeral.Place.run_point hp hne hds⟩

theorem IsExponent.run {t : List Char} (h : IsExponent t) {p : Numeral.Place}
    (hp : p = .zero ∨ p = .whole ∨ p = .fraction) :
    ∃ q : Numeral.Place, q.isFinal = true ∧ p.run t = some q := by
  rcases h with rfl | ⟨mark, sign, ds, hmark, hsign, ⟨hne, hds⟩, rfl⟩
  · exact ⟨p, by rcases hp with rfl | rfl | rfl <;> rfl, rfl⟩
  · exact ⟨.exponent, rfl, Numeral.Place.run_mark hp hmark hsign hne hds⟩

/-- A number of the grammar is one for the reader. -/
theorem IsNumber.isNumeral {t : List Char} (h : IsNumber t) : Numeral.IsNumeral t := by
  obtain ⟨sign, whole, fraction, exponent, hsign, hwhole, hfraction, hexponent, rfl⟩ := h
  obtain ⟨p, hp, hrun⟩ := hwhole.run
  obtain ⟨q, hq, hrun'⟩ := hfraction.run hp
  obtain ⟨r, hr, hrun''⟩ := hexponent.run hq
  have hunsigned : Numeral.IsUnsigned (whole ++ (fraction ++ exponent)) :=
    ⟨r, by rw [Numeral.Place.run_append hrun, Numeral.Place.run_append hrun', hrun''], hr⟩
  rcases hsign with rfl | rfl
  · exact hunsigned.isNumeral
  · exact hunsigned.neg

/-! ## Quoted texts -/

theorem hexValue?_of_isHexDigit {v : Nat} {c : Char} (h : IsHexDigit v c) :
    Quoted.hexValue? c = some v ∧ c.utf8Size = 1 := by
  have hlower : ∀ v < 16, Quoted.hexValue? (Nat.digitChar v) = some v
      ∧ (Nat.digitChar v).utf8Size = 1 := by decide
  have hupper : ∀ v < 16, Quoted.hexValue? (Nat.digitChar v).toUpper = some v
      ∧ (Nat.digitChar v).toUpper.utf8Size = 1 := by decide
  rcases h with ⟨hv, rfl | rfl⟩
  · exact hlower v hv
  · exact hupper v hv

theorem shortEscape?_of_mem {letter c : Char} (h : (letter, c) ∈ shortEscapes) :
    letter ≠ 'u' ∧ Quoted.shortEscape? letter = some c := by
  have hall : ∀ p ∈ shortEscapes, p.1 ≠ 'u' ∧ Quoted.shortEscape? p.1 = some p.2 := by decide
  exact hall _ h

namespace Token

open Quoted

/-- What spells units is read as pieces that stand for them. -/
theorem scan_spelledUnits {us : List Nat} {t : List Char} (h : SpelledUnits us t) :
    ∃ ps : List Piece, ps.flatMap Piece.units = us ∧ ∀ before rest,
      scan (.quoted before .plain) (t ++ rest)
        = scan (.quoted (ps.reverse ++ before) .plain) rest := by
  induction h with
  | nil => exact ⟨[], rfl, fun _ _ => rfl⟩
  | plain c hc h ih =>
    obtain ⟨ps, rfl, hps⟩ := ih
    obtain ⟨hcontrol, hquote, hbackslash⟩ := hc
    have hstep : Place.plain.step c = .piece (.char c) := by
      simp [Place.step, hquote, hbackslash, isControl, hcontrol]
    refine ⟨.char c :: ps, rfl, fun before rest => ?_⟩
    rw [List.cons_append, scan_cons]
    simp only [Pending.step, hstep, List.nil_append]
    rw [hps]
    simp
  | short letter c hc h ih =>
    obtain ⟨ps, rfl, hps⟩ := ih
    obtain ⟨hu, hnamed⟩ := shortEscape?_of_mem hc
    refine ⟨.char c :: ps, rfl, fun before rest => ?_⟩
    have hopen : Pending.step (.quoted before .plain) '\\' = ([], .quoted before .escape) := rfl
    have hletter : Place.escape.step letter = .piece (.char c) := by
      simp [Place.step, hu, hnamed]
    rw [List.cons_append, List.cons_append, scan_cons, hopen, List.nil_append, scan_cons]
    simp only [Pending.step, hletter, List.nil_append]
    rw [hps]
    simp
  | @unit us t w x y z a b c d ha hb hc hd h ih =>
    obtain ⟨ps, rfl, hps⟩ := ih
    obtain ⟨ha, ha'⟩ := hexValue?_of_isHexDigit ha
    obtain ⟨hb, hb'⟩ := hexValue?_of_isHexDigit hb
    obtain ⟨hc, hc'⟩ := hexValue?_of_isHexDigit hc
    obtain ⟨hd, hd'⟩ := hexValue?_of_isHexDigit hd
    refine ⟨.unit (((w * 16 + x) * 16 + y) * 16 + z) :: ps, rfl, fun before rest => ?_⟩
    have hunit : scan (.quoted before .plain) ('\\' :: 'u' :: a :: b :: c :: d :: (t ++ rest))
        = scan (.quoted (.unit (((w * 16 + x) * 16 + y) * 16 + z) :: before) .plain)
          (t ++ rest) := by
      simp [scan, Pending.step, Place.step, ha, hb, hc, hd, ha', hb', hc', hd']
    simp only [List.cons_append]
    rw [hunit, hps]
    simp

/-- A text between quotes is one token, whatever follows. -/
theorem scan_spelledText {us : List Nat} {t : List Char} (h : SpelledText us t) :
    ∃ q : Quoted, q.plain = .ofUnits us ∧ ∀ rest,
      scan .nothing (t ++ rest) = .quoted q :: scan .nothing rest := by
  obtain ⟨body, hbody, rfl⟩ := h
  obtain ⟨ps, rfl, hps⟩ := scan_spelledUnits hbody
  refine ⟨⟨ps, .closed⟩, rfl, fun rest => ?_⟩
  have hopen : Pending.step .nothing '\x22' = ([], .quoted [] .plain) := rfl
  have hclose (before : List Piece) : Pending.step (.quoted before .plain) '\x22'
      = ([.quoted ⟨before.reverse, .closed⟩], .nothing) := rfl
  rw [List.cons_append, List.append_assoc, scan_cons, hopen, List.nil_append, hps,
    List.singleton_append, scan_cons, hclose]
  simp

/-! ## Blanks -/

theorem scan_blanks {blanks : List Char} (h : IsBlanks blanks) (rest : List Char) :
    scan .nothing (blanks ++ rest) = scan .nothing rest := by
  induction blanks with
  | nil => rfl
  | cons c blanks ih =>
    obtain ⟨hc, hblanks⟩ := List.forall_mem_cons.1 h
    have hstep : Pending.step .nothing c = ([], .nothing) := by
      simp [Pending.step, start, hc]
    rw [List.cons_append, scan_cons, hstep, List.nil_append, ih hblanks]

theorem closes_blanks {blanks rest : List Char} (h : IsBlanks blanks) (hrest : Closes rest) :
    Closes (blanks ++ rest) := by
  cases blanks with
  | nil => exact hrest
  | cons c blanks =>
    intro c' hc'
    obtain rfl : c = c' := by simpa using hc'
    exact .inl (h c List.mem_cons_self)

end Token

/-! ## Parts -/

namespace Outline

/-- Reads a text at some level of nesting. -/
def run (l : Levels) (text : List Char) : Levels := (Token.scan .nothing text).foldl Levels.step l

/-- Reading a text, before whatever may follow a value, adds these parts to the innermost level. -/
def Adds (t : List Char) (ps : List Part) : Prop :=
  ∀ rest l, Token.Closes rest → run l (t ++ rest) = run (l.append ps) rest

theorem run_blanks {blanks : List Char} (h : IsBlanks blanks) (l : Levels) (rest : List Char) :
    run l (blanks ++ rest) = run l rest := by
  rw [run, Token.scan_blanks h, run]

/-- Curly brackets around members leave one part, whatever follows. -/
theorem run_object {t : List Char} {ms : List (Quoted × Part)}
    (h : Adds t (between (.token .comma) (ms.map Part.ofMember))) (l : Levels) (rest : List Char) :
    run l ('\x7b' :: (t ++ ['\x7d']) ++ rest)
      = run (l.append [.object (ms.map fun m => (some m.1, m.2)) .closed]) rest := by
  have hclosed : Token.Closes ('\x7d' :: rest) := Token.closes_cons (.inr (.inr rfl)) rest
  have hopen (text : List Char) :
      run l ('\x7b' :: text) = run (l.step (.opening .curly)) text := rfl
  have hclose (l : Levels) : run l ('\x7d' :: rest) = run (l.step (.closing .curly)) rest := rfl
  rw [List.cons_append, List.append_assoc, List.singleton_append, hopen, h _ _ hclosed, hclose,
    Levels.step_closing, ofBracket_members]
  rfl

namespace Adds

variable {t t' : List Char} {ps ps' : List Part}

theorem blanks (h : IsBlanks t) : Adds t [] := fun rest l _ => run_blanks h l rest

theorem number (h : IsNumber t) : Adds t [.token (.number t)] := by
  intro rest l hrest
  rw [run, Token.scan_numeral h.isNumeral hrest]
  rfl

theorem append (h : Adds t ps) (h' : Adds t' ps')
    (hcloses : ∀ {rest}, Token.Closes rest → Token.Closes (t' ++ rest)) :
    Adds (t ++ t') (ps ++ ps') := by
  intro rest l hrest
  rw [List.append_assoc, h _ _ (hcloses hrest), h' _ _ hrest, Levels.append_append]

theorem padded (h : Adds t ps) (hpad : Padded t t') : Adds t' ps := by
  obtain ⟨before, after, hbefore, hafter, rfl⟩ := hpad
  intro rest l hrest
  rw [List.append_assoc, run_blanks hbefore, List.append_assoc,
    h _ _ (Token.closes_blanks hafter hrest), run_blanks hafter]

theorem comma (h : Adds t ps) : Adds (',' :: t) (.token .comma :: ps) := by
  intro rest l hrest
  have hcomma : run l (',' :: (t ++ rest)) = run (l.append [.token .comma]) (t ++ rest) := rfl
  rw [List.cons_append, hcomma, h _ _ hrest, Levels.append_append]
  rfl

/-- Square brackets around items. -/
theorem list (h : Adds t (between (.token .comma) (ps.map ([·])))) :
    Adds ('[' :: (t ++ [']'])) [.list ps .closed] := by
  intro rest l _
  have hclosed : Token.Closes (']' :: rest) := Token.closes_cons (.inr (.inl rfl)) rest
  have hopen (text : List Char) : run l ('[' :: text) = run (l.step (.opening .square)) text := rfl
  have hclose (l : Levels) : run l (']' :: rest) = run (l.step (.closing .square)) rest := rfl
  rw [List.cons_append, List.append_assoc, List.singleton_append, hopen, h _ _ hclosed, hclose,
    Levels.step_closing, ofBracket_items]
  rfl

/-- Curly brackets around members. -/
theorem object {ms : List (Quoted × Part)}
    (h : Adds t (between (.token .comma) (ms.map Part.ofMember))) :
    Adds ('\x7b' :: (t ++ ['\x7d'])) [.object (ms.map fun m => (some m.1, m.2)) .closed] :=
  fun rest l _ => run_object h l rest

/-- A name, a colon and a value. -/
theorem member {name : List Nat} {p : Part} (h : Adds t [p]) (hmember : SpelledMember name t t') :
    ∃ q : Quoted, q.plain = .ofUnits name ∧ Adds t' (Part.ofMember (q, p)) := by
  obtain ⟨spelled, key, value, hname, ⟨before, after, hbefore, hafter, rfl⟩, hvalue, rfl⟩ := hmember
  obtain ⟨q, hq, hscan⟩ := Token.scan_spelledText hname
  refine ⟨q, hq, fun rest l hrest => ?_⟩
  have hkey (text : List Char) :
      run l (spelled ++ text) = run (l.append [.token (.quoted q)]) text := by
    rw [run, hscan]
    rfl
  have hcolon (l : Levels) (text : List Char) :
      run l (':' :: text) = run (l.append [.token .colon]) text := rfl
  simp only [List.append_assoc, List.cons_append]
  rw [run_blanks hbefore, hkey, run_blanks hafter, hcolon, h.padded hvalue _ _ hrest,
    Levels.append_append, Levels.append_append]
  rfl

end Adds

theorem closes_moreItems {items : List Value} {t rest : List Char} (h : Value.MoreItems items t)
    (hrest : Token.Closes rest) : Token.Closes (t ++ rest) := by
  cases h with
  | nil => exact hrest
  | cons => exact Token.closes_cons (.inl rfl) _

theorem closes_moreMembers {members : List (List Nat × Value)} {t rest : List Char}
    (h : Value.MoreMembers members t) (hrest : Token.Closes rest) : Token.Closes (t ++ rest) := by
  cases h with
  | nil => exact hrest
  | cons => exact Token.closes_cons (.inl rfl) _

mutual

/-- Reading a text that spells a value adds one part. -/
theorem adds_spelled : ∀ (v : Value) {t : List Char}, v.Spelled t →
    ∃ p : Part, p.plain = v.part ∧ Adds t [p]
  | .null, _, .null => ⟨.token (.word .null), rfl, fun _ _ _ => rfl⟩
  | .boolean true, _, .yes => ⟨.token (.word (.boolean true)), rfl, fun _ _ _ => rfl⟩
  | .boolean false, _, .no => ⟨.token (.word (.boolean false)), rfl, fun _ _ _ => rfl⟩
  | .number t, _, .number h => ⟨.token (.number t), rfl, .number h⟩
  | .text us, _, .text h => by
    obtain ⟨q, hq, hscan⟩ := Token.scan_spelledText h
    refine ⟨.token (.quoted q), by rw [Part.plain, Token.plain, hq, Value.part], ?_⟩
    intro rest l _
    rw [run, hscan]
    rfl
  | .list [], _, .noItems h => ⟨.list [] .closed, rfl, .list (.blanks h)⟩
  | .list (v :: rest), _, .list h hfirst hmore => by
    obtain ⟨p, hp, hbody⟩ := adds_spelled v h
    obtain ⟨ps, hps, hrest⟩ := adds_moreItems rest hmore
    refine ⟨.list (p :: ps) .closed, by
      rw [Part.plain, Part.plainItems, hp, hps, Value.part, Value.itemParts], ?_⟩
    have hboth := (hbody.padded hfirst).append hrest (closes_moreItems hmore)
    rw [← List.append_assoc]
    refine Adds.list ?_
    rwa [List.map_cons, between, List.flatMap_map]
  | .object [], _, .noMembers h => ⟨.object [] .closed, rfl, @Adds.object _ [] (.blanks h)⟩
  | .object ((name, v) :: rest), _, .object h hfirst hmore => by
    obtain ⟨p, hp, hbody⟩ := adds_spelled v h
    obtain ⟨q, hq, hmember⟩ := hbody.member hfirst
    obtain ⟨ms, hms, hrest⟩ := adds_moreMembers rest hmore
    refine ⟨.object (((q, p) :: ms).map fun m => (some m.1, m.2)) .closed, by
      rw [List.map_cons, Part.plain, Part.plainMembers, hp, hms, Value.part, Value.memberParts,
        Option.map_some, hq], ?_⟩
    have hboth := hmember.append hrest (closes_moreMembers hmore)
    rw [← List.append_assoc]
    refine Adds.object ?_
    rwa [List.map_cons, between, List.flatMap_map]

theorem adds_moreItems : ∀ (items : List Value) {t : List Char}, Value.MoreItems items t →
    ∃ ps : List Part, Part.plainItems ps = Value.itemParts items
      ∧ Adds t (ps.flatMap fun p => [.token .comma, p])
  | [], _, .nil => ⟨[], rfl, fun _ _ _ => rfl⟩
  | v :: rest, _, .cons h hfirst hmore => by
    obtain ⟨p, hp, hbody⟩ := adds_spelled v h
    obtain ⟨ps, hps, hrest⟩ := adds_moreItems rest hmore
    refine ⟨p :: ps, by rw [Part.plainItems, hp, hps, Value.itemParts], ?_⟩
    exact ((hbody.padded hfirst).append hrest (closes_moreItems hmore)).comma

theorem adds_moreMembers : ∀ (members : List (List Nat × Value)) {t : List Char},
    Value.MoreMembers members t →
    ∃ ms : List (Quoted × Part),
      Part.plainMembers (ms.map fun m => (some m.1, m.2)) = Value.memberParts members
      ∧ Adds t (ms.flatMap fun m => .token .comma :: Part.ofMember m)
  | [], _, .nil => ⟨[], rfl, fun _ _ _ => rfl⟩
  | (name, v) :: rest, _, .cons h hfirst hmore => by
    obtain ⟨p, hp, hbody⟩ := adds_spelled v h
    obtain ⟨q, hq, hmember⟩ := hbody.member hfirst
    obtain ⟨ms, hms, hrest⟩ := adds_moreMembers rest hmore
    refine ⟨(q, p) :: ms, by
      rw [List.map_cons, Part.plainMembers, hp, hms, Value.memberParts, Option.map_some, hq], ?_⟩
    exact (hmember.append hrest (closes_moreMembers hmore)).comma

end

/-- **The outline of a JSON text.** It is one part, whose plain form is that of the value. -/
theorem ofText_isText {v : Value} {text : String} (h : v.IsText text) :
    ∃ p : Part, p.plain = v.part ∧ ofText text = [p] := by
  obtain ⟨body, hbody, hpad⟩ := h
  obtain ⟨p, hp, hadds⟩ := adds_spelled v hbody
  refine ⟨p, hp, ?_⟩
  have hrun := hadds.padded hpad [] ⟨[], []⟩ Token.closes_nil
  rw [List.append_nil] at hrun
  rw [ofText, ofTokens, Token.ofText, ← run, hrun]
  rfl

end Outline

end SqlTree.Json
