import SqlTree.Proofs.Json.Trailing

/-!
# Texts of one quoted text

Which texts have one quoted text, properly closed, as their whole outline? Just those that spell one,
with blanks around it. That a spelled text has such an outline is known (`Outline.ofText_isText`);
here an outline is followed backwards (`Outline.exists_spelledText`): one token that is no bracket
comes from one token, a quoted token begins behind blanks, and what was read up to the closing quote
spells the units of its pieces.
-/

namespace SqlTree.Json

/-! ## One token -/

namespace Part

/-- Is a part made of brackets? -/
def IsBracketed (p : Part) : Prop := ∀ t, p ≠ .token t

theorem isBracketed_ofBracket (b : Bracket) (cut : Bool) (parts : List Part) :
    (ofBracket b cut parts).IsBracketed := by
  intro t h
  cases b <;> cases parts <;> cases h

end Part

namespace Outline

/-- What begins with a bracket is a part made of brackets, whether the bracket is ever closed or
not. -/
theorem foldl_opened (ts : List Token) (parts : List Part) (enclosing : List (Bracket × List Part))
    (b : Bracket) :
    ∃ p rest, (ts.foldl Levels.step ⟨parts, enclosing ++ [(b, [])]⟩).finish = p :: rest
      ∧ p.IsBracketed := by
  induction ts generalizing parts enclosing with
  | nil =>
    rw [List.foldl_nil, Levels.finish, List.foldl_append]
    exact ⟨_, [], rfl, Part.isBracketed_ofBracket b true _⟩
  | cons t ts ih =>
    have hadd := ih (.token t :: parts) enclosing
    cases t with
    | opening b' => exact ih [] ((b', parts) :: enclosing)
    | closing b' =>
      rw [List.foldl_cons]
      cases enclosing with
      | nil =>
        show ∃ p rest, (ts.foldl Levels.step (if b = b' then _ else _)).finish = p :: rest ∧ _
        split
        · have hbracketed := Part.isBracketed_ofBracket b' false parts.reverse
          cases ts with
          | nil => exact ⟨_, [], rfl, hbracketed⟩
          | cons t ts =>
            obtain ⟨q, rest, hfinish⟩ :=
              foldl_behind (Part.ofBracket b' false parts.reverse) (List.cons_ne_nil t ts)
            exact ⟨_, q :: rest, hfinish, hbracketed⟩
        · exact hadd
      | cons level enclosing =>
        show ∃ p rest, (ts.foldl Levels.step (if level.1 = b' then _ else _)).finish = p :: rest ∧ _
        split
        · exact ih _ enclosing
        · exact hadd
    | _ => exact hadd

/-- An outline that is a single token is that of this token alone. -/
theorem eq_singleton_of_ofTokens {ts : List Token} {t : Token}
    (h : ofTokens ts = [.token t]) : ts = [t] := by
  cases ts with
  | nil => cases h
  | cons t₀ ts =>
    by_cases hopening : ∃ b, t₀ = .opening b
    · obtain ⟨b, rfl⟩ := hopening
      obtain ⟨p, rest, hfinish, hbracketed⟩ := foldl_opened ts [] [] b
      have heq := hfinish.symm.trans h
      exact absurd (List.cons.inj heq).1 (hbracketed t)
    · have hfirst : Levels.step ⟨[], []⟩ t₀ = ⟨[.token t₀], []⟩ := by
        cases t₀ with
        | opening b => exact absurd ⟨b, rfl⟩ hopening
        | _ => rfl
      rw [ofTokens, List.foldl_cons, hfirst] at h
      cases ts with
      | nil =>
        cases h
        rfl
      | cons t₁ ts =>
        obtain ⟨q, rest, hfinish⟩ := foldl_behind (.token t₀) (List.cons_ne_nil t₁ ts)
        rw [hfinish] at h
        cases h

end Outline

/-! ## Escapes -/

theorem isHexDigit_of_hexValue? {c : Char} {v : Nat} (h : Quoted.hexValue? c = some v) :
    IsHexDigit v c ∧ c.utf8Size = 1 := by
  have hall : ∀ n < 128, ∀ v ∈ Quoted.hexValue? (Char.ofNat n),
      (v < 16 ∧ (Char.ofNat n = Nat.digitChar v ∨ Char.ofNat n = (Nat.digitChar v).toUpper))
        ∧ (Char.ofNat n).utf8Size = 1 := by
    decide
  have hlt : c.toNat < 128 := by
    have hle {d : Char} (hd : c ≤ d) : c.toNat ≤ d.toNat := hd
    unfold Quoted.hexValue? at h
    split_ifs at h with hdigit hlower hupper
    · exact (hle hdigit.2).trans_lt (by decide)
    · exact (hle hlower.2).trans_lt (by decide)
    · exact (hle hupper.2).trans_lt (by decide)
  have hc := hall c.toNat hlt v (by rw [Char.ofNat_toNat]; exact h)
  rwa [Char.ofNat_toNat] at hc

theorem mem_shortEscapes_of_shortEscape? {letter c : Char}
    (h : Quoted.shortEscape? letter = some c) : (letter, c) ∈ shortEscapes := by
  unfold Quoted.shortEscape? at h
  split_ifs at h with hsame
  · cases h
    rcases hsame with rfl | rfl | rfl <;> decide
  all_goals
    cases h
    simp_all [shortEscapes]

/-! ## Quoted tokens -/

namespace Token

open Quoted

/-- The tokens are a single quoted text, with its closing quote. -/
def AreQuoted (ts : List Token) (ps : List Piece) : Prop := ts = [.quoted ⟨ps, .closed⟩]

variable {before ps : List Piece} {text : List Char}

/-- A unit with a character that is no digit is never completed. -/
theorem not_areQuoted_lost (bytes : Nat) :
    ¬ AreQuoted (scan (.quoted before (.unit bytes none)) text) ps := by
  induction text generalizing bytes with
  | nil => simp [AreQuoted, scan, Pending.finish]
  | cons c rest ih =>
    rw [scan_cons]
    by_cases hbytes : bytes + c.utf8Size < 4
    · have hstep : Pending.step (.quoted before (.unit bytes none)) c
          = ([], .quoted before (.unit (bytes + c.utf8Size) none)) := by
        simp [Pending.step, Place.step, hbytes]
      rw [hstep]
      exact ih _
    · have hstep : Pending.step (.quoted before (.unit bytes none)) c
          = ([.quoted ⟨before.reverse, .badUnit⟩], .stopped) := by
        simp [Pending.step, Place.step, hbytes]
      rw [hstep]
      simp [AreQuoted]

/-- One more digit of a unit, if the text ends well. -/
theorem exists_hexDigit {bytes value : Nat}
    (h : AreQuoted (scan (.quoted before (.unit bytes (some value))) text) ps) :
    ∃ x c rest, text = c :: rest ∧ IsHexDigit x c
      ∧ AreQuoted (scan (if bytes + 1 < 4
          then .quoted before (.unit (bytes + 1) (some (value * 16 + x)))
          else .quoted (.unit (value * 16 + x) :: before) .plain) rest) ps := by
  cases text with
  | nil => simp [AreQuoted, scan, Pending.finish] at h
  | cons c rest =>
    cases hx : hexValue? c with
    | none =>
      have hlost : Pending.step (.quoted before (.unit bytes (some value))) c
          = Pending.step (.quoted before (.unit bytes none)) c := by
        simp [Pending.step, Place.step, hx]
      rw [scan_cons, hlost, ← scan_cons] at h
      exact absurd h (not_areQuoted_lost bytes)
    | some x =>
      obtain ⟨hdigit, hsize⟩ := isHexDigit_of_hexValue? hx
      refine ⟨x, c, rest, rfl, hdigit, ?_⟩
      have hstep : Pending.step (.quoted before (.unit bytes (some value))) c
          = ([], if bytes + 1 < 4 then .quoted before (.unit (bytes + 1) (some (value * 16 + x)))
            else .quoted (.unit (value * 16 + x) :: before) .plain) := by
        by_cases hbytes : bytes + 1 < 4 <;> simp [Pending.step, Place.step, hx, hsize, hbytes]
      rwa [scan_cons, hstep] at h

/-- Four digits of a unit. -/
theorem exists_unit (h : AreQuoted (scan (.quoted before (.unit 0 (some 0))) text) ps) :
    ∃ w x y z a b c d rest, text = a :: b :: c :: d :: rest
      ∧ IsHexDigit w a ∧ IsHexDigit x b ∧ IsHexDigit y c ∧ IsHexDigit z d
      ∧ AreQuoted (scan (.quoted (.unit (((w * 16 + x) * 16 + y) * 16 + z) :: before) .plain) rest)
        ps := by
  obtain ⟨w, a, text, rfl, ha, h⟩ := exists_hexDigit h
  obtain ⟨x, b, text, rfl, hb, h⟩ := exists_hexDigit h
  obtain ⟨y, c, text, rfl, hc, h⟩ := exists_hexDigit h
  obtain ⟨z, d, text, rfl, hd, h⟩ := exists_hexDigit h
  simp only [Nat.zero_mul, Nat.zero_add] at h
  exact ⟨w, x, y, z, a, b, c, d, text, rfl, ha, hb, hc, hd, h⟩

theorem isBlanks_of_scan_eq_nil {t : List Char} (h : scan .nothing t = []) : IsBlanks t := by
  by_contra hblanks
  simp only [IsBlanks, not_forall, Bool.not_eq_true, exists_prop] at hblanks
  exact scan_ne_nil hblanks h

/-- A text may stand for a piece, before whatever else is spelled. -/
def Spells (t : List Char) (p : Piece) : Prop :=
  ∀ {us rest}, SpelledUnits us rest → SpelledUnits (p.units ++ us) (t ++ rest)

/-- Behind the last piece is the closing quote; before it is one piece more. -/
theorem exists_piece (h : AreQuoted (scan (.quoted before .plain) text) ps) :
    (∃ after, text = '\x22' :: after ∧ IsBlanks after ∧ ps = before.reverse)
    ∨ ∃ t p rest, text = t ++ rest ∧ t ≠ [] ∧ Spells t p
      ∧ AreQuoted (scan (.quoted (p :: before) .plain) rest) ps := by
  cases text with
  | nil => simp [AreQuoted, scan, Pending.finish] at h
  | cons c rest =>
    by_cases hquote : c = '\x22'
    · subst hquote
      obtain ⟨hps, hrest⟩ := List.cons.inj (show _ :: scan .nothing rest = [_] from h)
      cases hps
      exact .inl ⟨rest, rfl, isBlanks_of_scan_eq_nil hrest, rfl⟩
    right
    by_cases hbackslash : c = '\\'
    · subst hbackslash
      rw [scan_cons, show Pending.step (.quoted before .plain) '\\' = ([], .quoted before .escape)
        from rfl, List.nil_append] at h
      cases rest with
      | nil => simp [AreQuoted, scan, Pending.finish] at h
      | cons letter rest =>
        by_cases hu : letter = 'u'
        · subst hu
          obtain ⟨w, x, y, z, a, b, c, d, rest, rfl, ha, hb, hc, hd, h⟩ := exists_unit h
          exact ⟨['\\', 'u', a, b, c, d], _, rest, rfl, List.cons_ne_nil _ _, .unit ha hb hc hd, h⟩
        · rw [scan_cons] at h
          cases hnamed : shortEscape? letter with
          | none => simp [Pending.step, Place.step, hu, hnamed, AreQuoted] at h
          | some named =>
            have hstep : Pending.step (.quoted before .escape) letter
                = ([], .quoted (.char named :: before) .plain) := by
              simp [Pending.step, Place.step, hu, hnamed]
            rw [hstep] at h
            exact ⟨['\\', letter], .char named, rest, rfl, List.cons_ne_nil _ _,
              .short letter named (mem_shortEscapes_of_shortEscape? hnamed), h⟩
    · rw [scan_cons] at h
      by_cases hcontrol : isControl c = true
      · simp [Pending.step, Place.step, hquote, hbackslash, hcontrol, AreQuoted] at h
      · have hstep : Pending.step (.quoted before .plain) c
            = ([], .quoted (.char c :: before) .plain) := by
          simp [Pending.step, Place.step, hquote, hbackslash, hcontrol]
        rw [hstep] at h
        have hplain : 0x20 ≤ c.toNat := by simpa [isControl] using hcontrol
        exact ⟨[c], .char c, rest, rfl, List.cons_ne_nil _ _,
          .plain c ⟨hplain, hquote, hbackslash⟩, h⟩

/-- What is read up to the closing quote spells the units of its pieces, and only blanks follow. -/
theorem exists_spelledUnits (h : AreQuoted (scan (.quoted before .plain) text) ps) :
    ∃ us body after, SpelledUnits us body ∧ IsBlanks after ∧ text = body ++ '\x22' :: after
      ∧ ps.flatMap Piece.units = before.reverse.flatMap Piece.units ++ us := by
  induction hn : text.length using Nat.strong_induction_on generalizing text before with
  | _ n ih =>
    subst hn
    rcases exists_piece h with ⟨after, rfl, hafter, rfl⟩ | ⟨t, p, rest, rfl, hne, hspells, h⟩
    · exact ⟨[], [], after, .nil, hafter, rfl, (List.append_nil _).symm⟩
    · have hpos : 0 < t.length := List.length_pos_iff.2 hne
      obtain ⟨us, body, after, hbody, hafter, rfl, hunits⟩ :=
        ih rest.length (by rw [List.length_append]; omega) h rfl
      refine ⟨p.units ++ us, t ++ body, after, hspells hbody, hafter, ?_, ?_⟩
      · rw [List.append_assoc]
      · rw [hunits]
        simp

/-! ## Texts -/

/-- What begins with a word or a number has no quoted text as its first token. -/
theorem scan_ne_quoted {pending : Pending}
    (h : (∃ w missing, pending = .word w missing) ∨ ∃ before place, pending = .number before place)
    (text : List Char) (q : Quoted) : scan pending text ≠ [.quoted q] := by
  induction text generalizing pending with
  | nil =>
    rcases h with ⟨w, missing, rfl⟩ | ⟨before, place, rfl⟩
    · cases missing <;> simp [scan, Pending.finish]
    · rw [scan, Pending.finish]
      split <;> simp
  | cons c rest ih =>
    rw [scan_cons]
    rcases h with ⟨w, missing, rfl⟩ | ⟨before, place, rfl⟩
    · cases missing with
      | nil => simp [Pending.step, endedBy]
      | cons m missing =>
        rw [Pending.step]
        split
        · simp
        split
        · simp
        · exact ih (.inl ⟨w, missing, rfl⟩)
    · rw [Pending.step]
      split
      · exact ih (.inr ⟨_, _, rfl⟩)
      · simp [endedBy]
      · simp

/-- A character that is no blank and no quote is a token of another kind, or begins one. -/
theorem start_unquoted {c : Char} (hblank : isBlank c ≠ true) (hquote : c ≠ '\x22') :
    (∃ t, (start c).1 = [t] ∧ ∀ q, t ≠ .quoted q)
    ∨ (start c).1 = [] ∧ ((∃ w missing, (start c).2 = .word w missing)
      ∨ ∃ before place, (start c).2 = .number before place) := by
  generalize hstart : start c = advance
  unfold start at hstart
  rw [if_neg hblank, if_neg hquote] at hstart
  repeat' split at hstart
  all_goals
    subst hstart
    simp

/-- A text whose only token is a quoted text spells it, with blanks around. -/
theorem exists_spelledText (h : AreQuoted (ofText text) ps) :
    ∃ t, SpelledText (ps.flatMap Piece.units) t ∧ Padded t text := by
  induction text with
  | nil => simp [AreQuoted, ofText, scan, Pending.finish] at h
  | cons c rest ih =>
    rw [ofText, scan_cons] at h
    by_cases hblank : isBlank c = true
    · have hstep : Pending.step .nothing c = ([], .nothing) := by
        simp [Pending.step, start, hblank]
      rw [hstep] at h
      obtain ⟨t, ht, before, after, hbefore, hafter, rfl⟩ := ih h
      exact ⟨t, ht, c :: before, after, List.forall_mem_cons.2 ⟨hblank, hbefore⟩, hafter, rfl⟩
    by_cases hquote : c = '\x22'
    · subst hquote
      obtain ⟨us, body, after, hbody, hafter, rfl, hunits⟩ := exists_spelledUnits h
      rw [hunits]
      exact ⟨_, ⟨body, hbody, rfl⟩, [], after, isBlanks_nil, hafter, by simp⟩
    · rcases start_unquoted hblank hquote with ⟨t, hstart, ht⟩ | ⟨hstart, hbegun⟩
      · rw [Pending.step, hstart] at h
        exact absurd (List.cons.inj h).1 (ht _)
      · rw [Pending.step, hstart, List.nil_append] at h
        exact absurd h (scan_ne_quoted hbegun rest _)

end Token

/-- **Which texts are a single quoted text.** A text whose outline is one quoted text with its closing
quote spells it, with blanks around it. -/
theorem Outline.exists_spelledText {text : String} {q : Quoted} (hq : q.ending = .closed)
    (h : ofText text = [.token (.quoted q)]) :
    ∃ t, SpelledText q.units t ∧ Padded t text.toList := by
  obtain ⟨ps, ending⟩ := q
  obtain rfl : ending = .closed := hq
  exact Token.exists_spelledText (eq_singleton_of_ofTokens h)

end SqlTree.Json
