import SqlTree.Proofs.Json.Holes

/-!
# Documents whose text ends too early

Where the text of a document is cut, its outline is cut too. `Part.Cut` says what may be left of a
part: all that stands before the cut as it was, then the beginning of one token, and the endings of
the brackets that are still open. Every beginning of a printed document has such an outline
(`Outline.exists_cut`), one constructor for each place where a text may end.

The relation does not say which text was cut, so it may hold of more parts than any text leaves. It
is kept as narrow as the readers of parts need it: behind a comma, for instance, there was another
item.
-/

namespace SqlTree.Json

/-! ## What is left -/

/-- What is left of a token when the text ends within it. The beginning of a number may be a number
itself. -/
inductive Token.Cut : Token → Token → Prop where
  | word (w : Word) : Cut (.word w) (.brokenWord w true)
  | number {text t : List Char} (h : t <+: text) (ht : Numeral.IsNumeral t) :
    Cut (.number text) (.number t)
  | brokenNumber (text : List Char) : Cut (.number text) (.brokenNumber true)
  | quoted {q : Quoted} {ps : List Piece} (h : ps <+: q.pieces) :
    Cut (.quoted q) (.quoted ⟨ps, .cut⟩)

mutual

/-- What is left of a part. -/
inductive Part.Cut : Part → Part → Prop where
  | token {t t' : Token} (h : t.Cut t') : Cut (.token t) (.token t')
  | list {items items' : List Part} {ending : ListEnding} (h : CutItems items items' ending) :
    Cut (.list items .closed) (.list items' ending)
  | object {ms ms' : List (Key × Part)} {ending : ObjectEnding} (h : CutMembers ms ms' ending) :
    Cut (.object ms .closed) (.object ms' ending)

/-- What is left of the items of a list, and how it ends. -/
inductive Part.CutItems : List Part → List Part → ListEnding → Prop where
  | stop (items : List Part) : CutItems items [] .cut
  | comma (p p' : Part) (rest : List Part) : CutItems (p :: p' :: rest) [p] (.afterComma true)
  | within {p c : Part} (h : Cut p c) (rest : List Part) : CutItems (p :: rest) [c] .cut
  | more {items items' : List Part} {ending : ListEnding} (p : Part)
    (h : CutItems items items' ending) : CutItems (p :: items) (p :: items') ending

/-- What is left of the members of an object, and how it ends. -/
inductive Part.CutMembers :
    List (Key × Part) → List (Key × Part) → ObjectEnding → Prop where
  | stop (ms : List (Key × Part)) : CutMembers ms [] .cut
  | comma (m m' : Key × Part) (rest : List (Key × Part)) :
    CutMembers (m :: m' :: rest) [m] (.afterComma true)
  | name {q : Quoted} {ps : List Piece} (h : ps <+: q.pieces) (p : Part)
    (rest : List (Key × Part)) :
    CutMembers ((some q, p) :: rest) [] (.afterKey (some ⟨ps, .cut⟩) true)
  | afterName (key : Key) (p : Part) (rest : List (Key × Part)) :
    CutMembers ((key, p) :: rest) [] (.afterKey key true)
  | colon (key : Key) (p : Part) (rest : List (Key × Part)) :
    CutMembers ((key, p) :: rest) [] (.afterColon key true)
  | within {p c : Part} (key : Key) (h : Cut p c) (rest : List (Key × Part)) :
    CutMembers ((key, p) :: rest) [(key, c)] .cut
  | more {ms ms' : List (Key × Part)} {ending : ObjectEnding} (m : Key × Part)
    (h : CutMembers ms ms' ending) : CutMembers (m :: ms) (m :: ms') ending

end

/-! ## Tokens -/

/-- How a word is written. -/
def Word.letters : Word → List Char
  | .null => ['n', 'u', 'l', 'l']
  | .boolean true => ['t', 'r', 'u', 'e']
  | .boolean false => ['f', 'a', 'l', 's', 'e']

/-- A beginning of two texts is one of the first, or goes on into the second. -/
theorem prefix_append_cases {α : Type} {t a b : List α} (h : t <+: a ++ b) :
    t <+: a ∧ t ≠ a ∨ ∃ t', t = a ++ t' ∧ t' <+: b := by
  rcases List.prefix_or_prefix_of_prefix h (List.prefix_append a b) with ht | ⟨t', rfl⟩
  · by_cases heq : t = a
    · exact .inr ⟨[], by rw [heq, List.append_nil], List.nil_prefix⟩
    · exact .inl ⟨ht, heq⟩
  · exact .inr ⟨t', rfl, (List.prefix_append_right_inj a).1 h⟩

theorem Numeral.Place.exists_run {t u : List Char} {p q : Place} (h : p.run (t ++ u) = some q) :
    ∃ p', p.run t = some p' := by
  induction t generalizing p with
  | nil => exact ⟨p, rfl⟩
  | cons c rest ih =>
    rw [List.cons_append, Place.run] at h
    rw [Place.run]
    cases hstep : p.step c with
    | go p' =>
      rw [hstep] at h
      exact ih h
    | ended => simp [hstep] at h
    | wrong => simp [hstep] at h

namespace Token

/-- The beginning of a number is one token, whether a number may end there or not. -/
theorem scan_cut_numeral {text t : List Char} (htext : Numeral.IsNumeral text) (h : t <+: text)
    (hne : t ≠ []) : ∃ tok, (Token.number text).Cut tok ∧ scan .nothing t = [tok] := by
  obtain ⟨q, hplace, -⟩ := htext
  obtain ⟨c, rest, rfl⟩ := List.exists_cons_of_ne_nil hne
  obtain ⟨u, rfl⟩ := h
  rw [List.cons_append] at hplace
  obtain ⟨p, hp, hrun⟩ := Option.bind_eq_some_iff.1 hplace
  obtain ⟨p', hp'⟩ := Numeral.Place.exists_run hrun
  have hscan : scan .nothing (c :: rest) = (Pending.number (rest.reverse ++ [c]) p').finish := by
    have hnumber := scan_number_run hp' [c] []
    rw [List.append_nil] at hnumber
    rw [scan_cons]
    simp only [Pending.step, start_of_start? hp, List.nil_append]
    exact hnumber
  by_cases hfinal : p'.isFinal = true
  · refine ⟨.number (c :: rest), .number (List.prefix_append _ _) ⟨p', ?_, hfinal⟩, ?_⟩
    · rw [Numeral.placeAfter, hp, Option.bind_some, hp']
    · rw [hscan]
      simp [Pending.finish, hfinal]
  · refine ⟨.brokenNumber true, .brokenNumber _, ?_⟩
    rw [hscan]
    simp [Pending.finish, hfinal]

/-- A character is written in two characters, or as a unit, or as it is. -/
theorem escape_cases (c : Char) : (∃ d, Quoted.escape c = ['\\', d]) ∨
    Quoted.escape c = ['\\', 'u', '0', '0', Nat.digitChar (c.toNat / 16),
      Nat.digitChar (c.toNat % 16)] ∧ c.toNat < 0x20 ∨ Quoted.escape c = [c] := by
  unfold Quoted.escape
  split
  · exact .inl ⟨c, rfl⟩
  split
  · exact .inl ⟨'b', rfl⟩
  split
  · exact .inl ⟨'f', rfl⟩
  split
  · exact .inl ⟨'n', rfl⟩
  split
  · exact .inl ⟨'r', rfl⟩
  split
  · exact .inl ⟨'t', rfl⟩
  split
  · next hcontrol => exact .inr (.inl ⟨rfl, by simpa [Quoted.isControl] using hcontrol⟩)
  · exact .inr (.inr rfl)

/-- The beginning of a character that is written between quotes leaves no piece. -/
theorem scan_cut_escape {c : Char} {t : List Char} (h : t <+: Quoted.escape c)
    (hne : t ≠ Quoted.escape c) (before : List Piece) :
    scan (.quoted before .plain) t = [.quoted ⟨before.reverse, .cut⟩] := by
  rcases escape_cases c with ⟨d, hc⟩ | ⟨hc, hlt⟩ | hc
  · rw [hc] at h hne
    simp only [List.prefix_cons_iff, List.prefix_nil] at h
    rcases h with rfl | ⟨_, rfl, rfl | ⟨_, rfl, rfl⟩⟩
    · rfl
    · rfl
    · exact absurd rfl hne
  · rw [hc] at h hne
    have hsize := Quoted.utf8Size_digitChar (c.toNat / 16) (by omega)
    simp only [List.prefix_cons_iff, List.prefix_nil] at h
    rcases h with rfl | ⟨_, rfl, rfl | ⟨_, rfl, rfl | ⟨_, rfl, rfl | ⟨_, rfl, rfl | ⟨_, rfl, h⟩⟩⟩⟩⟩
    · rfl
    · rfl
    · rfl
    · rfl
    · rfl
    · have hfour : ('0' : Char).utf8Size = 1 := rfl
      rcases h with rfl | ⟨_, rfl, rfl⟩
      · simp [scan, Pending.step, Quoted.Place.step, Pending.finish, hsize, hfour]
      · exact absurd rfl hne
  · rw [hc] at h hne
    rcases List.prefix_cons_iff.1 h with rfl | ⟨_, rfl, hnil⟩
    · rfl
    · rw [List.prefix_nil.1 hnil] at hne
      exact absurd rfl hne

/-- The beginning of what stands between quotes leaves the pieces of the characters that are
complete. -/
theorem scan_cut_flatMap_escape {cs t : List Char} (h : t <+: cs.flatMap Quoted.escape)
    (before : List Piece) :
    ∃ ps, ps <+: cs.map Quoted.piece ∧
      scan (.quoted before .plain) t = [.quoted ⟨before.reverse ++ ps, .cut⟩] := by
  induction cs generalizing t before with
  | nil =>
    rw [List.prefix_nil.1 h]
    exact ⟨[], List.nil_prefix, by rw [List.append_nil]; rfl⟩
  | cons c cs ih =>
    rw [List.flatMap_cons] at h
    rcases prefix_append_cases h with ⟨hc, hne⟩ | ⟨t', rfl, ht'⟩
    · exact ⟨[], List.nil_prefix, by rw [List.append_nil, scan_cut_escape hc hne]⟩
    · obtain ⟨ps, hps, hscan⟩ := ih ht' (Quoted.piece c :: before)
      refine ⟨Quoted.piece c :: ps, List.cons_prefix_cons.2 ⟨rfl, hps⟩, ?_⟩
      rw [scan_escape, hscan, List.reverse_cons, List.append_assoc, List.singleton_append]

/-- The beginning of a quoted text is one token, which may end within an escape. -/
theorem scan_cut_quote {s : String} {t : List Char} (h : t <+: Quoted.quote s) (hne : t ≠ [])
    (hcut : t ≠ Quoted.quote s) :
    ∃ ps, ps <+: (Quoted.ofText s).pieces ∧ scan .nothing t = [.quoted ⟨ps, .cut⟩] := by
  obtain ⟨c, rest, rfl⟩ := List.exists_cons_of_ne_nil hne
  rw [Quoted.quote] at h hcut
  obtain ⟨rfl, hrest⟩ := List.cons_prefix_cons.1 h
  have hopen : scan .nothing ('\x22' :: rest) = scan (.quoted [] .plain) rest := rfl
  rcases List.prefix_concat_iff.1 hrest with rfl | hrest
  · exact absurd rfl hcut
  · rw [hopen]
    exact scan_cut_flatMap_escape hrest []

/-- The beginning of a word is one token. -/
theorem scan_cut_word (w : Word) {t : List Char} (h : t <+: w.letters) (hne : t ≠ [])
    (hcut : t ≠ w.letters) : scan .nothing t = [.brokenWord w true] := by
  have hletters : ∀ n < w.letters.length, n ≠ 0 →
      scan .nothing (w.letters.take n) = [.brokenWord w true] := by
    cases w with
    | null => decide
    | boolean b => cases b <;> decide
  rw [List.prefix_iff_eq_take.1 h]
  refine hletters t.length ?_ fun hnil => hne (List.eq_nil_of_length_eq_zero hnil)
  exact lt_of_le_of_ne h.length_le fun hlength => hcut (h.eq_of_length hlength)

/-- A token that is cut is no bracket. -/
theorem Cut.step {t t' : Token} (h : t.Cut t') (l : Outline.Levels) :
    l.step t' = l.add (.token t') := by
  cases h <;> rfl

end Token

/-! ## Texts -/

namespace Outline

open Document

/-- Read up to its end, a text leaves these parts at the innermost level. -/
def Leaves (t : List Char) (ps : List Part) : Prop :=
  ∀ l, (run l t).finish = (l.append ps).finish

theorem leaves_nil : Leaves [] [] := fun _ => rfl

namespace Leaves

variable {t t' : List Char} {ps ps' : List Part}

theorem of_adds (h : Adds t ps) : Leaves t ps := by
  intro l
  have hrun := h [] l Token.closes_nil
  rw [List.append_nil] at hrun
  rw [hrun]
  rfl

theorem comma (h : Leaves t ps) : Leaves (',' :: t) (.token .comma :: ps) := by
  intro l
  have hcomma : run l (',' :: t) = run (l.append [.token .comma]) t := rfl
  rw [hcomma, h, Levels.append_append]
  rfl

/-- A text behind one that is complete. -/
theorem behind (h : Adds t ps) (h' : Leaves t' ps') (hcloses : Token.Closes t') :
    Leaves (t ++ t') (ps ++ ps') := by
  intro l
  rw [h _ _ hcloses, h', Levels.append_append]

/-- A text behind a name and a colon. -/
theorem named (name : String) (h : Leaves t ps) :
    Leaves (Quoted.quote name ++ ':' :: t)
      (.token (.quoted (.ofText name)) :: .token .colon :: ps) := by
  intro l
  have hcolon (l : Levels) : run l (':' :: t) = run (l.append [.token .colon]) t := rfl
  have hname : run l (Quoted.quote name ++ ':' :: t)
      = run (l.append [.token (.quoted (.ofText name))]) (':' :: t) := by
    rw [run, Token.scan_quote]
    rfl
  rw [hname, hcolon, h, Levels.append_append, Levels.append_append]
  rfl

/-- Behind a bracket that is never closed, one part is left with whatever stands in it. -/
theorem bracket (b : Bracket) (h : Leaves t ps) {c : Char}
    (hc : ∀ rest, Token.scan .nothing (c :: rest) = .opening b :: Token.scan .nothing rest) :
    Leaves (c :: t) [Part.ofBracket b true ps] := by
  intro l
  have hopen : run l (c :: t) = run (l.step (.opening b)) t := by
    rw [run, hc]
    rfl
  rw [hopen, h]
  simp [Levels.step, Levels.append, Levels.finish, cutLevel]

/-- A text that is one token, and no bracket. -/
theorem of_scan {tok : Token} (h : Token.scan .nothing t = [tok])
    (htok : ∀ l : Levels, l.step tok = l.add (.token tok)) : Leaves t [.token tok] := by
  intro l
  rw [run, h, List.foldl_cons, List.foldl_nil, htok]
  rfl

/-- A token that is cut leaves what is left of its part. -/
theorem exists_of_scan {tok : Token}
    (h : ∃ tok', tok.Cut tok' ∧ Token.scan .nothing t = [tok']) :
    ∃ c, (Part.token tok).Cut c ∧ Leaves t [c] := by
  obtain ⟨tok', hcut, hscan⟩ := h
  exact ⟨.token tok', .token hcut, of_scan hscan hcut.step⟩

end Leaves

/-- The beginning of a member: of its name, or of its value behind the colon. -/
theorem exists_cutMember (name : String) {d : Document}
    (hd : ∀ {t : List Char}, t <+: d.print → t ≠ [] → t ≠ d.print →
      ∃ c, d.part.Cut c ∧ Leaves t [c])
    {t : List Char} (h : t <+: Quoted.quote name ++ ':' :: d.print) (hne : t ≠ [])
    (hcut : t ≠ Quoted.quote name ++ ':' :: d.print) (rest : List (Key × Part)) :
    ∃ p raw ms ending, Leaves t (p :: raw) ∧ Part.members true (p :: raw) = (ms, ending)
      ∧ Part.CutMembers ((some (.ofText name), d.part) :: rest) ms ending := by
  rcases prefix_append_cases h with ⟨hname, hcutName⟩ | ⟨t', rfl, ht'⟩
  · obtain ⟨ps, hps, hscan⟩ := Token.scan_cut_quote hname hne hcutName
    exact ⟨_, _, _, _, .of_scan hscan fun _ => rfl, rfl, .name hps _ _⟩
  rcases List.prefix_cons_iff.1 ht' with rfl | ⟨t'', rfl, ht''⟩
  · have hname : Token.scan .nothing (Quoted.quote name ++ []) = [.quoted (.ofText name)] :=
      Token.scan_quote name []
    exact ⟨_, _, _, _, .of_scan hname fun _ => rfl, rfl, .afterName _ _ _⟩
  by_cases hnil : t'' = []
  · subst hnil
    exact ⟨_, _, _, _, .named name leaves_nil, rfl, .colon _ _ _⟩
  · obtain ⟨c, hc, hleaves⟩ := hd ht'' hnil fun hall => hcut (by rw [hall])
    exact ⟨_, _, _, _, .named name hleaves, rfl, .within _ hc _⟩

/-- A beginning of texts with commas between them ends within the first, or behind it, or goes on
behind its comma. -/
theorem prefix_commas_cases {t u : List Char} {ts : List (List Char)} (h : t <+: commas (u :: ts)) :
    t <+: u ∧ t ≠ u ∨ t = u ∨ ∃ t', t = u ++ ',' :: t' ∧ t' <+: commas ts ∧ ts ≠ [] := by
  cases ts with
  | nil =>
    by_cases heq : t = u
    · exact .inr (.inl heq)
    · exact .inl ⟨h, heq⟩
  | cons v rest =>
    rcases prefix_append_cases (show t <+: u ++ ',' :: commas (v :: rest) from h) with
      hfirst | ⟨t', rfl, ht'⟩
    · exact .inl hfirst
    rcases List.prefix_cons_iff.1 ht' with rfl | ⟨t'', rfl, ht''⟩
    · exact .inr (.inl (List.append_nil u))
    · exact .inr (.inr ⟨t'', rfl, ht'', by simp⟩)

mutual

/-- **The outline of the beginning of a document** is what is left of its part. -/
theorem exists_cut : ∀ (d : Document) {t : List Char}, t <+: d.print → t ≠ [] → t ≠ d.print →
    ∃ c, d.part.Cut c ∧ Leaves t [c]
  | .null, t, h, hne, hcut =>
    Leaves.exists_of_scan ⟨_, .word .null, Token.scan_cut_word .null h hne hcut⟩
  | .boolean true, t, h, hne, hcut =>
    Leaves.exists_of_scan ⟨_, .word _, Token.scan_cut_word (.boolean true) h hne hcut⟩
  | .boolean false, t, h, hne, hcut =>
    Leaves.exists_of_scan ⟨_, .word _, Token.scan_cut_word (.boolean false) h hne hcut⟩
  | .integer n, t, h, hne, _ =>
    Leaves.exists_of_scan (Token.scan_cut_numeral (Numeral.isNumeral_toString n) h hne)
  | .double x, t, h, hne, hcut => by
    refine Leaves.exists_of_scan ?_
    rw [print] at h hcut
    unfold Double.token
    split
    · next hx => exact Token.scan_cut_numeral (Double.isNumeral_stored hx) h hne
    · next hx =>
      have hnull : x.stored.toList = Word.null.letters := by
        rw [Double.stored, if_neg hx]
        rfl
      rw [hnull] at h hcut
      exact ⟨_, .word .null, Token.scan_cut_word .null h hne hcut⟩
  | .text s, t, h, hne, hcut => by
    obtain ⟨ps, hps, hscan⟩ := Token.scan_cut_quote h hne hcut
    exact Leaves.exists_of_scan ⟨_, .quoted hps, hscan⟩
  | .list items, t, h, hne, hcut => by
    rw [print] at h hcut
    rcases List.prefix_cons_iff.1 h with rfl | ⟨t', rfl, ht'⟩
    · exact absurd rfl hne
    rcases List.prefix_concat_iff.1 ht' with rfl | ht'
    · exact absurd rfl hcut
    by_cases hnil : t' = []
    · subst hnil
      exact ⟨.list [] .cut, .list (.stop _), .bracket .square leaves_nil fun _ => rfl⟩
    · obtain ⟨p, ps, raw, ending, hleaves, hraw, hitems⟩ := exists_cutItems items ht' hnil
      have hlist := hleaves.bracket .square (c := '[') fun _ => rfl
      rw [Part.ofBracket, Part.ofItems, hraw] at hlist
      exact ⟨_, .list hitems, hlist⟩
  | .object members, t, h, hne, hcut => by
    rw [print] at h hcut
    rcases List.prefix_cons_iff.1 h with rfl | ⟨t', rfl, ht'⟩
    · exact absurd rfl hne
    rcases List.prefix_concat_iff.1 ht' with rfl | ht'
    · exact absurd rfl hcut
    by_cases hnil : t' = []
    · subst hnil
      exact ⟨.object [] .cut, .object (.stop _), .bracket .curly leaves_nil fun _ => rfl⟩
    · obtain ⟨p, raw, ms, ending, hleaves, hraw, hms⟩ := exists_cutMembers members ht' hnil
      have hobject := hleaves.bracket .curly (c := '\x7b') fun _ => rfl
      have hmembers : Part.ofBracket .curly true (p :: raw)
          = .object (Part.members true (p :: raw)).1 (Part.members true (p :: raw)).2 := rfl
      rw [hmembers, hraw] at hobject
      exact ⟨_, .object hms, hobject⟩

theorem exists_cutItems : ∀ (items : List Document) {t : List Char},
    t <+: commas (printItems items) → t ≠ [] →
    ∃ p ps raw ending, Leaves t (p :: raw) ∧ Part.moreItems true raw = (ps, ending)
      ∧ Part.CutItems (itemParts items) (p :: ps) ending
  | [], t, h, hne => absurd (List.prefix_nil.1 h) hne
  | d :: items, t, h, hne => by
    have hcomma : Leaves [','] [.token .comma] := leaves_nil.comma
    rcases prefix_commas_cases h with ⟨hd, hcut⟩ | rfl | ⟨t', rfl, ht', hmore⟩
    · obtain ⟨c, hc, hleaves⟩ := exists_cut d hd hne hcut
      exact ⟨c, [], [], .cut, hleaves, rfl, .within hc _⟩
    · exact ⟨d.part, [], [], .cut, .of_adds (adds_print d), rfl, .more _ (.stop _)⟩
    by_cases hnil : t' = []
    · subst hnil
      obtain ⟨d', rest, rfl⟩ : ∃ d' rest, items = d' :: rest := by
        cases items with
        | nil => exact absurd rfl hmore
        | cons d' rest => exact ⟨d', rest, rfl⟩
      have hleaves := Leaves.behind (adds_print d) hcomma (Token.closes_cons (.inl rfl) [])
      exact ⟨d.part, [], [.token .comma], .afterComma true, hleaves, rfl, .comma _ _ _⟩
    · obtain ⟨p, ps, raw, ending, hrest, hraw, hitems⟩ := exists_cutItems items ht' hnil
      have hleaves := Leaves.behind (adds_print d) hrest.comma (Token.closes_cons (.inl rfl) t')
      have hall : Part.moreItems true (.token .comma :: p :: raw) = (p :: ps, ending) := by
        rw [Part.moreItems, hraw]
        rfl
      exact ⟨d.part, p :: ps, _, ending, hleaves, hall, .more _ hitems⟩

theorem exists_cutMembers : ∀ (members : List (String × Document)) {t : List Char},
    t <+: commas (printMembers members) → t ≠ [] →
    ∃ p raw ms ending, Leaves t (p :: raw) ∧ Part.members true (p :: raw) = (ms, ending)
      ∧ Part.CutMembers (memberParts members) ms ending
  | [], t, h, hne => absurd (List.prefix_nil.1 h) hne
  | (name, d) :: members, t, h, hne => by
    have hcomma : Leaves [','] [.token .comma] := leaves_nil.comma
    have hfull := (adds_print d).named name
    rcases prefix_commas_cases h with ⟨hfirst, hcut⟩ | rfl | ⟨t', rfl, ht', hmore⟩
    · exact exists_cutMember name (exists_cut d) hfirst hne hcut _
    · exact ⟨_, _, _, _, .of_adds hfull, rfl, .more _ (.stop _)⟩
    by_cases hnil : t' = []
    · subst hnil
      obtain ⟨m, rest, rfl⟩ : ∃ m rest, members = m :: rest := by
        cases members with
        | nil => exact absurd rfl hmore
        | cons m rest => exact ⟨m, rest, rfl⟩
      have hleaves := Leaves.behind hfull hcomma (Token.closes_cons (.inl rfl) [])
      exact ⟨_, _, _, _, hleaves, rfl, .comma _ _ _⟩
    · obtain ⟨p, raw, ms, ending, hrest, hraw, hms⟩ := exists_cutMembers members ht' hnil
      have hleaves := Leaves.behind hfull hrest.comma (Token.closes_cons (.inl rfl) t')
      have hall : Part.members true
          (Part.ofMember (.ofText name, d.part) ++ .token .comma :: p :: raw)
          = ((some (.ofText name), d.part) :: ms, ending) := by
        simp only [Part.ofMember, List.cons_append, List.nil_append]
        rw [Part.members]
        simp [Part.isColon, Part.isComma, Part.key, hraw]
      exact ⟨_, _, _, _, hleaves, hall, .more _ hms⟩

end

/-- The outline of a text that a document begins with. -/
theorem exists_cut_ofText {d : Document} {t : String} (h : t.toList <+: d.print)
    (hne : t.toList ≠ []) (hcut : t.toList ≠ d.print) :
    ∃ c, d.part.Cut c ∧ ofText t = [c] := by
  obtain ⟨c, hc, hleaves⟩ := exists_cut d h hne hcut
  exact ⟨c, hc, hleaves ⟨[], []⟩⟩

end Outline

end SqlTree.Json
