import SqlTree.Proofs.Sql.Flow

/-!
# One line, single blanks

Outside of literals SQL is one line: words and marks with single blanks between them, none inside a
parenthesis at its ends, and one behind every comma. Each writer brings its own blanks, so this is a
matter of how neighbours fit. `Spaced` says it of a piece of text between two places of the grammar
in `Flow`: what stands at its ends fits whatever may stand on the other side of the place
(`Flow.Place.fits`), so pieces compose.
-/

namespace SqlTree

open Piece Template

/-! ## Neighbours -/

/-- May these stand next to each other? Each is a character outside of literals, or the gap that a
literal leaves. -/
def Fits (x y : Option Char) : Prop :=
  (x = some ',' → y = some ' ') ∧ (y = some ' ' → x ∉ [some ' ', some '('])
    ∧ (y ∈ [some ')', some ','] → x ≠ some ' ')

instance : DecidableRel Fits := fun _ _ => inferInstanceAs (Decidable (_ ∧ _))

/-- No white space but a blank, and no semicolon. -/
def IsInline : Option Char → Prop
  | none => True
  | some c => c ≠ ';' ∧ (isWhite c = true → c = ' ')

instance : DecidablePred IsInline
  | none => .isTrue trivial
  | some _ => inferInstanceAs (Decidable (_ ∧ _))

namespace Flow

/-- May this stand right behind the place? -/
def Place.Precedes : Place → Option Char → Prop
  | .before, y => y ∉ [some ' ', some ')', some ',']
  | .behind, _ => True

/-- May this stand right in front of the place? -/
def Place.Succeeds : Place → Option Char → Prop
  | .before, x => x ∈ [some ' ', some '(', some '.']
  | .behind, x => x ∉ [some ' ', some '(', some ',']

instance (p : Place) (x : Option Char) : Decidable (p.Precedes x) := by
  cases p
  · exact inferInstanceAs (Decidable (_ ∉ _))
  · exact inferInstanceAs (Decidable True)

instance (p : Place) (x : Option Char) : Decidable (p.Succeeds x) := by
  cases p
  · exact inferInstanceAs (Decidable (_ ∈ _))
  · exact inferInstanceAs (Decidable (_ ∉ _))

/-- What may stand on both sides of a place fits. -/
theorem Place.fits {p : Place} {x y : Option Char} (hx : p.Succeeds x) (hy : p.Precedes y) :
    Fits x y := by
  cases p with
  | before =>
    simp only [Succeeds, Precedes, List.mem_cons, List.not_mem_nil, or_false, not_or] at hx hy
    rcases hx with rfl | rfl | rfl <;> simp [Fits, hy]
  | behind =>
    simp only [Succeeds, List.mem_cons, List.not_mem_nil, or_false, not_or] at hx
    simp [Fits, hx]

/-- The text outside of the literals of a piece between two places. -/
structure Spaced (p q : Place) (xs : List (Option Char)) : Prop where
  inline : ∀ x ∈ xs, IsInline x
  chain : xs.IsChain Fits
  first : ∀ x ∈ xs.head?, p.Precedes x
  last : ∀ x ∈ xs.getLast?, q.Succeeds x
  stays : xs = [] → p = q

theorem Spaced.append {p q r : Place} {xs ys : List (Option Char)} (hxs : Spaced p q xs)
    (hys : Spaced q r ys) : Spaced p r (xs ++ ys) where
  inline := List.forall_mem_append.2 ⟨hxs.inline, hys.inline⟩
  chain := hxs.chain.append hys.chain fun _ hx _ hy => Place.fits (hxs.last _ hx) (hys.first _ hy)
  first := by
    cases xs with
    | nil =>
      rw [hxs.stays rfl]
      exact hys.first
    | cons x rest => exact hxs.first
  last := by
    rcases List.eq_nil_or_concat ys with rfl | ⟨rest, y, rfl⟩
    · rw [← hys.stays rfl, List.append_nil]
      exact hxs.last
    · intro z hz
      refine hys.last z ?_
      simpa [← List.append_assoc] using hz
  stays h := by
    obtain ⟨hxs', hys'⟩ := List.append_eq_nil_iff.1 h
    rw [hxs.stays hxs', hys.stays hys']

/-- The characters of a keyword. -/
theorem keyword_char {c : Char} (h : c = ' ' ∨ IsSolid c) :
    c ∉ ['(', ')', ',', ';', '\x27'] ∧ (isWhite c = true → c = ' ') := by
  rcases h with rfl | ⟨hwhite, hmark⟩
  · exact ⟨by decide, fun _ => rfl⟩
  · refine ⟨hmark, fun h => ?_⟩
    rw [hwhite] at h
    cases h

theorem Keyword.spaced {p q : Place} {k : String} (h : Keyword p q k) :
    Spaced p q (k.toList.map some) := by
  obtain ⟨hne, hchars, hchain, hfirst, hlast⟩ := h
  have hmarks {c : Char} (hc : c ∈ k.toList) : c ∉ ['(', ')', ',', ';', '\x27'] :=
    (keyword_char (hchars c hc)).1
  refine ⟨?inline, ?chain, ?first, ?last, ?stays⟩
  case inline =>
    intro x hx
    obtain ⟨c, hc, rfl⟩ := List.mem_map.1 hx
    obtain ⟨hmark, hwhite⟩ := keyword_char (hchars c hc)
    exact ⟨fun heq => hmark (by simp [heq]), hwhite⟩
  case chain =>
    refine (List.isChain_map some).2 (hchain.imp_of_mem_imp fun c d hc hd hne => ?_)
    have hcmark := hmarks hc
    have hdmark := hmarks hd
    simp only [List.mem_cons, List.not_mem_nil, or_false, not_or] at hcmark hdmark
    simp only [Fits, List.mem_cons, List.not_mem_nil, or_false, not_or, Option.some.injEq]
    exact ⟨fun heq => absurd heq hcmark.2.2.1, fun hblank => ⟨fun heq => hne heq hblank, hcmark.1⟩,
      fun hclosing => absurd hclosing (by simp [hdmark])⟩
  case first =>
    intro x hx
    obtain ⟨c, hc, rfl⟩ : ∃ c, k.toList.head? = some c ∧ some c = x := by simpa using hx
    have hmark := hmarks (List.mem_of_mem_head? hc)
    cases p with
    | behind => trivial
    | before =>
      have hblank : c ≠ ' ' := fun heq => by simpa using hfirst.1 (heq ▸ hc)
      simp only [List.mem_cons, List.not_mem_nil, or_false, not_or] at hmark
      simp [Place.Precedes, hblank, hmark]
  case last =>
    intro x hx
    obtain ⟨c, hc, rfl⟩ : ∃ c, k.toList.getLast? = some c ∧ some c = x := by simpa using hx
    have hmark := hmarks (List.mem_of_mem_getLast? hc)
    cases q with
    | behind =>
      have hblank : c ≠ ' ' := fun heq => by simpa using hlast.1 (heq ▸ hc)
      simp only [List.mem_cons, List.not_mem_nil, or_false, not_or] at hmark
      simp [Place.Succeeds, hblank, hmark]
    | before =>
      have hblank := hlast.2 rfl
      rw [hc] at hblank
      simp [Place.Succeeds, hblank]
  case stays =>
    intro hnil
    simp [hne] at hnil

/-! ## Texts -/

/-- A text that fits between two places. -/
structure Laid (p q : Place) (t : List Char) : Prop where
  follows : p = .behind → Follows t
  scans : ∃ ps, (∀ rest, (q = .behind → Follows rest) →
      scan .outside (t ++ rest) = ps ++ scan .outside rest)
    ∧ Spaced p q (outside ps)
  first : p = .before → t.head? ≠ some ' '
  last : q = .behind → t.getLast? ≠ some ' '

namespace Laid

variable {p q r : Place} {s t : List Char}

theorem stays (h : Laid p q t) : t = [] → p = q := by
  rintro rfl
  obtain ⟨ps, hscan, hspaced⟩ := h.scans
  have hps := hscan [] fun _ => follows_nil
  refine hspaced.stays ?_
  have hnil : ps = [] := by simpa [scan] using hps.symm
  rw [hnil]
  rfl

/-- A text without quotes. -/
theorem plain (hquote : '\x27' ∉ t) (h : Spaced p q (t.map some)) : Laid p q t where
  follows _ := fun hhead => hquote (List.mem_of_mem_head? hhead)
  scans := by
    refine ⟨t.map .plain, fun rest _ => scan_plain hquote rest, ?_⟩
    simpa [outside, Function.comp_def] using h
  first := by
    rintro rfl hhead
    have hfirst := h.first (some ' ') (by simp [hhead])
    simp [Place.Precedes] at hfirst
  last := by
    rintro rfl hlast
    have hlast := h.last (some ' ') (by simp [hlast])
    simp [Place.Succeeds] at hlast

/-- Neither the text nor what is put behind it begins with a quote. -/
theorem follows_append (h : Laid p q t) (hp : p = .behind) {rest : List Char}
    (hrest : q = .behind → Follows rest) : Follows (t ++ rest) := by
  cases t with
  | nil => exact hrest (h.stays rfl ▸ hp)
  | cons c t => exact h.follows hp

theorem append (hs : Laid p q s) (ht : Laid q r t) : Laid p r (s ++ t) where
  follows hp := hs.follows_append hp ht.follows
  scans := by
    obtain ⟨ps, hps, hspaced⟩ := hs.scans
    obtain ⟨qs, hqs, hspaced'⟩ := ht.scans
    refine ⟨ps ++ qs, fun rest hrest => ?_, ?_⟩
    · rw [List.append_assoc, hps _ fun hq => ht.follows_append hq hrest, hqs _ hrest,
        List.append_assoc]
    · rw [outside_append]
      exact hspaced.append hspaced'
  first hp := by
    cases s with
    | nil => exact ht.first (hs.stays rfl ▸ hp)
    | cons c s => exact hs.first hp
  last hr := by
    by_cases hnil : t = []
    · subst hnil
      rw [List.append_nil]
      exact hs.last ((ht.stays rfl).trans hr)
    · rw [List.getLast?_append_of_ne_nil s hnil]
      exact ht.last hr

theorem keyword {k : String} (h : Keyword p q k) : Laid p q k.toList := by
  refine .plain (fun hmem => ?_) h.spaced
  exact (keyword_char (h.2.1 _ hmem)).1 (by simp)

theorem literal (s : String) : Laid .before .behind (quoted s).toList where
  follows := nofun
  scans := by
    have hgap : Spaced .before .behind [none] :=
      ⟨by decide, by decide, by decide, by decide, nofun⟩
    exact ⟨[.literal s], fun rest hrest => scans_quoted s rest (hrest rfl), hgap⟩
  first _ := by simp [quoted]
  last _ := by
    have hquoted : (quoted s).toList = '\x27' :: doubled s.toList ++ ['\x27'] := by
      simp [quoted]
    rw [hquoted, List.getLast?_concat]
    decide

/-- An opening parenthesis may stand before an operand and behind one. -/
theorem opening : Laid p .before ['('] := by
  refine .plain (by decide) ?_
  cases p <;> exact ⟨by decide, by decide, by decide, by decide, nofun⟩

theorem closing : Laid .behind .behind [')'] :=
  .plain (by decide) ⟨by decide, by decide, by decide, by decide, nofun⟩

theorem noParens : Laid p .behind ['(', ')'] := by
  refine .plain (by decide) ?_
  cases p <;> exact ⟨by decide, by decide, by decide, by decide, nofun⟩

theorem point : Laid .behind .before ['.'] :=
  .plain (by decide) ⟨by decide, by decide, by decide, by decide, nofun⟩

theorem comma : Laid .behind .before [',', ' '] :=
  .plain (by decide) ⟨by decide, by decide, by decide, by decide, nofun⟩

end Laid

/-- SQL made of words of solid characters fits between its places. -/
theorem laid {word : String → Prop} (hword : ∀ t, word t → t ≠ "" ∧ ∀ c ∈ t.toList, IsSolid c)
    {commas : Bool} {p q : Place} {t : String} (h : Flow word commas p q t) :
    Laid p q t.toList := by
  induction h with
  | nothing => exact .plain (by decide) ⟨nofun, .nil, nofun, nofun, fun _ => rfl⟩
  | append _ _ ihs iht =>
    rw [String.toList_append]
    exact ihs.append iht
  | keyword hk => exact .keyword hk
  | word ht =>
    obtain ⟨hne, hsolid⟩ := hword _ ht
    exact .keyword (.of_solid hne hsolid)
  | literal s => exact .literal s
  | point => exact .point
  | comma => exact .comma
  | parens _ iht =>
    rw [String.toList_append, String.toList_append]
    exact (Laid.opening.append iht).append .closing
  | noParens => exact .noParens

end Flow

/-! ## Nodes -/

/-- A text, with gaps for its literals, that is one line with single blanks. -/
structure WellSpaced (xs : List (Option Char)) : Prop where
  blank : ∀ c, some c ∈ xs → isWhite c = true → c = ' '
  single : ¬[some ' ', some ' '] <:+: xs
  semicolon : some ';' ∉ xs
  opening : ¬[some '(', some ' '] <:+: xs
  closing : ¬[some ' ', some ')'] <:+: xs
  comma : ¬[some ' ', some ','] <:+: xs
  afterComma : ∀ before behind, xs = before ++ some ',' :: behind →
    ∃ x rest, behind = some ' ' :: x :: rest ∧ x ≠ some ' '

theorem Flow.Spaced.wellSpaced {p : Flow.Place} {xs : List (Option Char)}
    (h : Flow.Spaced p .behind xs) : WellSpaced xs := by
  have hfits {x y : Option Char} (hpair : [x, y] <:+: xs) : Fits x y := by
    obtain ⟨before, behind, hxs⟩ := hpair
    have haround : xs = before ++ x :: y :: behind := by simp [← hxs]
    exact List.isChain_iff_forall_rel_of_append_cons_cons.1 h.chain haround
  refine ⟨?blank, ?single, ?semicolon, ?opening, ?closing, ?comma, ?afterComma⟩
  case blank => exact fun c hc => (h.inline _ hc).2
  case semicolon => exact fun hmem => (h.inline _ hmem).1 rfl
  case single => exact fun hpair => absurd (hfits hpair) (by decide)
  case opening => exact fun hpair => absurd (hfits hpair) (by decide)
  case closing => exact fun hpair => absurd (hfits hpair) (by decide)
  case comma => exact fun hpair => absurd (hfits hpair) (by decide)
  case afterComma =>
    intro before behind hxs
    have hlast {z : Option Char} {front : List (Option Char)} (hz : xs = front ++ [z]) :
        Flow.Place.behind.Succeeds z := h.last z (by simp [hz])
    cases behind with
    | nil => exact absurd (hlast hxs) (by decide)
    | cons y behind =>
      obtain rfl : y = some ' ' := (hfits ⟨before, behind, by simp [hxs]⟩).1 rfl
      cases behind with
      | nil =>
        have hblank : xs = before ++ [some ','] ++ [some ' '] := by simp [hxs]
        exact absurd (hlast hblank) (by decide)
      | cons x rest =>
        refine ⟨x, rest, rfl, fun hx => ?_⟩
        have hblanks : Fits (some ' ') x := hfits ⟨before ++ [some ','], rest, by simp [hxs]⟩
        rw [hx] at hblanks
        exact absurd hblanks (by decide)

namespace Node

/-- Does the SQL of the node begin with the blank that sets it off from what stands before it? -/
def isSetOff : Node → Bool
  | ⟨.join, ⟨_, .comma⟩⟩ => false
  | ⟨.join, _⟩ => true
  | ⟨.joinCondition, .predicate _⟩ | ⟨.joinCondition, .columns _⟩ => true
  | _ => false

theorem head?_join (j : Join) : j.sqlText.toList.head? = some ' ' ↔ isSetOff ⟨.join, j⟩ = true := by
  obtain ⟨relation, kind⟩ := j
  cases kind <;> simp [Join.sqlText, isSetOff]

theorem head?_joinCondition (c : JoinCondition) :
    c.sqlText.toList.head? = some ' ' ↔ isSetOff ⟨.joinCondition, c⟩ = true := by
  cases c <;> simp [JoinCondition.sqlText, isSetOff]

theorem isSetOff_eq_false {n : Node} (h : n.kind.start = .before) : n.isSetOff = false := by
  obtain ⟨kind, tree⟩ := n
  cases kind <;> first | rfl | cases h

/-- Is the text a word, not empty and of solid characters? -/
def IsSolidWord (t : String) : Prop := t ≠ "" ∧ ∀ c ∈ t.toList, IsSolid c

instance (t : String) : Decidable (IsSolidWord t) :=
  letI : Decidable (∀ c ∈ t.toList, IsSolid c) := List.decidableBAll _ _
  inferInstanceAs (Decidable (_ ∧ _))

/-- **SQL is one line with single blanks.** Where every name and every raw text is a word and no
dotted name is without parts, the SQL of a node has outside of its literals no white space but
single blanks, no semicolon, no blank behind an opening parenthesis, before a closing one or before
a comma, and just one behind every comma. It never ends with a blank, and begins with one just for a
join other than a comma and for a condition of a join that is written out. -/
theorem wellSpaced_toSql {n : Node} {sql : Logged String} (h : n.toSql? = some sql)
    (hwords : ∀ l ∈ n.leaves, l.IsWord IsSolidWord)
    (hparts : ∀ parts, Within ⟨.expr, .compound parts⟩ n → parts ≠ []) :
    WellSpaced (outside (pieces sql.value)) ∧ sql.value.toList.getLast? ≠ some ' '
      ∧ (sql.value.toList.head? = some ' ' ↔ n.isSetOff = true) := by
  have htext := sqlText?_of_toSql? h
  have hworded : n.Worded IsSolidWord :=
    ⟨hwords, fun hwithin => absurd rfl (hparts [] hwithin)⟩
  have hlaid := (hworded.flows sql.value htext).laid fun _ ht => ht
  obtain ⟨ps, hscan, hspaced⟩ := hlaid.scans
  have hpieces : pieces sql.value = ps := by
    have hall := hscan [] fun _ => follows_nil
    simpa [pieces, scan] using hall
  refine ⟨?_, hlaid.last rfl, ?_⟩
  · rw [hpieces]
    exact hspaced.wellSpaced
  · by_cases hstart : n.kind.start = .before
    · have hfirst := hlaid.first hstart
      simp [isSetOff_eq_false hstart, hfirst]
    · obtain ⟨kind, tree⟩ := n
      cases kind with
      | join =>
        rw [← Option.some.inj htext]
        exact head?_join tree
      | joinCondition =>
        rw [← Option.some.inj htext]
        exact head?_joinCondition tree
      | _ => exact absurd rfl hstart

/-- The condition `ON b.id = ' ;  '`. -/
def onText : Node :=
  ⟨.joinCondition, .predicate (.apply (.dotted ["b", "id"]) .equal (.constant (.text " ;  ")))⟩

theorem wellSpaced_onText :
    ∃ sql, onText.toSql? = some sql ∧ WellSpaced (outside (pieces sql.value))
      ∧ sql.value.toList.getLast? ≠ some ' '
      ∧ (sql.value.toList.head? = some ' ' ↔ onText.isSetOff = true) := by
  have hwords : ∀ l ∈ onText.leaves, l.IsWord IsSolidWord := by
    have hleaves : onText.leaves = [.name ⟨"b"⟩, .name ⟨"id"⟩, .constant (.text " ;  ")] := rfl
    rw [hleaves]
    simp [Leaf.IsWord]
    decide
  have hparts : ∀ parts, Within ⟨.expr, .compound parts⟩ onText → parts ≠ [] := by
    intro parts hwithin
    rcases within_iff.1 hwithin with h | ⟨c, hc, hwithin⟩
    · cases h
    obtain rfl := List.mem_singleton.1 hc
    rcases within_iff.1 hwithin with h | ⟨c, hc, hwithin⟩
    · cases h
    obtain rfl := List.mem_singleton.1 hc
    rcases within_iff.1 hwithin with h | ⟨c, hc, hwithin⟩
    · cases h
    rcases eq_or_eq_of_mem hc with rfl | rfl
    · rcases within_iff.1 hwithin with h | ⟨c, hc, hwithin⟩
      · cases h
        exact List.cons_ne_nil _ _
      · rcases eq_or_eq_of_mem hc with rfl | rfl <;>
          rcases within_iff.1 hwithin with h | ⟨c, hc, -⟩ <;> trivial
    · rcases within_iff.1 hwithin with h | ⟨c, hc, hwithin⟩
      · cases h
      · obtain rfl := List.mem_singleton.1 hc
        rcases within_iff.1 hwithin with h | ⟨c, hc, -⟩ <;> trivial
  exact ⟨_, rfl, wellSpaced_toSql rfl hwords hparts⟩

end Node

end SqlTree
