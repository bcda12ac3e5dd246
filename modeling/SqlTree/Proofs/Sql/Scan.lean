import SqlTree.Sql.Text

/-!
# Literals in a text

`scan` takes a text apart from left to right: a quote opens a literal, a doubled quote inside stands
for one quote, and the next quote that is not doubled closes it.

Two texts may be the same outside their literals. `Filled t e ss` says so of a text `t` and of `e`,
which has the same literals emptied, where `ss` are the contents in `t`. What follows must not begin
with a quote, for that would be taken into a last literal; so the templates of SQL keep `Filled` as
long as each part but the first begins with something else (`Clause`).
-/

namespace SqlTree

open Template

/-! ## Scanning -/

/-- What a scan finds. -/
inductive Piece where
  /-- a character outside of literals -/
  | plain (c : Char)
  /-- a literal with these contents -/
  | literal (contents : String)
  /-- a literal that the text does not close -/
  | unclosed (contents : String)
  deriving DecidableEq

/-- Where a scan stands. -/
inductive Piece.Place where
  | outside
  /-- in a literal, behind these contents -/
  | inside (contents : String)
  /-- behind a quote in a literal, which may be closed or may go on -/
  | behindQuote (contents : String)

/-- The pieces of a text. -/
def Piece.scan : Place → List Char → List Piece
  | .outside, [] => []
  | .inside s, [] => [.unclosed s]
  | .behindQuote s, [] => [.literal s]
  | .outside, c :: rest =>
    if c = '\x27' then scan (.inside "") rest else .plain c :: scan .outside rest
  | .inside s, c :: rest =>
    if c = '\x27' then scan (.behindQuote s) rest else scan (.inside (s.push c)) rest
  | .behindQuote s, c :: rest =>
    if c = '\x27' then scan (.inside (s.push c)) rest
    else .literal s :: .plain c :: scan .outside rest

/-- The pieces of a whole text. -/
def pieces (text : String) : List Piece := Piece.scan .outside text.toList

namespace Piece

/-- The contents of the literals, in order. -/
def literals (ps : List Piece) : List String :=
  ps.filterMap fun
    | .literal s => some s
    | _ => none

/-- The text outside of the literals, with a gap for each of them. -/
def outside (ps : List Piece) : List (Option Char) :=
  ps.map fun
    | .plain c => some c
    | _ => none

/-- Is every literal closed? -/
def Closed (ps : List Piece) : Prop := ∀ s, .unclosed s ∉ ps

@[simp] theorem literals_append (ps qs : List Piece) :
    literals (ps ++ qs) = literals ps ++ literals qs := List.filterMap_append

@[simp] theorem outside_append (ps qs : List Piece) :
    outside (ps ++ qs) = outside ps ++ outside qs := List.map_append

theorem Closed.append {ps qs : List Piece} (hps : Closed ps) (hqs : Closed qs) :
    Closed (ps ++ qs) := by
  intro s hs
  rcases List.mem_append.1 hs with hs | hs
  · exact hps s hs
  · exact hqs s hs

theorem literals_plain (cs : List Char) : literals (cs.map .plain) = [] := by
  rw [literals, List.filterMap_map]
  exact List.filterMap_eq_nil_iff.2 fun _ _ => rfl

theorem closed_plain (cs : List Char) : Closed (cs.map .plain) := by
  intro s hs
  obtain ⟨c, -, hc⟩ := List.mem_map.1 hs
  cases hc

/-! ## Texts before a continuation -/

/-- Whatever follows does not begin with a quote. -/
def Follows (rest : List Char) : Prop := rest.head? ≠ some '\x27'

theorem follows_nil : Follows [] := by
  simp [Follows]

theorem follows_cons {c : Char} (hc : c ≠ '\x27') (rest : List Char) : Follows (c :: rest) := by
  simp [Follows, hc]

/-- The text yields these pieces, whatever follows. -/
def Scans (text : List Char) (ps : List Piece) : Prop :=
  ∀ rest, Follows rest → scan .outside (text ++ rest) = ps ++ scan .outside rest

theorem Scans.pieces_eq {text : String} {ps : List Piece} (h : Scans text.toList ps) :
    pieces text = ps := by
  have hscan := h [] follows_nil
  simpa [pieces, scan] using hscan

theorem scan_plain {text : List Char} (h : '\x27' ∉ text) (rest : List Char) :
    scan .outside (text ++ rest) = text.map .plain ++ scan .outside rest := by
  induction text with
  | nil => rfl
  | cons c text ih =>
    obtain ⟨hc, htext⟩ := not_or.1 (mt List.mem_cons.2 h)
    rw [List.cons_append, scan, if_neg (Ne.symm hc), ih htext, List.map_cons, List.cons_append]

theorem scan_inside (s : String) (cs rest : List Char) :
    scan (.inside s) (doubled cs ++ rest) = scan (.inside (s ++ String.ofList cs)) rest := by
  induction cs generalizing s with
  | nil => simp [doubled]
  | cons c cs ih =>
    have hpush : s ++ String.ofList (c :: cs) = s.push c ++ String.ofList cs := by
      apply String.toList_inj.1
      simp
    rw [hpush, ← ih]
    by_cases hc : c = '\x27'
    · simp [doubled, hc, scan]
    · simp [doubled, hc, scan]

theorem scan_behindQuote (s : String) {rest : List Char} (hrest : Follows rest) :
    scan (.behindQuote s) rest = .literal s :: scan .outside rest := by
  cases rest with
  | nil => rfl
  | cons c rest =>
    have hc : c ≠ '\x27' := fun h => hrest (h ▸ rfl)
    rw [scan, scan, if_neg hc, if_neg hc]

/-- A quoted text is one literal with just this text. -/
theorem scans_quoted (s : String) : Scans (quoted s).toList [.literal s] := by
  intro rest hrest
  have hquoted : (quoted s).toList ++ rest = '\x27' :: (doubled s.toList ++ '\x27' :: rest) := by
    simp [quoted]
  rw [hquoted, scan, if_pos rfl, scan_inside, scan, if_pos rfl, scan_behindQuote _ hrest]
  simp

end Piece

/-! ## Texts that agree outside of literals -/

open Piece

/-- There is no quote in the text. -/
def Unquoted (text : String) : Prop := '\x27' ∉ text.toList

instance (text : String) : Decidable (Unquoted text) := inferInstanceAs (Decidable (_ ∉ _))

/-- A text that keeps literals on both sides apart. -/
def IsKeyword (text : String) : Prop := Unquoted text ∧ text ≠ ""

instance (text : String) : Decidable (IsKeyword text) := inferInstanceAs (Decidable (_ ∧ _))

theorem Unquoted.append {s t : String} (hs : Unquoted s) (ht : Unquoted t) : Unquoted (s ++ t) := by
  rw [Unquoted, String.toList_append]
  intro h
  rcases List.mem_append.1 h with h | h
  · exact hs h
  · exact ht h

theorem unquoted_joined (separator : String) (hseparator : Unquoted separator) :
    ∀ {texts : List String}, (∀ t ∈ texts, Unquoted t) → Unquoted (joined separator texts)
  | [], _ => show Unquoted "" by decide
  | [t], h => h t List.mem_cons_self
  | t :: u :: rest, h => by
    have ht := h t List.mem_cons_self
    have hrest := unquoted_joined separator hseparator fun v hv => h v (List.mem_cons_of_mem t hv)
    exact (ht.append hseparator).append hrest

/-- `t` closes its literals, which have the contents `ss`, and is the same as `e` outside of
them. -/
def Filled (t e : String) (ss : List String) : Prop :=
  ∃ ps qs, Scans t.toList ps ∧ Scans e.toList qs ∧ Closed ps ∧ literals ps = ss
    ∧ outside ps = outside qs

/-- Two texts that may stand behind a literal. -/
structure Clause (t e : String) (ss : List String) : Prop where
  filled : Filled t e ss
  follows : Follows t.toList
  follows_emptied : Follows e.toList

theorem Piece.Follows.append {text rest : List Char} (h : Follows text) (hrest : Follows rest) :
    Follows (text ++ rest) := by
  cases text with
  | nil => exact hrest
  | cons c text => exact h

theorem Piece.Scans.append {s t : List Char} {ps qs : List Piece} (hs : Scans s ps)
    (ht : Scans t qs) (hfollows : Follows t) : Scans (s ++ t) (ps ++ qs) := by
  intro rest hrest
  rw [List.append_assoc, hs _ (hfollows.append hrest), ht rest hrest, List.append_assoc]

variable {t e t' e' : String} {ss ss' : List String}

theorem Filled.append (h : Filled t e ss) (h' : Clause t' e' ss') :
    Filled (t ++ t') (e ++ e') (ss ++ ss') := by
  obtain ⟨ps, qs, hps, hqs, hclosed, hliterals, houtside⟩ := h
  obtain ⟨⟨ps', qs', hps', hqs', hclosed', hliterals', houtside'⟩, hfollows, hemptied⟩ := h'
  refine ⟨ps ++ ps', qs ++ qs', ?_, ?_, hclosed.append hclosed', ?_, ?_⟩
  · rw [String.toList_append]
    exact hps.append hps' hfollows
  · rw [String.toList_append]
    exact hqs.append hqs' hemptied
  · rw [literals_append, hliterals, hliterals']
  · rw [outside_append, outside_append, houtside, houtside']

theorem Clause.append (h : Clause t e ss) (h' : Clause t' e' ss') :
    Clause (t ++ t') (e ++ e') (ss ++ ss') where
  filled := h.filled.append h'
  follows := by
    rw [String.toList_append]
    exact h.follows.append h'.follows
  follows_emptied := by
    rw [String.toList_append]
    exact h.follows_emptied.append h'.follows_emptied

/-- A text without quotes. -/
theorem Clause.plain (h : Unquoted t) : Clause t t [] := by
  have hscan : Scans t.toList (t.toList.map .plain) := fun rest _ => scan_plain h rest
  have hfollows : Follows t.toList := fun hhead => h (List.mem_of_mem_head? hhead)
  exact ⟨⟨_, _, hscan, hscan, closed_plain _, literals_plain _, rfl⟩, hfollows, hfollows⟩

theorem Clause.empty : Clause "" "" [] := .plain (by decide)

/-- A value and the empty one. -/
theorem Filled.literal (s : String) : Filled (quoted s) (quoted "") [s] := by
  refine ⟨_, _, scans_quoted s, scans_quoted "", ?_, rfl, rfl⟩
  intro s' hs'
  cases List.mem_singleton.1 hs'

/-- A text may stand behind a keyword, whatever it begins with. -/
theorem Clause.behind (keyword : String) (hkeyword : IsKeyword keyword) (h : Filled t e ss) :
    Clause (keyword ++ t) (keyword ++ e) ss := by
  obtain ⟨ps, qs, hps, hqs, hclosed, hliterals, houtside⟩ := h
  have hscan {text : String} {rs : List Piece} (htext : Scans text.toList rs) :
      Scans (keyword ++ text).toList (keyword.toList.map .plain ++ rs) := by
    intro rest hrest
    rw [String.toList_append, List.append_assoc, scan_plain hkeyword.1, htext rest hrest,
      List.append_assoc]
  have hfollows (text : String) : Follows (keyword ++ text).toList := by
    have hlist : keyword.toList ≠ [] := by simpa using hkeyword.2
    obtain ⟨c, cs, hcs⟩ := List.exists_cons_of_ne_nil hlist
    rw [String.toList_append, hcs]
    refine follows_cons (fun hc => hkeyword.1 ?_) _
    rw [hcs, hc]
    exact List.mem_cons_self
  have hplain : Closed (keyword.toList.map .plain) := closed_plain _
  refine ⟨⟨_, _, hscan hps, hscan hqs, hplain.append hclosed, ?_, ?_⟩, hfollows t, hfollows e⟩
  · rw [literals_append, literals_plain, hliterals, List.nil_append]
  · rw [outside_append, outside_append, houtside]

/-- Two texts with a keyword between them. -/
theorem Filled.around (h : Filled t e ss) (keyword : String) (hkeyword : IsKeyword keyword)
    (h' : Filled t' e' ss') : Filled (t ++ keyword ++ t') (e ++ keyword ++ e') (ss ++ ss') := by
  rw [String.append_assoc, String.append_assoc]
  exact h.append (.behind keyword hkeyword h')

/-! ## Templates -/

variable {α : Type} {f g : α → String} {contents : α → List String}

theorem Filled.joined (keyword : String) (hkeyword : IsKeyword keyword) :
    ∀ {as : List α}, (∀ a ∈ as, Filled (f a) (g a) (contents a)) →
      Filled (joined keyword (as.map f)) (joined keyword (as.map g)) (as.flatMap contents)
  | [], _ => Clause.empty.filled
  | [a], h => by
    have ha := h a List.mem_cons_self
    simpa [Template.joined] using ha
  | a :: b :: rest, h => by
    have ha := h a List.mem_cons_self
    have hrest := Filled.joined keyword hkeyword fun c hc => h c (List.mem_cons_of_mem a hc)
    have haround := ha.around keyword hkeyword hrest
    rw [List.flatMap_cons]
    exact haround

/-- Clauses one right after the other. -/
theorem Clause.joined : ∀ {as : List α}, (∀ a ∈ as, Clause (f a) (g a) (contents a)) →
    Clause (Template.joined "" (as.map f)) (Template.joined "" (as.map g)) (as.flatMap contents)
  | [], _ => .empty
  | [a], h => by
    have ha := h a List.mem_cons_self
    simpa [Template.joined] using ha
  | a :: b :: rest, h => by
    have ha := h a List.mem_cons_self
    have hrest := Clause.joined fun c hc => h c (List.mem_cons_of_mem a hc)
    simpa [Template.joined] using ha.append hrest

theorem Clause.list (keyword closing : String) (hkeyword : IsKeyword keyword)
    (hclosing : Unquoted closing) {as : List α}
    (h : ∀ a ∈ as, Filled (f a) (g a) (contents a)) :
    Clause (listClause keyword closing (as.map f)) (listClause keyword closing (as.map g))
      (as.flatMap contents) := by
  cases as with
  | nil => exact .empty
  | cons a rest =>
    have hjoined := Filled.joined ", " (by decide) h
    have hclause := (Clause.behind keyword hkeyword hjoined).append (.plain hclosing)
    simpa [listClause] using hclause

end SqlTree
