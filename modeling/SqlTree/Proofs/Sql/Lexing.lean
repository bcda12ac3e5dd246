import SqlTree.Proofs.Json.Document
import SqlTree.Proofs.Sql.Scan

/-!
# Lexemes of a text

`lex` cuts a text into words, marks and literals. Blanks only separate: a word ends at a blank, at a
mark and at a literal.

`Lexes t ts` says that the text `t` is cut into `ts`, whatever follows, as long as that begins with
a blank or a mark. A text that ends with one needs no such condition (`Breaks`), and one that begins
with one may stand behind anything (`Attaches`).
-/

namespace SqlTree

/-- What a text consists of. -/
inductive Lexeme where
  | word (text : String)
  /-- a bracket, a comma or a point -/
  | mark (c : Char)
  | literal (contents : String)
  deriving DecidableEq

def isMark (c : Char) : Bool := c == '(' || c == ')' || c == ',' || c == '.'

/-- Does the character end a word without belonging to anything longer? -/
def isDelimiter (c : Char) : Bool := c == ' ' || isMark c

namespace Lexeme

/-- The word that has been read, if it has a character. -/
def ofWord (chars : List Char) : List Lexeme :=
  if chars.isEmpty then [] else [.word (String.ofList chars)]

/-- The lexemes of pieces, behind the beginning of a word. -/
def ofPieces : List Char → List Piece → List Lexeme
  | chars, [] => ofWord chars
  | chars, .plain c :: rest =>
    if c = ' ' then ofWord chars ++ ofPieces [] rest
    else if isMark c then ofWord chars ++ .mark c :: ofPieces [] rest
    else ofPieces (chars ++ [c]) rest
  | chars, .literal s :: rest | chars, .unclosed s :: rest =>
    ofWord chars ++ .literal s :: ofPieces [] rest

end Lexeme

open Lexeme

/-- The lexemes of a text. -/
def lex (text : List Char) : List Lexeme := ofPieces [] (Piece.scan .outside text)

/-! ## What may follow -/

/-- Nothing, or something that begins with a blank or a mark. -/
def Delimited (rest : List Char) : Prop := ∀ c ∈ rest.head?, isDelimiter c = true

theorem delimited_nil : Delimited [] := by
  simp [Delimited]

theorem Delimited.append {text rest : List Char} (h : Delimited text) (hrest : Delimited rest) :
    Delimited (text ++ rest) := by
  cases text with
  | nil => exact hrest
  | cons c text => exact h

theorem Delimited.follows {rest : List Char} (h : Delimited rest) : Piece.Follows rest := by
  intro hhead
  have hquote := h '\x27' hhead
  exact absurd hquote (by decide)

/-! ## One lexeme -/

theorem lex_delimited {chars rest : List Char} (h : Delimited rest) :
    ofPieces chars (Piece.scan .outside rest) = ofWord chars ++ lex rest := by
  cases rest with
  | nil => simp [lex, Piece.scan, ofPieces, ofWord]
  | cons c rest =>
    have hc := h c rfl
    have hquote : c ≠ '\x27' := by
      rintro rfl
      exact absurd hc (by decide)
    rw [lex, Piece.scan, if_neg hquote, ofPieces, ofPieces]
    by_cases hblank : c = ' '
    · simp [hblank, ofWord]
    · have hmark : isMark c = true := by
        simpa [isDelimiter, hblank] using hc
      simp [hblank, hmark, ofWord]

/-- A character of which words are made. -/
def isWordChar (c : Char) : Bool := c != '\x27' && !isDelimiter c

theorem ofPieces_wordChars {chars : List Char} (h : ∀ c ∈ chars, isWordChar c = true)
    (before rest : List Char) :
    ofPieces before (Piece.scan .outside (chars ++ rest))
      = ofPieces (before ++ chars) (Piece.scan .outside rest) := by
  induction chars generalizing before with
  | nil => simp
  | cons c chars ih =>
    obtain ⟨hquote, hblank, hmark⟩ : c ≠ '\x27' ∧ c ≠ ' ' ∧ isMark c = false := by
      simpa [isWordChar, isDelimiter] using h c List.mem_cons_self
    rw [List.cons_append, Piece.scan, if_neg hquote, ofPieces, if_neg hblank, hmark,
      if_neg Bool.false_ne_true, ih fun d hd => h d (List.mem_cons_of_mem c hd)]
    simp

/-! ## Texts before a continuation -/

/-- The text is cut like this, whatever follows. -/
def Breaks (t : String) (ts : List Lexeme) : Prop := ∀ rest, lex (t.toList ++ rest) = ts ++ lex rest

/-- The text is cut like this, before a blank, a mark or the end. -/
def Lexes (t : String) (ts : List Lexeme) : Prop :=
  ∀ rest, Delimited rest → lex (t.toList ++ rest) = ts ++ lex rest

/-- A text that may stand behind any other. -/
structure Attaches (t : String) (ts : List Lexeme) : Prop where
  lexes : Lexes t ts
  delimited : Delimited t.toList

variable {t u : String} {ts us : List Lexeme}

theorem Lexes.lex_eq (h : Lexes t ts) : lex t.toList = ts := by
  have hlex := h [] delimited_nil
  simpa [lex, Piece.scan, ofPieces, ofWord] using hlex

theorem lexes_word (hne : t ≠ "") (h : t.toList.all isWordChar = true) : Lexes t [.word t] := by
  intro rest hrest
  have hempty : t.toList.isEmpty = false := by
    rw [List.isEmpty_eq_false_iff]
    simpa using hne
  rw [lex, ofPieces_wordChars (List.all_eq_true.1 h), lex_delimited hrest, List.nil_append, ofWord,
    hempty, if_neg Bool.false_ne_true, String.ofList_toList]

theorem lexes_quoted (s : String) : Lexes (Template.quoted s) [.literal s] := by
  intro rest hrest
  rw [lex, Piece.scans_quoted s rest hrest.follows]
  rfl

theorem Attaches.nil : Attaches "" [] := ⟨fun _ _ => rfl, delimited_nil⟩

theorem Lexes.append (h : Lexes t ts) (h' : Attaches u us) : Lexes (t ++ u) (ts ++ us) := by
  intro rest hrest
  rw [String.toList_append, List.append_assoc, h _ (h'.delimited.append hrest), h'.lexes rest hrest,
    List.append_assoc]

theorem Attaches.append (h : Attaches t ts) (h' : Attaches u us) :
    Attaches (t ++ u) (ts ++ us) where
  lexes := h.lexes.append h'
  delimited := by
    rw [String.toList_append]
    exact h.delimited.append h'.delimited

theorem Breaks.append_breaks (h : Breaks t ts) (h' : Breaks u us) : Breaks (t ++ u) (ts ++ us) := by
  intro rest
  rw [String.toList_append, List.append_assoc, h, h', List.append_assoc]

theorem Breaks.append (h : Breaks t ts) (h' : Lexes u us) : Lexes (t ++ u) (ts ++ us) := by
  intro rest hrest
  rw [String.toList_append, List.append_assoc, h, h' rest hrest, List.append_assoc]

/-! ## Keywords and templates -/

/-- A text with blanks or marks at both ends. -/
structure Separates (keyword : String) (ks : List Lexeme) : Prop where
  breaks : Breaks keyword ks
  opens : keyword.toList.head?.any isDelimiter = true

open Template

theorem Separates.attaches {keyword : String} {ks : List Lexeme} (h : Separates keyword ks)
    (ht : Lexes t ts) : Attaches (keyword ++ t) (ks ++ ts) := by
  refine ⟨h.breaks.append ht, ?_⟩
  obtain ⟨c, hhead, hc⟩ := (Option.any_eq_true _ _).1 h.opens
  obtain ⟨cs, hcs⟩ := List.head?_eq_some_iff.1 hhead
  rw [String.toList_append, hcs]
  intro d hd
  cases hd
  exact hc

/-- A text with a keyword behind it needs no condition any more. -/
theorem Lexes.breaks (h : Lexes t ts) {keyword : String} {ks : List Lexeme}
    (hkeyword : Separates keyword ks) : Breaks (t ++ keyword) (ts ++ ks) := by
  intro rest
  have hdelimited := (hkeyword.attaches Attaches.nil.lexes).delimited
  rw [String.append_empty] at hdelimited
  have hopens : Delimited (keyword.toList ++ rest) := by
    cases hchars : keyword.toList with
    | nil =>
      have hopens := hkeyword.opens
      rw [hchars] at hopens
      cases hopens
    | cons c cs =>
      rw [hchars] at hdelimited
      exact hdelimited
  rw [String.toList_append, List.append_assoc, h _ hopens, hkeyword.breaks rest, List.append_assoc]

theorem Separates.alone {keyword : String} {ks : List Lexeme} (h : Separates keyword ks) :
    Attaches keyword ks := by
  have hattaches := h.attaches Attaches.nil.lexes
  rwa [String.append_empty, List.append_nil] at hattaches

theorem Lexes.around (h : Lexes t ts) {keyword : String} {ks : List Lexeme}
    (hkeyword : Separates keyword ks) (h' : Lexes u us) :
    Lexes (t ++ keyword ++ u) (ts ++ (ks ++ us)) := by
  rw [String.append_assoc]
  exact h.append (hkeyword.attaches h')

variable {α : Type} {f : α → String} {g : α → List Lexeme}

theorem Lexes.joined {separator : String} {l : Lexeme} (hseparator : Separates separator [l]) :
    ∀ {as : List α}, (∀ a ∈ as, Lexes (f a) (g a)) →
      Lexes (Template.joined separator (as.map f)) (Json.between l (as.map g))
  | [], _ => Attaches.nil.lexes
  | [a], h => by
    have ha := h a List.mem_cons_self
    simpa [Template.joined, Json.between] using ha
  | a :: b :: rest, h => by
    have ha := h a List.mem_cons_self
    have hrest := Lexes.joined hseparator fun c hc => h c (List.mem_cons_of_mem a hc)
    have haround := ha.around hseparator hrest
    exact haround

theorem Attaches.joined : ∀ {as : List α}, (∀ a ∈ as, Attaches (f a) (g a)) →
    Attaches (Template.joined "" (as.map f)) (as.flatMap g)
  | [], _ => .nil
  | [a], h => by
    have ha := h a List.mem_cons_self
    simpa [Template.joined] using ha
  | a :: b :: rest, h => by
    have ha := h a List.mem_cons_self
    have hrest := Attaches.joined fun c hc => h c (List.mem_cons_of_mem a hc)
    simpa [Template.joined] using ha.append hrest

/-- The lexemes of a list between others, and none of an empty list. -/
def Lexeme.clause (opening closing : List Lexeme) : List (List Lexeme) → List Lexeme
  | [] => []
  | l :: rest => opening ++ (Json.between (.mark ',') (l :: rest) ++ closing)

/-- The lexemes of something behind others, if it is there. -/
def Lexeme.clause? (opening : List Lexeme) : Option (List Lexeme) → List Lexeme
  | none => []
  | some l => opening ++ l

theorem Separates.comma : Separates ", " [.mark ','] := ⟨fun _ => rfl, rfl⟩

theorem Attaches.clause {opening closing : String} {os cs : List Lexeme}
    (hopening : Separates opening os) (hclosing : Attaches closing cs) {as : List α}
    (h : ∀ a ∈ as, Lexes (f a) (g a)) :
    Attaches (listClause opening closing (as.map f)) (Lexeme.clause os cs (as.map g)) := by
  cases as with
  | nil => exact .nil
  | cons a rest =>
    have hclause := hopening.attaches ((Lexes.joined Separates.comma h).append hclosing)
    simpa [listClause, Lexeme.clause, String.append_assoc] using hclause

end SqlTree
