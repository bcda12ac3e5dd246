import Mathlib.Data.List.Forall2
import SqlTree.Proofs.Json.Spelling

/-!
# Documents with a hole

A `Document.Hole` is a document with a hole at any depth. What fills the hole may be a document, but
also a text that no document prints, as long as it is read as one part: the outline of the whole is
then that part, surrounded by what stands around the hole (`Outline.ofText_around`).
-/

namespace SqlTree.Json

namespace Document

theorem commas_around (ts us : List (List Char)) (t : List Char) :
    commas (ts ++ t :: us)
      = ts.flatMap (· ++ [',']) ++ (t ++ us.flatMap (',' :: ·)) := by
  induction ts with
  | nil => rw [List.nil_append, commas_eq_between, between, List.flatMap_nil, List.nil_append]
  | cons u rest ih =>
    have hcons : commas (u :: (rest ++ t :: us)) = u ++ ',' :: commas (rest ++ t :: us) := by
      cases rest <;> rfl
    rw [List.cons_append, hcons, ih, List.flatMap_cons]
    simp

theorem printItems_append (ds es : List Document) :
    printItems (ds ++ es) = printItems ds ++ printItems es := by
  induction ds with
  | nil => rfl
  | cons d rest ih => rw [List.cons_append, printItems, ih, printItems, List.cons_append]

theorem printMembers_append (ms ns : List (String × Document)) :
    printMembers (ms ++ ns) = printMembers ms ++ printMembers ns := by
  induction ms with
  | nil => rfl
  | cons m rest ih => rw [List.cons_append, printMembers, ih, printMembers, List.cons_append]

theorem memberParts_append (ms ns : List (String × Document)) :
    memberParts (ms ++ ns) = memberParts ms ++ memberParts ns := by
  induction ms with
  | nil => rfl
  | cons m rest ih => rw [List.cons_append, memberParts, ih, memberParts, List.cons_append]

/-! ## Holes -/

/-- A document with a hole: between the items of a list, or at the value of a member. -/
inductive Hole where
  | here
  | item (before : List Document) (inner : Hole) (after : List Document)
  | member (before : List (String × Document)) (name : String) (inner : Hole)
    (after : List (String × Document))

namespace Hole

/-- The document with another one in the hole. -/
def fill : Hole → Document → Document
  | .here, d => d
  | .item before inner after, d => .list (before ++ inner.fill d :: after)
  | .member before name inner after, d => .object (before ++ (name, inner.fill d) :: after)

/-- What is printed before the hole. -/
def start : Hole → List Char
  | .here => []
  | .item before inner _ => '[' :: ((printItems before).flatMap (· ++ [',']) ++ inner.start)
  | .member before name inner _ =>
    '\x7b' :: ((printMembers before).flatMap (· ++ [','])
      ++ (Quoted.quote name ++ ':' :: inner.start))

/-- What is printed behind the hole. -/
def stop : Hole → List Char
  | .here => []
  | .item _ inner after => inner.stop ++ ((printItems after).flatMap (',' :: ·) ++ [']'])
  | .member _ _ inner after =>
    inner.stop ++ ((printMembers after).flatMap (',' :: ·) ++ ['\x7d'])

/-- A part with the outline of the document around it. -/
def surround : Hole → Part → Part
  | .here, p => p
  | .item before inner after, p =>
    .list (itemParts before ++ inner.surround p :: itemParts after) .closed
  | .member before name inner after, p =>
    .object (memberParts before ++ (some (.ofText name), inner.surround p) :: memberParts after)
      .closed

/-- A hole within the hole. -/
def comp : Hole → Hole → Hole
  | .here, k => k
  | .item before inner after, k => .item before (inner.comp k) after
  | .member before name inner after, k => .member before name (inner.comp k) after

theorem fill_comp (h k : Hole) (d : Document) : (h.comp k).fill d = h.fill (k.fill d) := by
  induction h with
  | here => rfl
  | item before inner after ih => rw [comp, fill, ih, fill]
  | member before name inner after ih => rw [comp, fill, ih, fill]

theorem surround_comp (h k : Hole) (p : Part) :
    (h.comp k).surround p = h.surround (k.surround p) := by
  induction h with
  | here => rfl
  | item before inner after ih => rw [comp, surround, ih, surround]
  | member before name inner after ih => rw [comp, surround, ih, surround]

theorem print_fill (h : Hole) (d : Document) :
    (h.fill d).print = h.start ++ (d.print ++ h.stop) := by
  induction h with
  | here => rw [fill, start, stop, List.nil_append, List.append_nil]
  | item before inner after ih =>
    rw [fill, print, printItems_append, printItems, commas_around, ih, start, stop]
    simp
  | member before name inner after ih =>
    rw [fill, print, printMembers_append, printMembers, commas_around, ih, start, stop]
    simp

end Hole

end Document

/-! ## Outlines -/

namespace Outline

open Document

/-- The text of a document adds its outline. -/
theorem adds_print (d : Document) : Adds d.print [d.part] := by
  intro rest l hrest
  rw [run, Token.scan_print d hrest, List.foldl_append, foldl_tokens d l, run,
    Levels.add_eq_append]

/-- A name and a colon before what adds a part. -/
theorem Adds.named (name : String) {t : List Char} {p : Part} (ht : Adds t [p]) :
    Adds (Quoted.quote name ++ ':' :: t) (Part.ofMember (.ofText name, p)) := by
  intro rest l hrest
  have hname (text : List Char) :
      run l (Quoted.quote name ++ text)
        = run (l.append [.token (.quoted (.ofText name))]) text := by
    rw [run, Token.scan_quote]
    rfl
  have hcolon (l : Levels) (text : List Char) :
      run l (':' :: text) = run (l.append [.token .colon]) text := rfl
  rw [List.append_assoc, List.cons_append, hname, hcolon, ht _ _ hrest, Levels.append_append,
    Levels.append_append]
  rfl

theorem adds_printItems (ds : List Document) :
    List.Forall₂ Adds (printItems ds) ((itemParts ds).map ([·])) := by
  induction ds with
  | nil => exact .nil
  | cons d rest ih => exact .cons (adds_print d) ih

theorem adds_printMembers (ms : List (String × Document)) :
    List.Forall₂ Adds (printMembers ms) ((namedParts ms).map Part.ofMember) := by
  induction ms with
  | nil => exact .nil
  | cons m rest ih => exact .cons (.named m.1 (adds_print m.2)) ih

/-- Texts with commas between them add their parts with commas between them. -/
theorem Adds.commas {ts : List (List Char)} {pss : List (List Part)}
    (h : List.Forall₂ Adds ts pss) : Adds (commas ts) (between (.token .comma) pss) := by
  have hmore {ts : List (List Char)} {pss : List (List Part)} (h : List.Forall₂ Adds ts pss) :
      Adds (ts.flatMap (',' :: ·)) (pss.flatMap (.token .comma :: ·))
        ∧ ∀ {rest}, Token.Closes rest → Token.Closes (ts.flatMap (',' :: ·) ++ rest) := by
    induction h with
    | nil => exact ⟨.blanks isBlanks_nil, fun hrest => hrest⟩
    | cons h hrest ih =>
      rw [List.flatMap_cons, List.flatMap_cons]
      exact ⟨h.comma.append ih.1 ih.2, fun _ => Token.closes_cons (.inl rfl) _⟩
  rw [commas_eq_between]
  cases h with
  | nil => exact .blanks isBlanks_nil
  | cons h hrest => exact h.append (hmore hrest).1 (hmore hrest).2

/-- What adds a part to a hole adds the part with its surroundings. -/
theorem Adds.around (h : Hole) {t : List Char} {p : Part} (ht : Adds t [p]) :
    Adds (h.start ++ (t ++ h.stop)) [h.surround p] := by
  induction h with
  | here =>
    rw [Hole.start, Hole.stop, List.nil_append, List.append_nil]
    exact ht
  | item before inner after ih =>
    have hitems : List.Forall₂ Adds
        (printItems before ++ (inner.start ++ (t ++ inner.stop)) :: printItems after)
        ((itemParts before ++ inner.surround p :: itemParts after).map ([·])) := by
      rw [List.map_append, List.map_cons]
      exact List.rel_append (adds_printItems before) (.cons ih (adds_printItems after))
    have hlist := (Adds.commas hitems).list
    rw [commas_around] at hlist
    rw [Hole.start, Hole.stop, Hole.surround]
    simpa using hlist
  | member before name inner after ih =>
    have hmembers : List.Forall₂ Adds
        (printMembers before
          ++ (Quoted.quote name ++ ':' :: (inner.start ++ (t ++ inner.stop))) :: printMembers after)
        ((namedParts before ++ (.ofText name, inner.surround p) :: namedParts after).map
          Part.ofMember) := by
      rw [List.map_append, List.map_cons]
      exact List.rel_append (adds_printMembers before)
        (.cons (ih.named name) (adds_printMembers after))
    have hobject := (Adds.commas hmembers).object
    rw [commas_around, List.map_append, List.map_cons, map_namedParts, map_namedParts] at hobject
    rw [Hole.start, Hole.stop, Hole.surround]
    simpa using hobject

/-- The outline of a document with any text in a hole that adds one part. -/
theorem ofText_around (h : Hole) {t : List Char} {p : Part} (ht : Adds t [p]) :
    ofText (String.ofList (h.start ++ (t ++ h.stop))) = [h.surround p] := by
  have hrun := Adds.around h ht [] ⟨[], []⟩ Token.closes_nil
  rw [List.append_nil] at hrun
  rw [ofText, ofTokens, Token.ofText, String.toList_ofList, ← run, hrun]
  rfl

end Outline

end SqlTree.Json
