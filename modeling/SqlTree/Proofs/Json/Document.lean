import SqlTree.Json.Document
import SqlTree.Json.Outline
import SqlTree.Proofs.Double.Text

/-!
# A printed document and its outline

`Document.tokens` are the tokens of a document and `Document.part` is its outline, both by recursion
on the document alone. The text of a document is read as just these: `Token.scan_print` for the
tokens, `Outline.foldl_tokens` for the nesting, and together `Outline.ofText_print`. What a document
is good for is left to whoever reads the part; that it is found at all is settled here, for every
document.
-/

namespace SqlTree

/-- The token that a double is written as. -/
def Double.token (x : Double) : Json.Token :=
  if x.isFinite then .number x.stored.toList else .word .null

namespace Json

/-- Sequences one after the other, something between neighbours. -/
def between {α : Type} (separator : α) : List (List α) → List α
  | [] => []
  | t :: rest => t ++ rest.flatMap (separator :: ·)

namespace Document

theorem commas_eq_between : ∀ ts : List (List Char), commas ts = between ',' ts
  | [] => rfl
  | [t] => by simp [commas, between]
  | t :: u :: rest => by
    rw [commas, commas_eq_between (u :: rest)]
    · simp [between]
    · simp

mutual

/-- The tokens of a document. -/
def tokens : Document → List Token
  | .null => [.word .null]
  | .boolean b => [.word (.boolean b)]
  | .integer n => [.number (toString n).toList]
  | .double x => [x.token]
  | .text s => [.quoted (.ofText s)]
  | .list items => .opening .square :: (between .comma (itemTokens items) ++ [.closing .square])
  | .object members =>
    .opening .curly :: (between .comma (memberTokens members) ++ [.closing .curly])

def itemTokens : List Document → List (List Token)
  | [] => []
  | d :: rest => d.tokens :: itemTokens rest

def memberTokens : List (String × Document) → List (List Token)
  | [] => []
  | (name, d) :: rest => (.quoted (.ofText name) :: .colon :: d.tokens) :: memberTokens rest

end

mutual

/-- The outline of a document. -/
def part : Document → Part
  | .null => .token (.word .null)
  | .boolean b => .token (.word (.boolean b))
  | .integer n => .token (.number (toString n).toList)
  | .double x => .token x.token
  | .text s => .token (.quoted (.ofText s))
  | .list items => .list (itemParts items) .closed
  | .object members => .object (memberParts members) .closed

def itemParts : List Document → List Part
  | [] => []
  | d :: rest => d.part :: itemParts rest

def memberParts : List (String × Document) → List (Key × Part)
  | [] => []
  | (name, d) :: rest => (some (.ofText name), d.part) :: memberParts rest

end

theorem part_tagged (name : String) (d : Document) :
    (tagged name d).part = .object [(some (.ofText name), d.part)] .closed := by
  simp [tagged, part, memberParts]

end Document

/-! ## Tokens -/

namespace Token

open Document

theorem scan_word (w : Word) (rest : List Char) :
    scan .nothing ((match w with
      | .null => ['n', 'u', 'l', 'l']
      | .boolean true => ['t', 'r', 'u', 'e']
      | .boolean false => ['f', 'a', 'l', 's', 'e']) ++ rest) = .word w :: scan .nothing rest := by
  cases w with
  | null => rfl
  | boolean b => cases b <;> rfl

theorem scan_double (x : Double) {rest : List Char} (hrest : Closes rest) :
    scan .nothing (x.stored.toList ++ rest) = x.token :: scan .nothing rest := by
  unfold Double.token
  split
  · next hx => exact scan_numeral (Double.isNumeral_stored hx) hrest
  · next hx =>
    have hnull : x.stored = "null" := by rw [Double.stored, if_neg hx]
    rw [hnull]
    exact scan_word .null rest

theorem closes_flatMap (ts : List (List Char)) {rest : List Char} (hrest : Closes rest) :
    Closes (ts.flatMap (',' :: ·) ++ rest) := by
  cases ts with
  | nil => exact hrest
  | cons t ts => exact closes_cons (.inl rfl) _

mutual

/-- The text of a document, before whatever may follow a value, is read as its tokens. -/
theorem scan_print : ∀ (d : Document) {rest : List Char}, Closes rest →
    scan .nothing (d.print ++ rest) = d.tokens ++ scan .nothing rest
  | .null, rest, _ => scan_word .null rest
  | .boolean true, rest, _ => scan_word (.boolean true) rest
  | .boolean false, rest, _ => scan_word (.boolean false) rest
  | .integer n, rest, hrest => scan_numeral (Numeral.isNumeral_toString n) hrest
  | .double x, rest, hrest => scan_double x hrest
  | .text s, rest, _ => scan_quote s rest
  | .list [], rest, _ => rfl
  | .list (d :: items), rest, _ => by
    have hclosed : Closes (']' :: rest) := closes_cons (.inr (.inl rfl)) rest
    have hitems := scan_printItems items hclosed
    have hd := scan_print d (closes_flatMap (printItems items) hclosed)
    have hopen (text : List Char) :
        scan .nothing ('[' :: text) = .opening .square :: scan .nothing text := rfl
    have hclose : scan .nothing (']' :: rest) = .closing .square :: scan .nothing rest := rfl
    rw [print, commas_eq_between, printItems, between, tokens, itemTokens, between]
    simp only [List.cons_append, List.append_assoc, List.nil_append]
    rw [hopen, hd, hitems, hclose]
  | .object [], rest, _ => rfl
  | .object ((name, d) :: members), rest, _ => by
    have hclosed : Closes ('\x7d' :: rest) := closes_cons (.inr (.inr rfl)) rest
    have hmembers := scan_printMembers members hclosed
    have hd := scan_print d (closes_flatMap (printMembers members) hclosed)
    have hopen (text : List Char) :
        scan .nothing ('\x7b' :: text) = .opening .curly :: scan .nothing text := rfl
    have hcolon (text : List Char) :
        scan .nothing (':' :: text) = .colon :: scan .nothing text := rfl
    have hclose : scan .nothing ('\x7d' :: rest) = .closing .curly :: scan .nothing rest := rfl
    rw [print, commas_eq_between, printMembers, between, tokens, memberTokens, between]
    simp only [List.cons_append, List.append_assoc, List.nil_append]
    rw [hopen, scan_quote, hcolon, hd, hmembers, hclose]

theorem scan_printItems : ∀ (items : List Document) {rest : List Char}, Closes rest →
    scan .nothing ((printItems items).flatMap (',' :: ·) ++ rest)
      = (itemTokens items).flatMap (.comma :: ·) ++ scan .nothing rest
  | [], _, _ => rfl
  | d :: items, rest, hrest => by
    have hitems := scan_printItems items hrest
    have hd := scan_print d (closes_flatMap (printItems items) hrest)
    have hcomma (text : List Char) :
        scan .nothing (',' :: text) = .comma :: scan .nothing text := rfl
    rw [printItems, itemTokens, List.flatMap_cons, List.flatMap_cons]
    simp only [List.cons_append, List.append_assoc]
    rw [hcomma, hd, hitems]

theorem scan_printMembers : ∀ (members : List (String × Document)) {rest : List Char}, Closes rest →
    scan .nothing ((printMembers members).flatMap (',' :: ·) ++ rest)
      = (memberTokens members).flatMap (.comma :: ·) ++ scan .nothing rest
  | [], _, _ => rfl
  | (name, d) :: members, rest, hrest => by
    have hmembers := scan_printMembers members hrest
    have hd := scan_print d (closes_flatMap (printMembers members) hrest)
    have hcomma (text : List Char) :
        scan .nothing (',' :: text) = .comma :: scan .nothing text := rfl
    have hcolon (text : List Char) :
        scan .nothing (':' :: text) = .colon :: scan .nothing text := rfl
    rw [printMembers, memberTokens, List.flatMap_cons, List.flatMap_cons]
    simp only [List.cons_append, List.append_assoc]
    rw [hcomma, scan_quote, hcolon, hd, hmembers]

end

end Token

/-! ## Outlines -/

/-- The text of an object whose only member is a number, which may be spelled in any way. -/
def numberText (name : String) (number : List Char) : String :=
  String.ofList ('\x7b' :: (Quoted.quote name ++ ':' :: (number ++ ['\x7d'])))

theorem numberText_inj {name : String} {s t : List Char} :
    numberText name s = numberText name t ↔ s = t := by
  simp [numberText, String.ofList_inj]

namespace Part

/-- Items with commas before them are read as these items. -/
theorem moreItems_flatMap (ps : List Part) :
    moreItems false (ps.flatMap fun p => [.token .comma, p]) = (ps, .closed) := by
  induction ps with
  | nil => rfl
  | cons p rest ih => simp [moreItems, isComma, ih]

/-- The parts of a member. -/
def ofMember (m : Quoted × Part) : List Part := [.token (.quoted m.1), .token .colon, m.2]

theorem members_flatMap (m : Quoted × Part) (ms : List (Quoted × Part)) :
    members false (ofMember m ++ ms.flatMap fun m => .token .comma :: ofMember m)
      = ((m :: ms).map fun m => (some m.1, m.2), .closed) := by
  induction ms generalizing m with
  | nil => simp [ofMember, members, isColon, key]
  | cons n rest ih =>
    have hrest := ih n
    simp only [ofMember, List.cons_append, List.nil_append] at hrest
    simp [ofMember, members, isColon, isComma, key, hrest]

end Part

namespace Outline

open Document

/-- The level with more parts. -/
def Levels.append (l : Levels) (ps : List Part) : Levels :=
  { l with parts := ps.reverse ++ l.parts }

@[simp] theorem Levels.append_append (l : Levels) (ps qs : List Part) :
    (l.append ps).append qs = l.append (ps ++ qs) := by
  simp [Levels.append]

theorem Levels.add_eq_append (l : Levels) (p : Part) : l.add p = l.append [p] := rfl

/-- Brackets around the parts of a level leave one part on the level before. -/
theorem Levels.step_closing (l : Levels) (b : Bracket) (ps : List Part) :
    ((l.step (.opening b)).append ps).step (.closing b) = l.add (Part.ofBracket b false ps) := by
  simp [Levels.step, Levels.append, Levels.add]

/-- The member parts of a document with their names. -/
def namedParts : List (String × Document) → List (Quoted × Part)
  | [] => []
  | (name, d) :: rest => (.ofText name, d.part) :: namedParts rest

theorem map_namedParts (ms : List (String × Document)) :
    (namedParts ms).map (fun m => (some m.1, m.2)) = memberParts ms := by
  induction ms with
  | nil => rfl
  | cons m rest ih => rw [namedParts, memberParts, List.map_cons, ih]

theorem ofBracket_items : ∀ ps : List Part,
    Part.ofBracket .square false (between (.token .comma) (ps.map ([·]))) = .list ps .closed
  | [] => rfl
  | p :: ps => by
    have h := Part.moreItems_flatMap ps
    simp [between, Part.ofBracket, Part.ofItems, List.flatMap_map, h]

theorem ofBracket_members : ∀ ms : List (Quoted × Part),
    Part.ofBracket .curly false (between (.token .comma) (ms.map Part.ofMember))
      = .object (ms.map fun m => (some m.1, m.2)) .closed
  | [] => rfl
  | m :: ms => by
    have h := Part.members_flatMap m ms
    rw [List.map_cons, between, List.flatMap_map, Part.ofBracket, Part.ofMembers, h]
    simp [Part.ofMember]

mutual

/-- The tokens of a document leave one part, its outline. -/
theorem foldl_tokens : ∀ (d : Document) (l : Levels), d.tokens.foldl Levels.step l = l.add d.part
  | .null, _ | .boolean _, _ | .integer _, _ | .text _, _ => rfl
  | .double x, l => by
    rw [tokens, part, Double.token]
    split <;> rfl
  | .list [], _ => rfl
  | .list (d :: items), l => by
    rw [tokens, itemTokens, between, List.foldl_cons, List.foldl_append, List.foldl_append,
      foldl_tokens d, foldl_itemTokens items, Levels.add_eq_append, Levels.append_append,
      List.foldl_cons, List.foldl_nil, Levels.step_closing, part, ← ofBracket_items]
    simp [itemParts, between, List.flatMap_map]
  | .object [], _ => rfl
  | .object ((name, d) :: members), l => by
    have hkey (l : Levels) (q : Quoted) :
        (l.step (.quoted q)).step .colon = l.append [.token (.quoted q), .token .colon] := rfl
    rw [tokens, memberTokens, between, part, ← map_namedParts, ← ofBracket_members]
    simp only [List.foldl_cons, List.foldl_nil, List.foldl_append]
    rw [hkey, foldl_tokens d, foldl_memberTokens members, Levels.add_eq_append,
      Levels.append_append, Levels.append_append, Levels.step_closing]
    simp [namedParts, between, List.flatMap_map, Part.ofMember]

theorem foldl_itemTokens : ∀ (items : List Document) (l : Levels),
    ((itemTokens items).flatMap (.comma :: ·)).foldl Levels.step l
      = l.append ((itemParts items).flatMap fun p => [.token .comma, p])
  | [], _ => rfl
  | d :: items, l => by
    have hcomma (l : Levels) : l.step .comma = l.append [.token .comma] := rfl
    rw [itemTokens, List.flatMap_cons, List.cons_append, List.foldl_cons, List.foldl_append,
      foldl_tokens d, foldl_itemTokens items, hcomma, Levels.add_eq_append, Levels.append_append,
      Levels.append_append]
    rfl

theorem foldl_memberTokens : ∀ (members : List (String × Document)) (l : Levels),
    ((memberTokens members).flatMap (.comma :: ·)).foldl Levels.step l
      = l.append ((namedParts members).flatMap fun m => .token .comma :: Part.ofMember m)
  | [], _ => rfl
  | (name, d) :: members, l => by
    have hkey (l : Levels) (q : Quoted) : ((l.step .comma).step (.quoted q)).step .colon
        = l.append [.token .comma, .token (.quoted q), .token .colon] := rfl
    rw [memberTokens, List.flatMap_cons, List.cons_append, List.cons_append, List.cons_append,
      List.foldl_cons, List.foldl_cons, List.foldl_cons, List.foldl_append, foldl_tokens d,
      foldl_memberTokens members, hkey, Levels.add_eq_append, Levels.append_append,
      Levels.append_append]
    rfl

end

/-- **The outline of a printed document.** -/
theorem ofText_print (d : Document) : ofText (String.ofList d.print) = [d.part] := by
  have hscan : Token.ofText d.print = d.tokens := by
    have h := Token.scan_print d Token.closes_nil
    simpa [Token.ofText, Token.scan, Token.Pending.finish] using h
  rw [ofText, String.toList_ofList, hscan, ofTokens, foldl_tokens]
  rfl

theorem ofText_numberText (name : String) {number : List Char} (h : Numeral.IsNumeral number) :
    ofText (numberText name number)
      = [.object [(some (.ofText name), .token (.number number))] .closed] := by
  have hopen (text : List Char) : Token.scan .nothing ('\x7b' :: text)
      = .opening .curly :: Token.scan .nothing text := rfl
  have hcolon (text : List Char) : Token.scan .nothing (':' :: text)
      = .colon :: Token.scan .nothing text := rfl
  have hclose : Token.scan .nothing ['\x7d'] = [.closing .curly] := rfl
  rw [ofText, numberText, String.toList_ofList, Token.ofText, hopen, Token.scan_quote, hcolon,
    Token.scan_numeral h (Token.closes_cons (.inr (.inr rfl)) []), hclose]
  rfl

end Outline

end Json

end SqlTree
