import SqlTree.Json.Token

/-!
# The outline of a document

The outline of a document is its nesting: tokens, lists of parts, and objects with members. It is
complete for any sequence of tokens, right or wrong. A list or an object holds what could be made
out before it went wrong or ended, and its *ending* says how that happened. Whether an ending is a
fault, and which one, depends on what is to be read there.

Brackets that are never closed are ended by the end of the text. A closing bracket of the wrong kind
closes nothing, and is left as a token.
-/

namespace SqlTree.Json

/-- How a list ends. Where it can end `atEnd`, the end of the text stands in the place of something
else. -/
inductive ListEnding where
  /-- with its bracket -/
  | closed
  /-- with the text, where an item, a comma or the bracket may stand -/
  | cut
  /-- behind a comma -/
  | afterComma (atEnd : Bool)
  /-- at something behind an item that is neither comma nor bracket -/
  | unseparated
  deriving DecidableEq

/-- What stands in the place of a key, if it is a quoted text. -/
abbrev Key := Option Quoted

/-- How an object ends. -/
inductive ObjectEnding where
  /-- with its bracket -/
  | closed
  /-- with the text, where a key, a comma or the bracket may stand -/
  | cut
  /-- behind a comma -/
  | afterComma (atEnd : Bool)
  /-- at something behind a member that is neither comma nor bracket -/
  | unseparated
  /-- behind a key without a colon -/
  | afterKey (key : Key) (atEnd : Bool)
  /-- behind a colon without a value -/
  | afterColon (key : Key) (atEnd : Bool)
  deriving DecidableEq

/-- A part of a document. -/
inductive Part where
  | token (t : Token)
  | list (items : List Part) (ending : ListEnding)
  | object (members : List (Key × Part)) (ending : ObjectEnding)

namespace Part

/-- The quoted text that a part consists of. -/
def key : Part → Key
  | .token (.quoted q) => some q
  | _ => none

/-! ## Lists and objects -/

/-- Does a comma stand here? -/
def isComma : Part → Bool
  | .token .comma => true
  | _ => false

/-- Does a colon stand here? -/
def isColon : Part → Bool
  | .token .colon => true
  | _ => false

/-- What follows an item: commas with more items behind them, and an ending. -/
def moreItems (cut : Bool) : List Part → List Part × ListEnding
  | [] => ([], if cut then .cut else .closed)
  | [p] => ([], if p.isComma then .afterComma cut else .unseparated)
  | p :: item :: rest =>
    if p.isComma then
      let (items, ending) := moreItems cut rest
      (item :: items, ending)
    else ([], .unseparated)

/-- The list made of the parts between square brackets. -/
def ofItems (cut : Bool) : List Part → Part
  | [] => .list [] (if cut then .cut else .closed)
  | item :: rest =>
    let (items, ending) := moreItems cut rest
    .list (item :: items) ending

/-- Members with commas between them, and an ending. -/
def members (cut : Bool) : List Part → List (Key × Part) × ObjectEnding
  | [] => ([], .afterComma cut)
  | [key] => ([], .afterKey key.key cut)
  | [key, p] => ([], if p.isColon then .afterColon key.key cut else .afterKey key.key false)
  | key :: p :: value :: rest =>
    if p.isColon then
      match rest with
      | [] => ([(key.key, value)], if cut then .cut else .closed)
      | p :: rest =>
        if p.isComma then
          let (ms, ending) := members cut rest
          ((key.key, value) :: ms, ending)
        else ([(key.key, value)], .unseparated)
    else ([], .afterKey key.key false)

/-- The object made of the parts between curly brackets. -/
def ofMembers (cut : Bool) : List Part → Part
  | [] => .object [] (if cut then .cut else .closed)
  | parts =>
    let (ms, ending) := members cut parts
    .object ms ending

/-- The part made of a bracket and what follows it. -/
def ofBracket (b : Bracket) (cut : Bool) (parts : List Part) : Part :=
  match b with
  | .square => ofItems cut parts
  | .curly => ofMembers cut parts

end Part

/-! ## Nesting -/

namespace Outline

/-- The parts read so far: those of the innermost open bracket, and for each open bracket, the
innermost first, the parts that stand before it. All are kept latest first. -/
structure Levels where
  parts : List Part
  enclosing : List (Bracket × List Part)

/-- Adds a part to the innermost level. -/
def Levels.add (l : Levels) (p : Part) : Levels := { l with parts := p :: l.parts }

/-- Reads one token. -/
def Levels.step (l : Levels) : Token → Levels
  | .opening b => ⟨[], (b, l.parts) :: l.enclosing⟩
  | .closing b =>
    match l.enclosing with
    | (bracket, before) :: rest =>
      if bracket = b then ⟨Part.ofBracket b false l.parts.reverse :: before, rest⟩
      else l.add (.token (.closing b))
    | [] => l.add (.token (.closing b))
  | t => l.add (.token t)

/-- The parts of the next level, once the text ends within a bracket. -/
def cutLevel (parts : List Part) (level : Bracket × List Part) : List Part :=
  Part.ofBracket level.1 true parts.reverse :: level.2

/-- All parts of the text, in order, at its end. -/
def Levels.finish (l : Levels) : List Part := (l.enclosing.foldl cutLevel l.parts).reverse

/-- The outline of a sequence of tokens. -/
def ofTokens (ts : List Token) : List Part := (ts.foldl Levels.step ⟨[], []⟩).finish

/-- The outline of a text. -/
def ofText (text : String) : List Part := ofTokens (Token.ofText text.toList)

end Outline

end SqlTree.Json
