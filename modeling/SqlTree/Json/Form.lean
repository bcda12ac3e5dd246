import SqlTree.Json.Outline

/-!
# The form of a document

`Part.check` says whether a part is JSON, whatever it is about. It is all that is asked of a member
that no tree has a place for: numbers of any size, any surrogates, any depth.
-/

namespace SqlTree.Json

/-- Is a token a value? -/
def Token.check : Token → Except Fault Unit
  | .word _ | .number _ => .ok ()
  | .quoted q => q.check
  | .brokenWord _ cut => .error (if cut then .endInValue else .expectedWord)
  | .brokenNumber _ => .error .invalidNumber
  | .opening _ | .closing _ | .comma | .colon | .stray => .error .expectedValue

/-- Is a key a quoted text? -/
def Key.check : Key → Except Fault Unit
  | some q => q.check
  | none => .error .keyNotText

def ListEnding.check : ListEnding → Except Fault Unit
  | .closed => .ok ()
  | .cut => .error .endInList
  | .afterComma atEnd => .error (if atEnd then .endInValue else .expectedValue)
  | .unseparated => .error .expectedListEnd

def ObjectEnding.check : ObjectEnding → Except Fault Unit
  | .closed => .ok ()
  | .cut => .error .endInObject
  | .afterComma atEnd => .error (if atEnd then .endInObject else .keyNotText)
  | .unseparated => .error .expectedObjectEnd
  | .afterKey key atEnd => do
    Key.check key
    .error (if atEnd then .endInObject else .expectedColon)
  | .afterColon key atEnd => do
    Key.check key
    .error (if atEnd then .endInValue else .expectedValue)

mutual

/-- Is a part a value, and every part inside it in its place? -/
def Part.check : Part → Except Fault Unit
  | .token t => t.check
  | .list items ending => do
    Part.checkItems items
    ending.check
  | .object members ending => do
    Part.checkMembers members
    ending.check

def Part.checkItems : List Part → Except Fault Unit
  | [] => .ok ()
  | item :: rest => do
    item.check
    Part.checkItems rest

def Part.checkMembers : List (Key × Part) → Except Fault Unit
  | [] => .ok ()
  | (key, value) :: rest => do
    Key.check key
    value.check
    Part.checkMembers rest

end

end SqlTree.Json
