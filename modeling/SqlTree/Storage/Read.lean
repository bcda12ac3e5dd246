import SqlTree.Storage.Tree

/-!
# Reading stored trees

A part of a document is read by a layout. Parts are read in the order of the text, and the first
fault ends the reading, whether it is one of form or of shape.

At most 127 brackets may be open at once. `depth` is the number of brackets that may still be
opened; it does not concern members that are passed over.
-/

namespace SqlTree

open Json

/-! ## Records with some members missing -/

/-- The value of a member that is left out, if its kind allows that. -/
def Kind.leftOut : (kind : Kind) → Option kind.Carrier
  | .maybe _ => some none
  | _ => none

/-- A value for some of the fields. -/
abbrev PartialRow : List Field → Type
  | [] => Unit
  | f :: fs => Option f.kind.Carrier × PartialRow fs

namespace PartialRow

/-- No value yet. -/
def empty : (fs : List Field) → PartialRow fs
  | [] => ()
  | _ :: fs => (none, empty fs)

/-- Has the field of this name a value? -/
def has (name : String) : (fs : List Field) → PartialRow fs → Bool
  | [], _ => false
  | f :: fs, (value, rest) => if f.name == name then value.isSome else has name fs rest

/-- A second value for the same field is a fault. -/
def checkNew (name : String) (fs : List Field) (row : PartialRow fs) : Except Fault Unit :=
  if has name fs row then .error (.repeatedMember name) else .ok ()

/-- Gives the field of this name the value that is read for its kind. A name that belongs to no
field changes nothing. -/
def fill (name : String) (read : (kind : Kind) → Except Fault kind.Carrier) :
    (fs : List Field) → PartialRow fs → Except Fault (PartialRow fs)
  | [], row => .ok row
  | f :: fs, (value, rest) =>
    if f.name == name then (read f.kind).map fun v => (some v, rest)
    else (fill name read fs rest).map fun rest => (value, rest)

/-- All values. The first field without one is a fault, unless it may be left out. -/
def complete : (fs : List Field) → PartialRow fs → Except Fault (Row fs)
  | [], _ => .ok ()
  | f :: fs, (value, rest) =>
    match value <|> f.kind.leftOut with
    | some v => (complete fs rest).map fun row => (v, row)
    | none => .error (.missingMember f.name)

end PartialRow

/-! ## Keys and endings -/

/-- The name that a key denotes. -/
def Json.Key.name : Key → Except Fault String
  | some q => q.decode
  | none => .error .keyNotText

/-- The ending of a list behind its items. -/
def Json.ListEnding.afterItems : ListEnding → Except Fault Unit
  | .closed => .ok ()
  | .cut => .error .endInList
  | .afterComma atEnd => .error (if atEnd then .endInValue else .trailingComma)
  | .unseparated => .error .expectedListEnd

/-- The ending of a list behind the last field of a record. -/
def Json.ListEnding.afterRow : ListEnding → Except Fault Unit
  | .closed => .ok ()
  | .cut => .error .endInList
  | .afterComma atEnd => .error (if atEnd then .trailingCharacters else .trailingComma)
  | .unseparated => .error .trailingCharacters

/-- The fault of a list that ends when so many values of a record are present. -/
def Json.ListEnding.tooShort (ending : ListEnding) (title : String) (present total : Nat) : Fault :=
  match ending.afterItems with
  | .ok () => .wrongLength present title total
  | .error fault => fault

/-- The ending of an object behind members of a record. -/
def Json.ObjectEnding.afterMembers (fs : List Field) (row : PartialRow fs) :
    ObjectEnding → Except Fault Unit
  | .closed => .ok ()
  | .cut => .error .endInObject
  | .afterComma atEnd => .error (if atEnd then .endInValue else .trailingComma)
  | .unseparated => .error .expectedObjectEnd
  | .afterKey key atEnd => do
    row.checkNew (← Key.name key) fs
    .error (if atEnd then .endInObject else .expectedColon)
  | .afterColon key atEnd => do
    row.checkNew (← Key.name key) fs
    .error (if atEnd then .endInValue else .expectedValue)

/-- The fault of an object without the member that names a variant. -/
def Json.ObjectEnding.withoutVariant {α : Type} (vs : List (Variant α)) : ObjectEnding → Fault
  | .afterKey key atEnd => named key (if atEnd then .endInObject else .expectedColon)
  | .afterColon key atEnd => named key (if atEnd then .endInValue else .expectedValue)
  | .cut => .endInObject
  | .closed | .afterComma _ | .unseparated => .expectedValue
where
  /-- A fault that is found after the key has named a variant. -/
  named (key : Key) (fault : Fault) : Fault :=
    match (Key.name key).bind (Variant.find vs) with
    | .ok _ => fault
    | .error earlier => earlier

/-- The ending of an object behind a variant, which must be its only member. -/
def Json.ObjectEnding.afterVariant (ending : ObjectEnding) (rest : List (Key × Part)) :
    Except Fault Unit :=
  match rest, ending with
  | [], .closed => .ok ()
  | [], .cut => .error .endInObject
  | _, _ => .error .expectedValue

/-! ## Parts -/

/-- Opens one more bracket. -/
def descend : Nat → Except Fault Nat
  | 0 => .error .tooDeep
  | depth + 1 => .ok depth

/-- The layout of a variant's content. -/
def Content.layout {α : Type} : Content α → Layout α
  | .bare a => .null a
  | .value kind build => kind.layout.map build
  | .record r => .record r

namespace Json.Part

mutual

/-- Reads a part. -/
def read {α : Type} (depth : Nat) (l : Layout α) : Part → Except Fault α
  | .token t => l.token t
  | .list items ending =>
    match l.list with
    | .refused fault => .error fault
    | .items kind build => do
      let depth ← descend depth
      let values ← readItems depth kind.layout items
      ending.afterItems
      build values
    | .row r => do
      let depth ← descend depth
      readRow depth r.title r.fields.length ending 0 r.fields r.build items
  | .object members ending =>
    match l.object with
    | .refused fault => .error fault
    | .members r => do
      let depth ← descend depth
      readMembers depth r ending (.empty r.fields) members
    | .variant vs => do
      let depth ← descend depth
      readVariant depth vs ending members

/-- Reads the items of a list. -/
def readItems {α : Type} (depth : Nat) (l : Layout α) : List Part → Except Fault (List α)
  | [] => .ok []
  | item :: rest => do
    let value ← item.read depth l
    let values ← readItems depth l rest
    return value :: values

/-- Reads the values of the remaining fields of a record, when so many are present before them. -/
def readRow {α : Type} (depth : Nat) (title : String) (total : Nat) (ending : ListEnding)
    (present : Nat) : (fs : List Field) → (Row fs → α) → List Part → Except Fault α
  | [], build, [] => ending.afterRow.map fun _ => build ()
  | [], _, _ :: _ => .error .trailingCharacters
  | _ :: _, _, [] => .error (ending.tooShort title present total)
  | f :: fs, build, item :: rest => do
    let value ← item.read depth f.kind.layout
    readRow depth title total ending (present + 1) fs (fun row => build (value, row)) rest

/-- Reads the members of a record, in any order. -/
def readMembers {α : Type} (depth : Nat) (r : Record α) (ending : ObjectEnding)
    (row : PartialRow r.fields) : List (Key × Part) → Except Fault α
  | [] => do
    ending.afterMembers r.fields row
    (row.complete r.fields).map r.build
  | (key, value) :: rest => do
    let name ← Key.name key
    row.checkNew name r.fields
    if r.fields.any fun f => f.name == name then
      let row ← row.fill name (fun kind => value.read depth kind.layout) r.fields
      readMembers depth r ending row rest
    else
      value.check
      readMembers depth r ending row rest

/-- Reads the member that names a variant. -/
def readVariant {α : Type} (depth : Nat) (vs : List (Variant α)) (ending : ObjectEnding) :
    List (Key × Part) → Except Fault α
  | [] => .error (ending.withoutVariant vs)
  | (key, value) :: rest => do
    let name ← Key.name key
    let v ← Variant.find vs name
    let a ← value.read depth v.content.layout
    ending.afterVariant rest
    return a

end

end Json.Part

/-! ## Texts -/

/-- How many brackets may be open at once. -/
def maxDepth : Nat := 127

/-- Reads a text by a layout. Nothing but blanks may follow the value. -/
def Layout.read {α : Type} (l : Layout α) (text : String) : Except Fault α :=
  match Outline.ofText text with
  | [] => .error .endInValue
  | part :: rest => do
    let a ← part.read maxDepth l
    if rest.isEmpty then return a else .error .trailingCharacters

/-- Reads a text as a value of a kind. -/
def Kind.read (kind : Kind) (text : String) : Except Fault kind.Carrier := kind.layout.read text

end SqlTree
