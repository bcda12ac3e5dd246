import SqlTree.Json.Quoted

/-!
# Documents

A `Document` is what is written: the value that a stored tree has in JSON. It is printed without any
blanks, members in their order. An integer and a double stay apart, for the text of a double always
shows a point or an exponent.
-/

namespace SqlTree.Json

/-- A JSON value. -/
inductive Document where
  | null
  | boolean (b : Bool)
  | integer (n : Int)
  | double (x : Double)
  | text (s : String)
  | list (items : List Document)
  | object (members : List (String × Document))

namespace Document

/-- A value with a name of its own. -/
def tagged (name : String) (content : Document) : Document := .object [(name, content)]

/-- A value or `null`. -/
def ofOption : Option Document → Document
  | none => .null
  | some d => d

/-! ## Print -/

/-- Texts with commas between them. -/
def commas : List (List Char) → List Char
  | [] => []
  | [t] => t
  | t :: rest => t ++ ',' :: commas rest

mutual

/-- The text of a document. -/
def print : Document → List Char
  | .null => ['n', 'u', 'l', 'l']
  | .boolean true => ['t', 'r', 'u', 'e']
  | .boolean false => ['f', 'a', 'l', 's', 'e']
  | .integer n => (toString n).toList
  | .double x => x.stored.toList
  | .text s => Quoted.quote s
  | .list items => '[' :: (commas (printItems items) ++ [']'])
  | .object members => '\x7b' :: (commas (printMembers members) ++ ['\x7d'])

def printItems : List Document → List (List Char)
  | [] => []
  | d :: rest => d.print :: printItems rest

def printMembers : List (String × Document) → List (List Char)
  | [] => []
  | (name, d) :: rest => (Quoted.quote name ++ ':' :: d.print) :: printMembers rest

end

/-! ## Comparison -/

mutual

/-- Do two documents mean the same? Doubles are compared as numbers. -/
def same : Document → Document → Bool
  | .null, .null => true
  | .boolean a, .boolean b => a == b
  | .integer a, .integer b => a == b
  | .double a, .double b => a.same b
  | .text a, .text b => a == b
  | .list as, .list bs => sameItems as bs
  | .object as, .object bs => sameMembers as bs
  | _, _ => false

def sameItems : List Document → List Document → Bool
  | [], [] => true
  | a :: as, b :: bs => a.same b && sameItems as bs
  | _, _ => false

def sameMembers : List (String × Document) → List (String × Document) → Bool
  | [], [] => true
  | (m, a) :: as, (n, b) :: bs => m == n && a.same b && sameMembers as bs
  | _, _ => false

end

end Document

end SqlTree.Json
