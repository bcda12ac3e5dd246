import SqlTree.Double.Text
import SqlTree.Empty
import SqlTree.Text.Shown

/-!
# What can be wrong with a document

A `Fault` is the cause for which a document is refused. Causes fall into three categories: the text
ends too early, it is not JSON, or it is JSON of another shape than the tree to be read. The wording
of every cause is in `Fault.message` and nowhere else.

The place of a fault is left out. Where a decoder ends its message with ` at line L column C`, the
position up to which it had read, `Fault.message` is the message without this ending, and so are all
texts made from it: the message of `TreeError.undecodable` and the event of a refused tree. A fault
that is reported is the first in the order of the text, but nothing here says where that is.
-/

namespace SqlTree.Json

/-- What stands in a document where something else is expected. -/
inductive Found where
  | null
  | boolean (b : Bool)
  | integer (n : Int)
  | double (x : Double)
  | text (s : String)
  | list
  | object
  /-- a variant named without any content -/
  | bareVariant
  deriving DecidableEq

/-- What is expected at a place of a document. -/
inductive Expected where
  | text
  | flag
  | long
  | double
  | list
  | null
  /-- a record, by its title -/
  | record (title : String)
  /-- the content of a variant that holds one value -/
  | valueVariant
  /-- the content of a variant that holds a record -/
  | recordVariant
  deriving DecidableEq

/-- Why a document is refused. -/
inductive Fault where
  -- the text ends where something must follow
  | endInValue
  | endInList
  | endInObject
  | endInString
  -- the text is not JSON, or nests too deeply
  | expectedValue
  | expectedWord
  | expectedColon
  | expectedListEnd
  | expectedObjectEnd
  | trailingComma
  | trailingCharacters
  | keyNotText
  | controlCharacter
  | invalidEscape
  | loneSurrogate
  | unpairedSurrogate
  | invalidNumber
  | numberOutOfRange
  | tooDeep
  -- the document has another shape
  | wrongType (found : Found) (expected : Expected)
  | wrongInteger (n : Int)
  | wrongLength (present : Nat) (title : String) (total : Nat)
  | missingMember (name : String)
  | repeatedMember (name : String)
  | unknownVariant (name : String) (known : List String)
  | empty (what : EmptyList)
  deriving DecidableEq

/-- The three kinds of fault. -/
inductive Category where
  /-- `eof` -/
  | endOfText
  /-- `syntax` -/
  | form
  /-- `data` -/
  | shape
  deriving DecidableEq

/-! ## Wording -/

/-- A word between backticks. -/
def ticked (s : String) : String := "`" ++ s ++ "`"

def Found.message : Found → String
  | .null => "null"
  | .boolean b => "boolean " ++ ticked (if b then "true" else "false")
  | .integer n => "integer " ++ ticked (toString n)
  | .double x => "floating point " ++ ticked x.stored
  | .text s => "string " ++ Text.shown s
  | .list => "sequence"
  | .object => "map"
  | .bareVariant => "unit variant"

def Expected.message : Expected → String
  | .text => "a string"
  | .flag => "a boolean"
  | .long => "i64"
  | .double => "f64"
  | .list => "a sequence"
  | .null => "unit"
  | .record title => title
  | .valueVariant => "newtype variant"
  | .recordVariant => "struct variant"

/-- The names to choose from. -/
def alternatives : List String → String
  | [] => "nothing"
  | [a] => ticked a
  | [a, b] => ticked a ++ " or " ++ ticked b
  | names => "one of " ++ String.intercalate ", " (names.map ticked)

namespace Fault

/-- The wording of a fault, without its place. -/
def message : Fault → String
  | endInValue => "EOF while parsing a value"
  | endInList => "EOF while parsing a list"
  | endInObject => "EOF while parsing an object"
  | endInString => "EOF while parsing a string"
  | expectedValue => "expected value"
  | expectedWord => "expected ident"
  | expectedColon => "expected " ++ ticked ":"
  | expectedListEnd => "expected " ++ ticked "," ++ " or " ++ ticked "]"
  | expectedObjectEnd => "expected " ++ ticked "," ++ " or " ++ ticked "\x7d"
  | trailingComma => "trailing comma"
  | trailingCharacters => "trailing characters"
  | keyNotText => "key must be a string"
  | controlCharacter => "control character (\\u0000-\\u001F) found while parsing a string"
  | invalidEscape => "invalid escape"
  | loneSurrogate => "lone leading surrogate in hex escape"
  | unpairedSurrogate => "unexpected end of hex escape"
  | invalidNumber => "invalid number"
  | numberOutOfRange => "number out of range"
  | tooDeep => "recursion limit exceeded"
  | wrongType found expected =>
    "invalid type: " ++ found.message ++ ", expected " ++ expected.message
  | wrongInteger n => "invalid value: " ++ (Found.integer n).message ++ ", expected i64"
  | wrongLength present title total =>
    "invalid length " ++ toString present ++ ", expected " ++ title ++ " with " ++ toString total
      ++ " elements"
  | missingMember name => "missing field " ++ ticked name
  | repeatedMember name => "duplicate field " ++ ticked name
  | unknownVariant name known =>
    "unknown variant " ++ ticked name ++ ", expected " ++ alternatives known
  | empty what => what.message

def category : Fault → Category
  | endInValue | endInList | endInObject | endInString => .endOfText
  | wrongType .. | wrongInteger .. | wrongLength .. | missingMember .. | repeatedMember ..
  | unknownVariant .. | empty .. => .shape
  | _ => .form

end Fault

end SqlTree.Json
