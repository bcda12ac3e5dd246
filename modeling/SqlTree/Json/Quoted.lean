import SqlTree.Json.Fault

/-!
# Quoted text

The text between two quotes of a document is a sequence of *pieces*: a character that stands for
itself or is named by a short escape, or a 16-bit unit given by four hexadecimal digits.
`Place.step` reads the pieces character by character, and knows nothing of surrogates. What the
pieces denote is decided afterwards by `decode`, which joins a high and a low surrogate to one
character. A member that is passed over is not decoded, so its surrogates are never looked at
(`check`).

Writing needs no surrogates: `escape` names the quote, the backslash and the control characters, and
leaves all else as it is.
-/

namespace SqlTree.Json

/-- One piece of a quoted text. -/
inductive Piece where
  | char (c : Char)
  | unit (code : Nat)
  deriving DecidableEq

/-- How the pieces of a quoted text end: at the closing quote, with the whole text, or at something
that is no piece. -/
inductive Ending where
  | closed
  | cut
  | controlCharacter
  | unknownEscape
  | badUnit
  deriving DecidableEq

/-- An ending is a fault unless it is the closing quote. -/
def Ending.check : Ending → Except Fault Unit
  | .closed => .ok ()
  | .cut => .error .endInString
  | .controlCharacter => .error .controlCharacter
  | .unknownEscape | .badUnit => .error .invalidEscape

/-- The pieces after an opening quote, up to their end. -/
structure Quoted where
  pieces : List Piece
  ending : Ending
  deriving DecidableEq

namespace Quoted

/-! ## Pieces -/

/-- Where a reader stands inside a quoted text. -/
inductive Place where
  /-- between two pieces -/
  | plain
  /-- behind a backslash -/
  | escape
  /-- behind `\u` and so many more bytes; the value is lost once one of them was no digit -/
  | unit (bytes : Nat) (value : Option Nat)
  deriving DecidableEq

/-- What one more character does. -/
inductive Step where
  | go (place : Place)
  | piece (p : Piece)
  | stop (ending : Ending)
  deriving DecidableEq

/-- The value of a hexadecimal digit, in either case. -/
def hexValue? (c : Char) : Option Nat :=
  if '0' ≤ c ∧ c ≤ '9' then some (c.toNat - 48)
  else if 'a' ≤ c ∧ c ≤ 'f' then some (c.toNat - 87)
  else if 'A' ≤ c ∧ c ≤ 'F' then some (c.toNat - 55)
  else none

/-- The character that a short escape names. -/
def shortEscape? (c : Char) : Option Char :=
  if c = '\x22' ∨ c = '\\' ∨ c = '/' then some c
  else if c = 'b' then some '\x08'
  else if c = 'f' then some '\x0c'
  else if c = 'n' then some '\n'
  else if c = 'r' then some '\r'
  else if c = 't' then some '\t'
  else none

/-- The characters that a quoted text may not hold as they are. -/
def isControl (c : Char) : Bool := decide (c.toNat < 0x20)

/-- Reads one character. Four bytes are taken after `\u` whatever they are, so that a text which
ends within them is cut, not wrong. -/
def Place.step : Place → Char → Step
  | .plain, c =>
    if c = '\x22' then .stop .closed
    else if c = '\\' then .go .escape
    else if isControl c then .stop .controlCharacter
    else .piece (.char c)
  | .escape, c =>
    if c = 'u' then .go (.unit 0 (some 0))
    else match shortEscape? c with
      | some named => .piece (.char named)
      | none => .stop .unknownEscape
  | .unit bytes value, c =>
    let value := value.bind fun high => (hexValue? c).map (high * 16 + ·)
    if bytes + c.utf8Size < 4 then .go (.unit (bytes + c.utf8Size) value)
    else match value with
      | some code => .piece (.unit code)
      | none => .stop .badUnit

/-! ## What the pieces denote -/

/-- The units that come first in a surrogate pair. -/
def isHigh (code : Nat) : Bool := decide (0xD800 ≤ code ∧ code ≤ 0xDBFF)

/-- The units that come last in a surrogate pair. -/
def isLow (code : Nat) : Bool := decide (0xDC00 ≤ code ∧ code ≤ 0xDFFF)

/-- The character of a surrogate pair. -/
def pair (high low : Nat) : Char :=
  Char.ofNat (0x10000 + (high - 0xD800) * 0x400 + (low - 0xDC00))

/-- The fault of a text that ends behind a high surrogate. -/
def afterHigh : Ending → Fault
  | .cut => .endInString
  | .badUnit => .invalidEscape
  | .closed | .controlCharacter | .unknownEscape => .unpairedSurrogate

/-- The characters that pieces denote before an ending. -/
def decodePieces (ending : Ending) : List Piece → Except Fault (List Char)
  | [] => ending.check.map fun _ => []
  | .char c :: rest => (decodePieces ending rest).map (c :: ·)
  | .unit code :: rest =>
    if isLow code then .error .loneSurrogate
    else if isHigh code then
      match rest with
      | .unit low :: rest =>
        if isLow low then (decodePieces ending rest).map (pair code low :: ·)
        else .error .loneSurrogate
      | .char _ :: _ => .error .unpairedSurrogate
      | [] => .error (afterHigh ending)
    else (decodePieces ending rest).map (Char.ofNat code :: ·)

/-- The text that stands between the quotes. -/
def decode (q : Quoted) : Except Fault String :=
  (decodePieces q.ending q.pieces).map String.ofList

/-- Is the text well formed, whatever its surrogates? -/
def check (q : Quoted) : Except Fault Unit := q.ending.check

/-! ## Writing -/

/-- How a character is written between quotes. -/
def escape (c : Char) : List Char :=
  if c = '\x22' ∨ c = '\\' then ['\\', c]
  else if c = '\x08' then ['\\', 'b']
  else if c = '\x0c' then ['\\', 'f']
  else if c = '\n' then ['\\', 'n']
  else if c = '\r' then ['\\', 'r']
  else if c = '\t' then ['\\', 't']
  else if isControl c then
    ['\\', 'u', '0', '0', Nat.digitChar (c.toNat / 16), Nat.digitChar (c.toNat % 16)]
  else [c]

/-- A text between quotes. -/
def quote (s : String) : List Char := '\x22' :: (s.toList.flatMap escape ++ ['\x22'])

end Quoted

end SqlTree.Json
