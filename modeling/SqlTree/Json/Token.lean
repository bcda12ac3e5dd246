import SqlTree.Json.Quoted
import SqlTree.Json.Numeral

/-!
# Tokens

A document is read in three steps, each with its own data between it and the next: characters to
tokens (here), tokens to an outline of nested brackets, and the outline to a tree.

`Token.ofText` never fails. Where the characters stop being tokens it leaves one token that says so,
and ends: the fault counts only if reading gets that far, since an earlier one is reported first.
-/

namespace SqlTree.Json

/-- The two kinds of brackets: square ones around a list, curly ones around members. -/
inductive Bracket where
  | square
  | curly
  deriving DecidableEq

/-- The three words of a document. -/
inductive Word where
  | null
  | boolean (b : Bool)
  deriving DecidableEq

/-- The smallest parts of a document. -/
inductive Token where
  | opening (b : Bracket)
  | closing (b : Bracket)
  | comma
  | colon
  | word (w : Word)
  | number (text : List Char)
  | quoted (q : Quoted)
  /-- the beginning of a word, then another letter or the end of the text -/
  | brokenWord (w : Word) (cut : Bool)
  /-- the beginning of a number, then a character that may not follow or the end of the text -/
  | brokenNumber (cut : Bool)
  /-- a character that begins no token -/
  | stray
  deriving DecidableEq

/-- The characters that may stand between tokens. -/
def isBlank (c : Char) : Bool := c = ' ' || c = '\t' || c = '\n' || c = '\r'

namespace Token

/-- What has been read of the token that is not yet complete. -/
inductive Pending where
  | nothing
  /-- a word, and the letters it still needs -/
  | word (w : Word) (missing : List Char)
  /-- a number; its characters are kept latest first -/
  | number (before : List Char) (place : Numeral.Place)
  /-- a quoted text; its pieces are kept latest first -/
  | quoted (before : List Piece) (place : Quoted.Place)
  /-- the rest is no longer looked at -/
  | stopped
  deriving DecidableEq

/-- The tokens completed by a character, and what is pending after it. -/
abbrev Advance := List Token × Pending

/-- Reads the first character of a token. -/
def start (c : Char) : Advance :=
  if isBlank c then ([], .nothing)
  else if c = '[' then ([.opening .square], .nothing)
  else if c = ']' then ([.closing .square], .nothing)
  else if c = '\x7b' then ([.opening .curly], .nothing)
  else if c = '\x7d' then ([.closing .curly], .nothing)
  else if c = ',' then ([.comma], .nothing)
  else if c = ':' then ([.colon], .nothing)
  else if c = '\x22' then ([], .quoted [] .plain)
  else if c = 'n' then ([], .word .null ['u', 'l', 'l'])
  else if c = 't' then ([], .word (.boolean true) ['r', 'u', 'e'])
  else if c = 'f' then ([], .word (.boolean false) ['a', 'l', 's', 'e'])
  else match Numeral.Place.start? c with
    | some place => ([], .number [c] place)
    | none => ([.stray], .stopped)

/-- A token that ends only because another character follows. -/
def endedBy (t : Token) (c : Char) : Advance :=
  let (complete, next) := start c
  (t :: complete, next)

/-- Reads one character. -/
def Pending.step : Pending → Char → Advance
  | .nothing, c => start c
  | .word w [], c => endedBy (.word w) c
  | .word w (m :: missing), c =>
    if c ≠ m then ([.brokenWord w false], .stopped)
    else if missing = [] then ([.word w], .nothing)
    else ([], .word w missing)
  | .number before place, c =>
    match place.step c with
    | .go place => ([], .number (c :: before) place)
    | .ended => endedBy (.number before.reverse) c
    | .wrong => ([.brokenNumber false], .stopped)
  | .quoted before place, c =>
    match place.step c with
    | .go place => ([], .quoted before place)
    | .piece p => ([], .quoted (p :: before) .plain)
    | .stop .closed => ([.quoted ⟨before.reverse, .closed⟩], .nothing)
    | .stop ending => ([.quoted ⟨before.reverse, ending⟩], .stopped)
  | .stopped, _ => ([], .stopped)

/-- The token that the end of the text completes or cuts. -/
def Pending.finish : Pending → List Token
  | .nothing | .stopped => []
  | .word w [] => [.word w]
  | .word w (_ :: _) => [.brokenWord w true]
  | .number before place =>
    if place.isFinal then [.number before.reverse] else [.brokenNumber true]
  | .quoted before _ => [.quoted ⟨before.reverse, .cut⟩]

/-- The tokens of the characters that follow what is pending. -/
def scan : Pending → List Char → List Token
  | pending, [] => pending.finish
  | pending, c :: rest =>
    let (complete, next) := pending.step c
    complete ++ scan next rest

/-- The tokens of a text. -/
def ofText (text : List Char) : List Token := scan .nothing text

end Token

end SqlTree.Json
