import SqlTree.Text.Unseen

/-!
# Text shown in messages

A text that a message quotes is put between quotes. Characters that could not be seen are named by
their code point, and those that would end or break the quotation by a short escape.
-/

namespace SqlTree.Text

/-- A character of a quoted text. -/
def showChar (c : Char) : List Char :=
  if c = '\x00' then ['\\', '0']
  else if c = '\t' then ['\\', 't']
  else if c = '\r' then ['\\', 'r']
  else if c = '\n' then ['\\', 'n']
  else if c = '\\' ∨ c = '\x22' then ['\\', c]
  else if isUnseen c then
    '\\' :: 'u' :: '\x7b' :: (Nat.toDigits 16 c.toNat ++ ['\x7d'])
  else [c]

/-- A text as messages quote it. -/
def shown (s : String) : String :=
  String.ofList ('\x22' :: (s.toList.flatMap showChar ++ ['\x22']))

end SqlTree.Text
