import SqlTree.Json.Token

/-!
# The grammar of JSON

Which texts are JSON, and which of them say the same, without any reader. A `Value` is what a text
says: numbers as they are written, texts and names as the 16-bit units that they stand for, members
in their order. `Value.Spelled v t` says that the text `t` spells `v`, with one rule for each
production of the grammar.

Two texts are `Reformatted` if they spell values that differ at most in the order of members. Blanks
between tokens and the escapes of characters are lost in the value, so they may differ as well.
-/

namespace SqlTree.Json

/-- What a JSON text says. -/
inductive Value where
  | null
  | boolean (b : Bool)
  | number (text : List Char)
  | text (units : List Nat)
  | list (items : List Value)
  | object (members : List (List Nat × Value))

/-! ## Characters -/

/-- The 16-bit units of a character: one, or a surrogate pair. -/
def charUnits (c : Char) : List Nat :=
  if c.toNat < 0x10000 then [c.toNat]
  else [0xD800 + (c.toNat - 0x10000) / 0x400, 0xDC00 + (c.toNat - 0x10000) % 0x400]

/-- The letters that may follow a backslash, with the characters that they name. -/
def shortEscapes : List (Char × Char) :=
  [('\x22', '\x22'), ('\\', '\\'), ('/', '/'), ('b', '\x08'), ('f', '\x0c'), ('n', '\n'),
    ('r', '\r'), ('t', '\t')]

/-- A hexadecimal digit, in either case. -/
def IsHexDigit (value : Nat) (c : Char) : Prop :=
  value < 16 ∧ (c = Nat.digitChar value ∨ c = (Nat.digitChar value).toUpper)

/-- What stands between quotes for a sequence of units. -/
inductive SpelledUnits : List Nat → List Char → Prop where
  | nil : SpelledUnits [] []
  | plain {us : List Nat} {t : List Char} (c : Char)
    (hc : 0x20 ≤ c.toNat ∧ c ≠ '\x22' ∧ c ≠ '\\') (h : SpelledUnits us t) :
    SpelledUnits (charUnits c ++ us) (c :: t)
  | short {us : List Nat} {t : List Char} (letter c : Char) (hc : (letter, c) ∈ shortEscapes)
    (h : SpelledUnits us t) : SpelledUnits (charUnits c ++ us) ('\\' :: letter :: t)
  | unit {us : List Nat} {t : List Char} {w x y z : Nat} {a b c d : Char} (ha : IsHexDigit w a)
    (hb : IsHexDigit x b) (hc : IsHexDigit y c) (hd : IsHexDigit z d) (h : SpelledUnits us t) :
    SpelledUnits ((((w * 16 + x) * 16 + y) * 16 + z) :: us)
      ('\\' :: 'u' :: a :: b :: c :: d :: t)

/-- A text between quotes. -/
def SpelledText (us : List Nat) (t : List Char) : Prop :=
  ∃ body, SpelledUnits us body ∧ t = '\x22' :: (body ++ ['\x22'])

/-- The units of the characters of a text. -/
def textUnits (s : String) : List Nat := s.toList.flatMap charUnits

/-- A text without quotes, backslashes and controls may be written as it is. -/
theorem SpelledUnits.plains {cs : List Char}
    (h : ∀ c ∈ cs, 0x20 ≤ c.toNat ∧ c ≠ '\x22' ∧ c ≠ '\\') :
    SpelledUnits (cs.flatMap charUnits) cs := by
  induction cs with
  | nil => exact .nil
  | cons c rest ih =>
    obtain ⟨hc, hrest⟩ := List.forall_mem_cons.1 h
    exact .plain c hc (ih hrest)

theorem SpelledText.plains (s : String)
    (h : ∀ c ∈ s.toList, 0x20 ≤ c.toNat ∧ c ≠ '\x22' ∧ c ≠ '\\') :
    SpelledText (textUnits s) ('\x22' :: (s.toList ++ ['\x22'])) := ⟨s.toList, .plains h, rfl⟩

/-! ## Numbers -/

/-- One or more digits. -/
def IsDigits (t : List Char) : Prop := t ≠ [] ∧ ∀ c ∈ t, c.isDigit = true

/-- Digits that do not begin with a zero, or a zero alone. -/
def IsWhole (t : List Char) : Prop := t = ['0'] ∨ (IsDigits t ∧ t.head? ≠ some '0')

def IsFraction (t : List Char) : Prop := t = [] ∨ ∃ ds, IsDigits ds ∧ t = '.' :: ds

def IsExponent (t : List Char) : Prop :=
  t = [] ∨ ∃ mark sign ds, (mark = 'e' ∨ mark = 'E') ∧ (sign = [] ∨ sign = ['+'] ∨ sign = ['-'])
    ∧ IsDigits ds ∧ t = mark :: (sign ++ ds)

/-- A number: whole digits with or without a minus, a fraction and an exponent. -/
def IsNumber (t : List Char) : Prop :=
  ∃ sign whole fraction exponent, (sign = [] ∨ sign = ['-']) ∧ IsWhole whole ∧ IsFraction fraction
    ∧ IsExponent exponent ∧ t = sign ++ (whole ++ (fraction ++ exponent))

/-! ## Values -/

/-- Nothing but blanks. -/
def IsBlanks (t : List Char) : Prop := ∀ c ∈ t, isBlank c = true

/-- A text with blanks around it. -/
def Padded (body t : List Char) : Prop :=
  ∃ before after, IsBlanks before ∧ IsBlanks after ∧ t = before ++ (body ++ after)

instance (t : List Char) : Decidable (IsBlanks t) :=
  decidable_of_iff (t.all isBlank = true) List.all_eq_true

theorem isBlanks_nil : IsBlanks [] := fun _ h => absurd h List.not_mem_nil

theorem Padded.self (t : List Char) : Padded t t :=
  ⟨[], [], isBlanks_nil, isBlanks_nil, (List.append_nil t).symm⟩

/-- A name and a value with a colon between them. -/
def SpelledMember (name : List Nat) (body t : List Char) : Prop :=
  ∃ spelled key value, SpelledText name spelled ∧ Padded spelled key ∧ Padded body value
    ∧ t = key ++ ':' :: value

mutual

/-- A text spells a value. -/
inductive Value.Spelled : Value → List Char → Prop where
  | null : Spelled .null ['n', 'u', 'l', 'l']
  | yes : Spelled (.boolean true) ['t', 'r', 'u', 'e']
  | no : Spelled (.boolean false) ['f', 'a', 'l', 's', 'e']
  | number {t : List Char} (h : IsNumber t) : Spelled (.number t) t
  | text {us : List Nat} {t : List Char} (h : SpelledText us t) : Spelled (.text us) t
  | noItems {blanks : List Char} (h : IsBlanks blanks) :
    Spelled (.list []) ('[' :: (blanks ++ [']']))
  | list {v : Value} {rest : List Value} {body first more : List Char} (h : Spelled v body)
    (hfirst : Padded body first) (hmore : MoreItems rest more) :
    Spelled (.list (v :: rest)) ('[' :: (first ++ (more ++ [']'])))
  | noMembers {blanks : List Char} (h : IsBlanks blanks) :
    Spelled (.object []) ('\x7b' :: (blanks ++ ['\x7d']))
  | object {name : List Nat} {v : Value} {rest : List (List Nat × Value)}
    {body first more : List Char} (h : Spelled v body) (hfirst : SpelledMember name body first)
    (hmore : MoreMembers rest more) :
    Spelled (.object ((name, v) :: rest)) ('\x7b' :: (first ++ (more ++ ['\x7d'])))

/-- A text spells items, each behind a comma. -/
inductive Value.MoreItems : List Value → List Char → Prop where
  | nil : MoreItems [] []
  | cons {v : Value} {rest : List Value} {body first more : List Char} (h : Spelled v body)
    (hfirst : Padded body first) (hmore : MoreItems rest more) :
    MoreItems (v :: rest) (',' :: (first ++ more))

/-- A text spells members, each behind a comma. -/
inductive Value.MoreMembers : List (List Nat × Value) → List Char → Prop where
  | nil : MoreMembers [] []
  | cons {name : List Nat} {v : Value} {rest : List (List Nat × Value)}
    {body first more : List Char} (h : Spelled v body) (hfirst : SpelledMember name body first)
    (hmore : MoreMembers rest more) : MoreMembers ((name, v) :: rest) (',' :: (first ++ more))

end

/-- A text that spells a value, with blanks around it. -/
def Value.IsText (v : Value) (text : String) : Prop :=
  ∃ body, v.Spelled body ∧ Padded body text.toList

/-! ## The same in another order -/

mutual

/-- The same value, with the members of any of its objects in another order. -/
inductive Value.Rearranged : Value → Value → Prop where
  | null : Rearranged .null .null
  | boolean (b : Bool) : Rearranged (.boolean b) (.boolean b)
  | number (text : List Char) : Rearranged (.number text) (.number text)
  | text (units : List Nat) : Rearranged (.text units) (.text units)
  | list {items items' : List Value} (h : RearrangedItems items items') :
    Rearranged (.list items) (.list items')
  | object {members members' order : List (List Nat × Value)}
    (h : RearrangedMembers members members') (horder : members'.Perm order) :
    Rearranged (.object members) (.object order)

inductive Value.RearrangedItems : List Value → List Value → Prop where
  | nil : RearrangedItems [] []
  | cons {v w : Value} {vs ws : List Value} (h : Rearranged v w) (hrest : RearrangedItems vs ws) :
    RearrangedItems (v :: vs) (w :: ws)

/-- The members with the same names and rearranged values. -/
inductive Value.RearrangedMembers :
    List (List Nat × Value) → List (List Nat × Value) → Prop where
  | nil : RearrangedMembers [] []
  | cons {v w : Value} {vs ws : List (List Nat × Value)} (name : List Nat) (h : Rearranged v w)
    (hrest : RearrangedMembers vs ws) : RearrangedMembers ((name, v) :: vs) ((name, w) :: ws)

end

mutual

theorem Value.rearranged_refl : ∀ v : Value, v.Rearranged v
  | .null => .null
  | .boolean b => .boolean b
  | .number digits => .number digits
  | .text us => .text us
  | .list items => .list (Value.rearrangedItems_refl items)
  | .object members => .object (Value.rearrangedMembers_refl members) (.refl members)

theorem Value.rearrangedItems_refl : ∀ items : List Value, Value.RearrangedItems items items
  | [] => .nil
  | v :: rest => .cons (Value.rearranged_refl v) (Value.rearrangedItems_refl rest)

theorem Value.rearrangedMembers_refl :
    ∀ members : List (List Nat × Value), Value.RearrangedMembers members members
  | [] => .nil
  | (name, v) :: rest =>
    .cons name (Value.rearranged_refl v) (Value.rearrangedMembers_refl rest)

end

/-- Two JSON texts that say the same, up to blanks between tokens, the order of members and the
spelling of characters. -/
def Reformatted (text text' : String) : Prop :=
  ∃ v w : Value, v.IsText text ∧ w.IsText text' ∧ v.Rearranged w

end SqlTree.Json
