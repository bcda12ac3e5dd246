import SqlTree.Json.Form
import SqlTree.Storage.Kind

/-!
# Layouts

A `Layout` describes how the values of a type are stored: what a token stands for, what a list holds
and what an object holds. Four ways of storing cover all types of a tree:

* a scalar is a token;
* a list holds values of one kind;
* a record is an object with named members in any order, or a list of its members in their order;
* a choice is the name of a variant, or an object whose only member is a variant and its content.

A layout refers to other types by their kind only, so it is finite although the types are mutually
recursive. Whatever a layout does not provide for is refused with the fault that names what was
expected.
-/

namespace SqlTree

open Json

/-! ## Records -/

/-- A member of a record. -/
structure Field where
  name : String
  kind : Kind

/-- A value for each field. -/
abbrev Row : List Field → Type
  | [] => Unit
  | f :: fs => f.kind.Carrier × Row fs

/-- A record: what it is called in messages, its fields in order, and what is made of their values.
-/
structure Record (α : Type) where
  title : String
  fields : List Field
  build : Row fields → α

def Record.map {α β : Type} (f : α → β) (r : Record α) : Record β :=
  ⟨r.title, r.fields, f ∘ r.build⟩

/-! ## Choices -/

/-- What is stored with the name of a variant. -/
inductive Content (α : Type) where
  /-- nothing -/
  | bare (a : α)
  /-- one value -/
  | value (kind : Kind) (build : kind.Carrier → α)
  /-- a record -/
  | record (r : Record α)

/-- One of the alternatives of a choice. -/
structure Variant (α : Type) where
  name : String
  content : Content α

def Content.map {α β : Type} (f : α → β) : Content α → Content β
  | .bare a => .bare (f a)
  | .value kind build => .value kind (f ∘ build)
  | .record r => .record (r.map f)

def Variant.map {α β : Type} (f : α → β) (v : Variant α) : Variant β := ⟨v.name, v.content.map f⟩

/-- The variant with this name. -/
def Variant.find {α : Type} (vs : List (Variant α)) (name : String) : Except Fault (Variant α) :=
  match vs.find? fun v => v.name == name with
  | some v => .ok v
  | none => .error (.unknownVariant name (vs.map Variant.name))

/-- The value of a variant that is named without content. -/
def Variant.bare {α : Type} (v : Variant α) : Except Fault α :=
  match v.content with
  | .bare a => .ok a
  | .value .. => .error (.wrongType .bareVariant .valueVariant)
  | .record _ => .error (.wrongType .bareVariant .recordVariant)

/-! ## Layouts -/

/-- What a list holds. -/
inductive ListContent (α : Type) where
  | refused (fault : Fault)
  | items (kind : Kind) (build : List kind.Carrier → Except Fault α)
  /-- the fields of a record, in order -/
  | row (r : Record α)

/-- What an object holds. -/
inductive ObjectContent (α : Type) where
  | refused (fault : Fault)
  /-- the fields of a record, by name -/
  | members (r : Record α)
  /-- a variant and its content -/
  | variant (vs : List (Variant α))

/-- How the values of a type are stored. -/
structure Layout (α : Type) where
  token : Token → Except Fault α
  list : ListContent α
  object : ObjectContent α

def ListContent.map {α β : Type} (f : α → β) : ListContent α → ListContent β
  | .refused fault => .refused fault
  | .items kind build => .items kind fun xs => (build xs).map f
  | .row r => .row (r.map f)

def ObjectContent.map {α β : Type} (f : α → β) : ObjectContent α → ObjectContent β
  | .refused fault => .refused fault
  | .members r => .members (r.map f)
  | .variant vs => .variant (vs.map (Variant.map f))

/-- The fault of a token that stands in the place of something else. The token is read first, and a
fault inside it is reported instead. -/
def Json.Token.refusal (expected : Expected) : Token → Fault
  | .word .null => .wrongType .null expected
  | .word (.boolean b) => .wrongType (.boolean b) expected
  | .number text =>
    match (Numeral.ofText text).value with
    | .ok (.integer n) => .wrongType (.integer n) expected
    | .ok (.double x) => .wrongType (.double x) expected
    | .error fault => fault
  | .quoted q =>
    match q.decode with
    | .ok s => .wrongType (.text s) expected
    | .error fault => fault
  | .brokenWord _ cut => if cut then .endInValue else .expectedWord
  | .brokenNumber cut => if cut then .endInValue else .invalidNumber
  | .opening _ | .closing _ | .comma | .colon | .stray => .expectedValue

namespace Layout

variable {α β : Type}

def map (f : α → β) (l : Layout α) : Layout β :=
  { token := fun t => (l.token t).map f, list := l.list.map f, object := l.object.map f }

/-- A scalar is a token. -/
def scalar (expected : Expected) (token : Token → Except Fault α) : Layout α where
  token := token
  list := .refused (.wrongType .list expected)
  object := .refused (.wrongType .object expected)

/-- A quoted text. -/
def text : Layout String :=
  scalar .text fun
    | .quoted q => q.decode
    | t => .error (Token.refusal .text t)

/-- `true` or `false`. -/
def flag : Layout Bool :=
  scalar .flag fun
    | .word (.boolean b) => .ok b
    | t => .error (Token.refusal .flag t)

/-- An integer of 64 bits with a sign; doubles are refused, even whole ones. -/
def long : Layout Int64 :=
  scalar .long fun
    | .number text =>
      match (Numeral.ofText text).integer? with
      | some n =>
        if Int64.minValue.toInt ≤ n ∧ n ≤ Int64.maxValue.toInt then .ok (Int64.ofInt n)
        else .error (.wrongInteger n)
      | none => .error (Token.refusal .long (.number text))
    | t => .error (Token.refusal .long t)

/-- Any number. -/
def double : Layout Double :=
  scalar .double fun
    | .number text => (Numeral.ofText text).value.map Number.toDouble
    | t => .error (Token.refusal .double t)

/-- `null`, in the place of a content that does not exist. -/
def null (a : α) : Layout α :=
  scalar .null fun
    | .word .null => .ok a
    | t => .error (Token.refusal .null t)

/-- A list of values of one kind. -/
def items (kind : Kind) (build : List kind.Carrier → Except Fault α) : Layout α where
  token := fun t => .error (Token.refusal .list t)
  list := .items kind build
  object := .refused (.wrongType .object .list)

/-- The fields of a record, by name or in order. -/
def record (r : Record α) : Layout α where
  token := fun t => .error (Token.refusal (.record r.title) t)
  list := .row r
  object := .members r

/-- One of several variants. Nothing but a variant is even looked at. -/
def choice (vs : List (Variant α)) : Layout α where
  token := fun
    | .quoted q => do
      let v ← Variant.find vs (← q.decode)
      v.bare
    | _ => .error .expectedValue
  list := .refused .expectedValue
  object := .variant vs

/-- A value or `null`. The letter `n` is enough to make it a `null`. -/
def orNull (l : Layout α) : Layout (Option α) where
  token := fun
    | .word .null => .ok none
    | .brokenWord .null cut => .error (if cut then .endInValue else .expectedWord)
    | t => (l.token t).map some
  list := l.list.map some
  object := l.object.map some

end Layout

end SqlTree
