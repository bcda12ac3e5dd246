import SqlTree.Proofs.Double.Finite
import SqlTree.Proofs.Storage.RoundTrip

/-!
# What is read is made of what is read inside

One value has many documents: members in any order or none at all, records as lists, variants
without content as objects, members that no type knows. Whichever of them a value is read from, the
document that it is stored as is made of the documents of the values that were read inside, in no
more brackets than were opened to get there. So a property of documents that passes to a document
from what is in it (`Document.Hereditary`) holds for whatever is read (`Kind.holds_of_read`).

A layout `Yields` values with a property if each way of storing that it offers leads from parts
whose documents are right to such a value. That is a matter of its tables alone, and holds for every
kind (`Kind.yields`).
-/

namespace SqlTree

open Json

variable {α β : Type}

/-! ## Properties of documents -/

/-- Does a property pass to a document from what is in it? It may depend on the number of brackets
that are left to be opened. -/
structure Json.Document.Hereditary (P : Nat → Document → Prop) : Prop where
  null (n : Nat) : P n .null
  boolean (n : Nat) (b : Bool) : P n (.boolean b)
  integer (n : Nat) (i : Int) : P n (.integer i)
  double (n : Nat) {x : Double} (hx : x.isFinite = true) : P n (.double x)
  text (n : Nat) (s : String) : P n (.text s)
  list {n : Nat} {ds : List Document} (h : ∀ d ∈ ds, P n d) : P (n + 1) (.list ds)
  object {n : Nat} {ms : List (String × Document)} (h : ∀ m ∈ ms, P n m.2) : P (n + 1) (.object ms)

section

variable (P : Nat → Document → Prop)

/-- Has the document of a value the property? -/
def Kind.Holds (kind : Kind) (n : Nat) (value : kind.Carrier) : Prop := P n (kind.document value)

/-- Have the documents of the values of a row the property? -/
def Row.Holds (fs : List Field) (n : Nat) (row : Row fs) : Prop := ∀ m ∈ Row.members fs row, P n m.2

/-- Have the documents of the values the property that a row has so far? -/
def PartialRow.Holds : (fs : List Field) → Nat → PartialRow fs → Prop
  | [], _, _ => True
  | f :: fs, n, (value, rest) => (∀ v ∈ value, f.kind.Holds P n v) ∧ Holds fs n rest

end

variable {P : Nat → Document → Prop}

theorem Row.holds_cons {f : Field} {fs : List Field} {n : Nat} {value : f.kind.Carrier}
    {row : Row fs} :
    Row.Holds P (f :: fs) n (value, row) ↔ f.kind.Holds P n value ∧ Row.Holds P fs n row :=
  List.forall_mem_cons

theorem Json.Document.Hereditary.items (hP : Document.Hereditary P) {kind : Kind} {n : Nat}
    {values : List kind.Carrier} (h : ∀ value ∈ values, kind.Holds P n value) :
    P (n + 1) (.list (values.map kind.document)) :=
  hP.list (List.forall_mem_map.2 h)

theorem Json.Document.Hereditary.tagged (hP : Document.Hereditary P) {n : Nat} {name : String}
    {d : Document} (h : P n d) : P (n + 1) (.tagged name d) :=
  hP.object fun m hm => by
    rw [List.mem_singleton.1 hm]
    exact h

/-! ## Layouts that yield -/

section

variable (P : Nat → Document → Prop) (good : Nat → α → Prop)

/-- Whatever is built of a row is good, one bracket further out. -/
def Record.Yields (r : Record α) : Prop :=
  ∀ n row, Row.Holds P r.fields n row → good (n + 1) (r.build row)

/-- Whatever is built of content is good, as far out as its brackets lead. -/
def Content.Yields : Content α → Prop
  | .bare a => ∀ n, good n a
  | .value kind build => ∀ n value, kind.Holds P n value → good (n + 1) (build value)
  | .record r => ∀ n row, Row.Holds P r.fields n row → good (n + 2) (r.build row)

def ListContent.Yields : ListContent α → Prop
  | .refused _ => True
  | .items kind build => ∀ n values a, build values = .ok a →
    (∀ value ∈ values, kind.Holds P n value) → good (n + 1) a
  | .row r => r.Yields P good

def ObjectContent.Yields : ObjectContent α → Prop
  | .refused _ => True
  | .members r => r.Yields P good
  | .variant vs => ∀ v ∈ vs, v.content.Yields P good

/-- Whatever is read of a token, or built of values that are read and have the property, is good. -/
structure Layout.Yields (l : Layout α) : Prop where
  token {t : Token} {a : α} (h : l.token t = .ok a) (n : Nat) : good n a
  list : l.list.Yields P good
  object : l.object.Yields P good

end

variable {good : Nat → α → Prop}

/-! ## Ways of storing -/

theorem Variant.mem_of_find {vs : List (Variant α)} {name : String} {v : Variant α}
    (h : Variant.find vs name = .ok v) : v ∈ vs := by
  unfold Variant.find at h
  split at h
  · next found hfound =>
    obtain rfl : found = v := Except.ok.inj h
    exact List.mem_of_find?_eq_some hfound
  · simp at h

theorem Record.Describes.yields (hP : Document.Hereditary P) {document : α → Document}
    {r : Record α} (h : r.Describes document) : r.Yields P fun n a => P n (document a) := by
  intro n row hrow
  show P (n + 1) (document (r.build row))
  rw [h row]
  exact hP.object hrow

theorem Variant.Describes.yields (hP : Document.Hereditary P) {document : α → Document}
    {v : Variant α} (h : v.Describes document) :
    v.content.Yields P fun n a => P n (document a) := by
  obtain ⟨name, content⟩ := v
  cases content with
  | bare a =>
    intro n
    show P n (document a)
    rw [show document a = .text name from h]
    exact hP.text n name
  | value kind build =>
    intro n value hvalue
    show P (n + 1) (document (build value))
    rw [h value]
    exact hP.tagged hvalue
  | record r =>
    intro n row hrow
    show P (n + 2) (document (r.build row))
    rw [h row]
    exact hP.tagged (hP.object hrow)

namespace Layout

theorem yields_scalar {expected : Expected} {token : Token → Except Fault α}
    (h : ∀ t a, token t = .ok a → ∀ n, good n a) : (scalar expected token).Yields P good where
  token {t a} ht := h t a ht
  list := trivial
  object := trivial

theorem yields_items {kind : Kind} {build : List kind.Carrier → Except Fault α}
    (h : ∀ n values a, build values = .ok a → (∀ value ∈ values, kind.Holds P n value) →
      good (n + 1) a) : (items kind build).Yields P good where
  token ht := by simp [items] at ht
  list := h
  object := trivial

theorem yields_nonempty {kind : Kind} {build : List kind.Carrier → Except EmptyList α}
    (h : ∀ n values a, build values = .ok a → (∀ value ∈ values, kind.Holds P n value) →
      good (n + 1) a) : (nonempty kind build).Yields P good := by
  refine yields_items fun n values a ha => h n values a ?_
  split at ha
  · next built hbuilt => rw [hbuilt, Except.ok.inj ha]
  · simp at ha

theorem yields_record {r : Record α} (h : r.Yields P good) : (record r).Yields P good where
  token ht := by simp [record] at ht
  list := h
  object := h

theorem yields_choice {vs : List (Variant α)} (h : ∀ v ∈ vs, v.content.Yields P good) :
    (choice vs).Yields P good where
  token {t a} ht := by
    cases t with
    | quoted q =>
      obtain ⟨name, -, ht⟩ := bind_eq_ok.1 ht
      obtain ⟨v, hv, ha⟩ := bind_eq_ok.1 ht
      have hcontent := h v (Variant.mem_of_find hv)
      unfold Variant.bare at ha
      split at ha
      · next b hb =>
        obtain rfl : b = a := Except.ok.inj ha
        rw [hb] at hcontent
        exact hcontent
      · simp at ha
      · simp at ha
    | _ => simp [choice] at ht
  list := trivial
  object := h

/-- What is built of good values is good in its own way. -/
theorem Yields.map {l : Layout α} {f : α → β} {good' : Nat → β → Prop} (h : l.Yields P good)
    (hf : ∀ n a, good n a → good' n (f a)) : (l.map f).Yields P good' where
  token {t b} ht n := by
    obtain ⟨a, ha, rfl⟩ := map_eq_ok.1 ht
    exact hf n a (h.token ha n)
  list := by
    have hlist := h.list
    simp only [Layout.map]
    cases hl : l.list with
    | refused fault => trivial
    | items kind build =>
      rw [hl] at hlist
      intro n values b hb hvalues
      obtain ⟨a, ha, rfl⟩ := map_eq_ok.1 hb
      exact hf _ a (hlist n values a ha hvalues)
    | row r =>
      rw [hl] at hlist
      exact fun n row hrow => hf _ _ (hlist n row hrow)
  object := by
    have hobject := h.object
    simp only [Layout.map]
    cases ho : l.object with
    | refused fault => trivial
    | members r =>
      rw [ho] at hobject
      exact fun n row hrow => hf _ _ (hobject n row hrow)
    | variant vs =>
      rw [ho] at hobject
      intro v hv
      obtain ⟨⟨name, content⟩, hw, rfl⟩ := List.mem_map.1 hv
      have hcontent := hobject _ hw
      cases content with
      | bare a => exact fun n => hf n a (hcontent n)
      | value kind build => exact fun n value hvalue => hf _ _ (hcontent n value hvalue)
      | record r => exact fun n row hrow => hf _ _ (hcontent n row hrow)

end Layout

section

variable (hP : Document.Hereditary P)
include hP

namespace Layout

theorem yields_orNull {kind : Kind} (h : kind.layout.Yields P (kind.Holds P)) :
    kind.layout.orNull.Yields P ((Kind.maybe kind).Holds P) := by
  have hsome : (kind.layout.map some).Yields P ((Kind.maybe kind).Holds P) :=
    h.map fun _ _ hvalue => hvalue
  refine ⟨?_, hsome.list, hsome.object⟩
  intro t a ht n
  simp only [orNull] at ht
  split at ht
  · obtain rfl := Except.ok.inj ht
    exact hP.null n
  · simp at ht
  · exact hsome.token ht n

/-- The one place where a double comes from. -/
theorem yields_double : double.Yields P (Kind.double.Holds P) := by
  refine yields_scalar fun t x hx n => ?_
  split at hx
  · next text =>
    rcases (Numeral.ofText text).value_cases with ⟨m, hm, hfinite⟩ | herror
    · rw [hm] at hx
      obtain rfl : m.toDouble = x := Except.ok.inj hx
      exact hP.double n hfinite
    · simp [herror, Except.map] at hx
  · simp at hx

end Layout

/-! ## Kinds -/

theorem Kind.yields : ∀ kind : Kind, kind.layout.Yields P (kind.Holds P)
  | .text => Layout.yields_scalar fun _ s _ n => hP.text n s
  | .flag => Layout.yields_scalar fun _ b _ n => hP.boolean n b
  | .long => Layout.yields_scalar fun _ i _ n => hP.integer n i.toInt
  | .double => Layout.yields_double hP
  | .maybe kind => Layout.yields_orNull hP (Kind.yields kind)
  | .many kind => Layout.yields_items fun n values a ha hvalues => by
    obtain rfl : values = a := Except.ok.inj ha
    exact hP.items hvalues
  | .ident => (Layout.yields_scalar fun _ s _ n => hP.text n s).map fun _ _ h => h
  | .qualifiedName => Layout.yields_nonempty fun n values name hname hvalues => by
    show P (n + 1) name.document
    rw [QualifiedName.document_eq hname]
    exact hP.items hvalues
  | .projection => Layout.yields_nonempty fun n values p hp hvalues => by
    show P (n + 1) p.document
    rw [Projection.document_eq hp]
    exact hP.items hvalues
  | .constant => Layout.yields_choice fun v hv => (Constant.describes v hv).yields hP
  | .operator => Layout.yields_choice fun v hv => (Operator.describes v hv).yields hP
  | .setOperator => Layout.yields_choice fun v hv => (SetOperator.describes v hv).yields hP
  | .direction => Layout.yields_choice fun v hv => (Direction.describes v hv).yields hP
  | .expr => Layout.yields_choice fun v hv => (Expr.describes v hv).yields hP
  | .call => Layout.yields_record (Call.describes.yields hP)
  | .binary => Layout.yields_record (Binary.describes.yields hP)
  | .relation => Layout.yields_choice fun v hv => (Relation.describes v hv).yields hP
  | .joinCondition => Layout.yields_choice fun v hv => (JoinCondition.describes v hv).yields hP
  | .joinKind => Layout.yields_choice fun v hv => (JoinKind.describes v hv).yields hP
  | .join => Layout.yields_record (Join.describes.yields hP)
  | .fromClause => Layout.yields_record (FromClause.describes.yields hP)
  | .selectItem => Layout.yields_choice fun v hv => (SelectItem.describes v hv).yields hP
  | .select => Layout.yields_record (Select.describes.yields hP)
  | .body => Layout.yields_choice fun v hv => (Body.describes v hv).yields hP
  | .orderItem => Layout.yields_record (OrderItem.describes.yields hP)
  | .cte => Layout.yields_record (Cte.describes.yields hP)
  | .query => Layout.yields_record (Query.describes.yields hP)

/-- The content of a variant is read one bracket further in. -/
theorem Content.Yields.layout {c : Content α} (h : c.Yields P good) :
    c.layout.Yields P fun n a => good (n + 1) a := by
  cases c with
  | bare a =>
    refine Layout.yields_scalar fun t b hb n => ?_
    split at hb
    · obtain rfl : a = b := Except.ok.inj hb
      exact h (n + 1)
    · simp at hb
  | value kind build => exact (Kind.yields hP kind).map h
  | record r => exact Layout.yields_record h

/-! ## Rows -/

namespace PartialRow

omit hP in
theorem holds_empty (n : Nat) : ∀ fs : List Field, Holds P fs n (empty fs)
  | [] => trivial
  | _ :: fs => ⟨by simp, holds_empty n fs⟩

omit hP in
theorem holds_fill {name : String} {read : (kind : Kind) → Except Fault kind.Carrier} {n : Nat}
    (hread : ∀ kind value, read kind = .ok value → kind.Holds P n value) :
    ∀ {fs : List Field} {row row' : PartialRow fs}, Holds P fs n row →
      fill name read fs row = .ok row' → Holds P fs n row'
  | [], _, _, _, _ => trivial
  | f :: fs, (value, rest), row', hrow, h => by
    rw [fill] at h
    split at h
    · obtain ⟨v, hv, rfl⟩ := map_eq_ok.1 h
      refine ⟨fun w hw => ?_, hrow.2⟩
      obtain rfl : v = w := by simpa using hw
      exact hread _ v hv
    · obtain ⟨rest', hrest', rfl⟩ := map_eq_ok.1 h
      exact ⟨hrow.1, holds_fill hread hrow.2 hrest'⟩

theorem holds_leftOut {kind : Kind} {value : kind.Carrier} (h : kind.leftOut = some value)
    (n : Nat) : kind.Holds P n value := by
  cases kind with
  | maybe kind =>
    obtain rfl : none = value := Option.some.inj h
    exact hP.null n
  | _ => simp [Kind.leftOut] at h

theorem holds_complete {n : Nat} : ∀ {fs : List Field} {row : PartialRow fs} {all : Row fs},
    Holds P fs n row → complete fs row = .ok all → Row.Holds P fs n all
  | [], _, _, _, _ => fun _ hm => absurd hm List.not_mem_nil
  | f :: fs, (value, rest), all, hrow, h => by
    rw [complete] at h
    split at h
    · next v hv =>
      obtain ⟨row, hrest, rfl⟩ := map_eq_ok.1 h
      refine Row.holds_cons.2 ⟨?_, holds_complete hrow.2 hrest⟩
      cases value with
      | none => exact holds_leftOut hP hv n
      | some w =>
        obtain rfl : w = v := Option.some.inj hv
        exact hrow.1 w rfl
    · simp at h

end PartialRow

end

/-! ## Parts -/

namespace Json.Part

mutual

/-- Whatever is read with so many brackets to spare is good for so many. -/
theorem good_of_read (hP : Document.Hereditary P) : ∀ (p : Part) {α : Type} {l : Layout α}
    {good : Nat → α → Prop} {n : Nat} {a : α},
    l.Yields P good → p.read n l = .ok a → good n a
  | .token t, _, l, good, n, a, hl, h => by
    rw [read] at h
    exact hl.token h n
  | .list items ending, _, l, good, n, a, hl, h => by
    have hlist := hl.list
    rw [read] at h
    cases hcontent : l.list with
    | refused fault => simp [hcontent] at h
    | items kind build =>
      rw [hcontent] at h hlist
      obtain ⟨m, hm, h⟩ := bind_eq_ok.1 h
      obtain ⟨values, hvalues, h⟩ := bind_eq_ok.1 h
      obtain ⟨_, -, hbuild⟩ := bind_eq_ok.1 h
      rw [descend_eq_ok.1 hm]
      exact hlist m values a hbuild (holds_of_readItems hP items kind hvalues)
    | row r =>
      rw [hcontent] at h hlist
      obtain ⟨m, hm, h⟩ := bind_eq_ok.1 h
      obtain ⟨row, hrow, rfl⟩ := holds_of_readRow hP items h
      rw [descend_eq_ok.1 hm]
      exact hlist m row hrow
  | .object members ending, _, l, good, n, a, hl, h => by
    have hobject := hl.object
    rw [read] at h
    cases hcontent : l.object with
    | refused fault => simp [hcontent] at h
    | members r =>
      rw [hcontent] at h hobject
      obtain ⟨m, hm, h⟩ := bind_eq_ok.1 h
      obtain ⟨row, hrow, rfl⟩ := holds_of_readMembers hP members (PartialRow.holds_empty m _) h
      rw [descend_eq_ok.1 hm]
      exact hobject m row hrow
    | variant vs =>
      rw [hcontent] at h hobject
      obtain ⟨m, hm, h⟩ := bind_eq_ok.1 h
      rw [descend_eq_ok.1 hm]
      exact good_of_readVariant hP members hobject h

theorem good_of_readVariant (hP : Document.Hereditary P) {α : Type} : ∀ (ms : List (Key × Part))
    {vs : List (Variant α)} {good : Nat → α → Prop} {n : Nat} {ending : ObjectEnding} {a : α},
    (∀ v ∈ vs, v.content.Yields P good) → readVariant n vs ending ms = .ok a → good (n + 1) a
  | [], vs, good, n, ending, a, hvs, h => by simp [readVariant] at h
  | (key, value) :: rest, vs, good, n, ending, a, hvs, h => by
    rw [readVariant] at h
    obtain ⟨name, -, h⟩ := bind_eq_ok.1 h
    obtain ⟨v, hv, h⟩ := bind_eq_ok.1 h
    obtain ⟨b, hb, h⟩ := bind_eq_ok.1 h
    obtain ⟨_, -, hba⟩ := bind_eq_ok.1 h
    obtain rfl : b = a := Except.ok.inj hba
    have hgood := good_of_read hP value ((hvs v (Variant.mem_of_find hv)).layout hP) hb
    exact hgood

theorem holds_of_readItems (hP : Document.Hereditary P) : ∀ (ps : List Part) (kind : Kind)
    {n : Nat} {values : List kind.Carrier}, readItems n kind.layout ps = .ok values →
      ∀ value ∈ values, kind.Holds P n value
  | [], kind, n, values, h => by
    rw [readItems] at h
    obtain rfl := Except.ok.inj h
    exact fun _ hv => absurd hv List.not_mem_nil
  | p :: rest, kind, n, values, h => by
    rw [readItems] at h
    obtain ⟨value, hvalue, h⟩ := bind_eq_ok.1 h
    obtain ⟨more, hmore, h⟩ := bind_eq_ok.1 h
    obtain rfl := Except.ok.inj h
    have hp : kind.Holds P n value := good_of_read hP p (Kind.yields hP kind) hvalue
    exact List.forall_mem_cons.2 ⟨hp, holds_of_readItems hP rest kind hmore⟩

theorem holds_of_readRow (hP : Document.Hereditary P) {α : Type} : ∀ (ps : List Part) {n : Nat}
    {title : String} {total : Nat} {ending : ListEnding} {present : Nat} {fs : List Field}
    {build : Row fs → α} {a : α}, readRow n title total ending present fs build ps = .ok a →
      ∃ row, Row.Holds P fs n row ∧ a = build row
  | [], n, title, total, ending, present, [], build, a, h => by
    rw [readRow] at h
    obtain ⟨_, -, ha⟩ := map_eq_ok.1 h
    exact ⟨(), fun _ hm => absurd hm List.not_mem_nil, ha.symm⟩
  | [], n, title, total, ending, present, f :: fs, build, a, h => by
    simp [readRow] at h
  | p :: rest, n, title, total, ending, present, [], build, a, h => by
    simp [readRow] at h
  | p :: rest, n, title, total, ending, present, f :: fs, build, a, h => by
    rw [readRow] at h
    obtain ⟨value, hvalue, h⟩ := bind_eq_ok.1 h
    obtain ⟨row, hrow, ha⟩ := holds_of_readRow hP rest h
    have hp : f.kind.Holds P n value := good_of_read hP p (Kind.yields hP f.kind) hvalue
    exact ⟨(value, row), Row.holds_cons.2 ⟨hp, hrow⟩, ha⟩

theorem holds_of_readMembers (hP : Document.Hereditary P) {α : Type} : ∀ (ms : List (Key × Part))
    {n : Nat} {r : Record α} {ending : ObjectEnding} {row : PartialRow r.fields} {a : α},
      PartialRow.Holds P r.fields n row → readMembers n r ending row ms = .ok a →
      ∃ row, Row.Holds P r.fields n row ∧ a = r.build row
  | [], n, r, ending, row, a, hrow, h => by
    rw [readMembers] at h
    obtain ⟨_, -, h⟩ := bind_eq_ok.1 h
    obtain ⟨all, hall, ha⟩ := map_eq_ok.1 h
    exact ⟨all, PartialRow.holds_complete hP hrow hall, ha.symm⟩
  | (key, value) :: rest, n, r, ending, row, a, hrow, h => by
    rw [readMembers] at h
    obtain ⟨name, -, h⟩ := bind_eq_ok.1 h
    obtain ⟨_, -, h⟩ := bind_eq_ok.1 h
    split at h
    · obtain ⟨row', hrow', h⟩ := bind_eq_ok.1 h
      have hread (kind : Kind) (v : kind.Carrier) (hv : value.read n kind.layout = .ok v) :
          kind.Holds P n v := good_of_read hP value (Kind.yields hP kind) hv
      exact holds_of_readMembers hP rest (PartialRow.holds_fill hread hrow hrow') h
    · obtain ⟨_, -, h⟩ := bind_eq_ok.1 h
      exact holds_of_readMembers hP rest hrow h

end

end Json.Part

/-! ## Texts -/

/-- **Whatever is read has every hereditary property**, with all brackets to spare that a text may
open. -/
theorem Kind.holds_of_read (hP : Document.Hereditary P) {kind : Kind} {text : String}
    {value : kind.Carrier} (h : kind.read text = .ok value) : P maxDepth (kind.document value) := by
  obtain ⟨p, -, hread⟩ := Kind.read_eq_ok_iff.1 h
  have hholds : kind.Holds P maxDepth value := Part.good_of_read hP p (Kind.yields hP kind) hread
  exact hholds

end SqlTree
