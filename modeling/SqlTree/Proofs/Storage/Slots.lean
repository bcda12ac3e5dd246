import SqlTree.Proofs.Json.Holes
import SqlTree.Proofs.Storage.Hereditary
import SqlTree.Proofs.Tree.Contexts

/-!
# Where a value stands in the document of another

A tree with a hole is stored as a document with a hole. `Slot` says this of writing and of reading:
when the whole was read back, the value in the hole was read back on its own, and any other part in
its place is read as the value would be, with everything around it as before.

There is one lemma for each way of storing (`Slot.member`, `Slot.content`, `Slot.item`, ...), and
slots compose. So every frame of a tree is a slot (`Frame.hasSlot`), and with it every context.
-/

namespace SqlTree

open Json Document

variable {α β γ : Type}

/-! ## Tables that can be told apart -/

/-- The fields have different names, and different values of them give different results. -/
def Record.Faithful (r : Record α) : Prop :=
  (r.fields.map Field.name).Nodup ∧ Function.Injective r.build

/-- Different contents give different results. -/
def Content.Faithful : Content α → Prop
  | .bare _ => True
  | .value _ build => Function.Injective build
  | .record r => r.Faithful

theorem Constant.faithful : ∀ v ∈ Constant.variants, v.content.Faithful := by
  simp [variants, Content.Faithful, Function.Injective]

theorem Operator.faithful : ∀ v ∈ Operator.variants, v.content.Faithful := by
  simp [variants, Content.Faithful]

theorem SetOperator.faithful : ∀ v ∈ SetOperator.variants, v.content.Faithful := by
  simp [variants, Content.Faithful]

theorem Direction.faithful : ∀ v ∈ Direction.variants, v.content.Faithful := by
  simp [variants, Content.Faithful]

theorem Expr.faithful : ∀ v ∈ Expr.variants, v.content.Faithful := by
  simp [variants, Content.Faithful, Record.Faithful, Variant.ofFields, Function.Injective]

theorem Call.faithful : Call.record.Faithful := by
  simp [record, Record.named, Record.Faithful, Function.Injective]

theorem Binary.faithful : Binary.record.Faithful := by
  simp [record, Record.named, Record.Faithful, Function.Injective]

theorem Relation.faithful : ∀ v ∈ Relation.variants, v.content.Faithful := by
  simp +contextual [variants, Content.Faithful, Record.Faithful, Variant.ofFields,
    Function.Injective]

theorem JoinCondition.faithful : ∀ v ∈ JoinCondition.variants, v.content.Faithful := by
  simp [variants, Content.Faithful, Function.Injective]

theorem JoinKind.faithful : ∀ v ∈ JoinKind.variants, v.content.Faithful := by
  simp [variants, Content.Faithful, Function.Injective]

theorem Join.faithful : Join.record.Faithful := by
  simp [record, Record.named, Record.Faithful, Function.Injective]

theorem FromClause.faithful : FromClause.record.Faithful := by
  simp [record, Record.named, Record.Faithful, Function.Injective]

theorem SelectItem.faithful : ∀ v ∈ SelectItem.variants, v.content.Faithful := by
  simp [variants, Content.Faithful, Record.Faithful, Variant.ofFields, Function.Injective]

theorem Select.faithful : Select.record.Faithful := by
  simp +contextual [record, Record.named, Record.Faithful, Function.Injective]

theorem Body.faithful : ∀ v ∈ Body.variants, v.content.Faithful := by
  simp [variants, Content.Faithful, Record.Faithful, Variant.ofFields, Function.Injective]

theorem OrderItem.faithful : OrderItem.record.Faithful := by
  simp [record, Record.named, Record.Faithful, Function.Injective]

theorem Cte.faithful : Cte.record.Faithful := by
  simp [record, Record.named, Record.Faithful, Function.Injective]

theorem Query.faithful : Query.record.Faithful := by
  simp +contextual [record, Record.named, Record.Faithful, Function.Injective]

/-! ## Slots -/

/-- How the values of a type are read and written. -/
structure Storage (α : Type) where
  layout : Layout α
  document : α → Document

def Kind.storage (kind : Kind) : Storage kind.Carrier := ⟨kind.layout, kind.document⟩

/-- The record of which nothing is made but the row of its values. -/
def Record.rows (r : Record α) : Record (Row r.fields) := ⟨r.title, r.fields, id⟩

def Record.storage (r : Record α) : Storage (Row r.fields) :=
  ⟨.record r.rows, fun row => .object (Row.members r.fields row)⟩

/-- The hole `h` is where the inner value of `fill` is written and read. -/
structure Slot (inner : Storage β) (outer : Storage α) (fill : β → α) (h : Hole) : Prop where
  document_fill (v : β) : outer.document (fill v) = h.fill (inner.document v)
  read_fill {n : Nat} {v : β} (hread : (outer.document (fill v)).part.read n outer.layout
      = .ok (fill v)) :
    ∃ m, (inner.document v).part.read m inner.layout = .ok v ∧ ∀ p : Part, p.isNull = false →
      (h.surround p).read n outer.layout = (p.read m inner.layout).map fill

theorem Json.Document.Hole.isNull_surround (h : Hole) {p : Part} (hp : p.isNull = false) :
    (h.surround p).isNull = false := by
  cases h with
  | here => exact hp
  | item | member => rfl

namespace Slot

theorem self (s : Storage α) : Slot s s id .here where
  document_fill _ := rfl
  read_fill {n v} hread := by
    refine ⟨n, hread, fun p _ => ?_⟩
    show p.read n s.layout = (p.read n s.layout).map id
    cases p.read n s.layout <;> rfl

/-- A slot within a slot. -/
theorem comp {inner : Storage γ} {middle : Storage β} {outer : Storage α} {f : β → α} {g : γ → β}
    {h k : Hole} (hf : Slot middle outer f h) (hg : Slot inner middle g k) :
    Slot inner outer (f ∘ g) (h.comp k) where
  document_fill v := by
    rw [Function.comp_apply, hf.document_fill, hg.document_fill, Hole.fill_comp]
  read_fill {n v} hread := by
    obtain ⟨m, hmiddle, hsurround⟩ := hf.read_fill hread
    obtain ⟨l, hinner, hsurround'⟩ := hg.read_fill hmiddle
    refine ⟨l, hinner, fun p hp => ?_⟩
    rw [Hole.surround_comp, hsurround _ (k.isNull_surround hp), hsurround' p hp, map_comp]

/-! ## Lists and values that may be absent -/

theorem readItems_around {kind : Kind} {m : Nat} (after : List kind.Carrier) (v : kind.Carrier) :
    ∀ before : List kind.Carrier,
      Part.readItems m kind.layout (itemParts ((before ++ v :: after).map kind.document))
        = .ok (before ++ v :: after) →
      (kind.document v).part.read m kind.layout = .ok v
      ∧ ∀ p : Part, Part.readItems m kind.layout
          (itemParts (before.map kind.document) ++ p :: itemParts (after.map kind.document))
        = (p.read m kind.layout).map fun w => before ++ w :: after
  | [], hread => by
    rw [List.nil_append, List.map_cons, itemParts, Part.readItems] at hread
    obtain ⟨w, hw, hread⟩ := bind_eq_ok.1 hread
    obtain ⟨ws, hws, hread⟩ := bind_eq_ok.1 hread
    obtain ⟨rfl, rfl⟩ := List.cons.inj (Except.ok.inj hread)
    refine ⟨hw, fun p => ?_⟩
    rw [List.map_nil, itemParts, List.nil_append, Part.readItems, hws]
    cases p.read m kind.layout <;> rfl
  | u :: before, hread => by
    rw [List.cons_append, List.map_cons, itemParts, Part.readItems] at hread
    obtain ⟨w, hw, hread⟩ := bind_eq_ok.1 hread
    obtain ⟨ws, hws, hread⟩ := bind_eq_ok.1 hread
    obtain ⟨rfl, rfl⟩ := List.cons.inj (Except.ok.inj hread)
    obtain ⟨hv, hrest⟩ := readItems_around after v before hws
    refine ⟨hv, fun p => ?_⟩
    rw [List.map_cons, itemParts, List.cons_append, Part.readItems, hw, hrest p]
    cases p.read m kind.layout <;> rfl

/-- An item of a list from which something is built that no other list would give. -/
theorem itemOf {kind : Kind} {build : List kind.Carrier → Except Fault α}
    {outer : Storage α} {fill : kind.Carrier → α} {before after : List kind.Carrier}
    (hlayout : outer.layout = .items kind build)
    (hbuild : ∀ v values, build values = .ok (fill v) ↔ values = before ++ v :: after)
    (hdocument : ∀ v, outer.document (fill v) = .list ((before ++ v :: after).map kind.document)) :
    Slot kind.storage outer fill
      (.item (before.map kind.document) .here (after.map kind.document)) where
  document_fill v := by
    rw [hdocument, List.map_append, List.map_cons]
    rfl
  read_fill {n v} hread := by
    rw [hdocument, part, hlayout, Part.read_items] at hread
    obtain ⟨m, hm, hread⟩ := bind_eq_ok.1 hread
    obtain ⟨values, hvalues, hread⟩ := bind_eq_ok.1 hread
    rw [(hbuild v values).1 hread] at hvalues
    obtain ⟨hv, haround⟩ := readItems_around after v before hvalues
    refine ⟨m, hv, fun p _ => ?_⟩
    show (Part.list (itemParts (before.map kind.document) ++ p
      :: itemParts (after.map kind.document)) .closed).read n outer.layout
        = (p.read m kind.layout).map fill
    rw [hlayout, Part.read_items, hm]
    show (Part.readItems m kind.layout (itemParts (before.map kind.document) ++ p
      :: itemParts (after.map kind.document)) >>= build) = _
    rw [haround p]
    cases p.read m kind.layout with
    | error fault => rfl
    | ok w => exact (hbuild w _).2 rfl

theorem item {kind : Kind} (before after : List kind.Carrier) :
    Slot kind.storage (Kind.many kind).storage (fun v => before ++ v :: after)
      (.item (before.map kind.document) .here (after.map kind.document)) :=
  itemOf rfl (by simp) fun _ => rfl

/-- An item of a list that must have one. -/
theorem nonemptyItem {kind : Kind} {build : List kind.Carrier → Except EmptyList α}
    {items : α → List kind.Carrier} {outer : Storage α} {fill : kind.Carrier → α}
    {before after : List kind.Carrier} (hlayout : outer.layout = .nonempty kind build)
    (hbuild : ∀ {values a}, build values = .ok a ↔ values = items a)
    (hdocument : ∀ a, outer.document a = .list ((items a).map kind.document))
    (hfill : ∀ v, items (fill v) = before ++ v :: after) :
    Slot kind.storage outer fill
      (.item (before.map kind.document) .here (after.map kind.document)) := by
  refine itemOf hlayout (fun v values => ?_) fun v => ?_
  · rw [← hfill v, ← hbuild]
    cases build values <;> simp
  · rw [hdocument, hfill]

theorem segment (before after : List Ident) :
    Slot Kind.ident.storage Kind.qualifiedName.storage
      (fun i => QualifiedName.around before i after)
      (.item (before.map Ident.document) .here (after.map Ident.document)) := by
  have hbuild {is : List Ident} {n : QualifiedName} :
      QualifiedName.ofParts is = .ok n ↔ is = n.parts := by
    constructor
    · intro h
      exact (QualifiedName.parts_of_ofParts h).symm
    · rintro rfl
      exact n.ofParts_parts
  exact nonemptyItem rfl hbuild (fun n => QualifiedName.document_eq n.ofParts_parts)
    fun i => QualifiedName.parts_around before i after

theorem projected (before after : List SelectItem) :
    Slot Kind.selectItem.storage Kind.projection.storage
      (fun i => Projection.around before i after)
      (.item (before.map SelectItem.document) .here (after.map SelectItem.document)) := by
  have hitems (p : Projection) : Projection.ofItems p.items = .ok p := by
    obtain ⟨first, rest⟩ := p
    rfl
  have hbuild {is : List SelectItem} {p : Projection} :
      Projection.ofItems is = .ok p ↔ is = p.items := by
    constructor
    · intro h
      exact (Projection.items_of_ofItems h).symm
    · rintro rfl
      exact hitems p
  exact nonemptyItem rfl hbuild (fun p => Projection.document_eq (hitems p))
    fun i => Projection.items_around before i after

/-- A value that is there, where it might be absent. -/
theorem some {kind : Kind} (hnull : ∀ v, (kind.document v).part.isNull = false) :
    Slot kind.storage (Kind.maybe kind).storage some .here where
  document_fill _ := rfl
  read_fill {n v} hread := by
    have hv : (kind.document v).part.read n kind.layout.orNull = .ok (.some v) := hread
    rw [Part.read_orNull _ _ (hnull v)] at hv
    obtain ⟨w, hw, heq⟩ := map_eq_ok.1 hv
    obtain rfl := Option.some.inj heq
    exact ⟨n, hw, fun p hp => Part.read_orNull _ _ hp⟩

end Slot

/-! ## Members of records -/

/-- A row with a hole for the value of one field. -/
inductive Row.Hole (f : Field) : List Field → Type where
  | here {fs : List Field} (after : Row fs) : Hole f (f :: fs)
  | there {g : Field} {fs : List Field} (value : g.kind.Carrier) (rest : Hole f fs) :
    Hole f (g :: fs)

namespace Row.Hole

variable {f : Field}

/-- The row with a value in the hole. -/
def fill {fs : List Field} : Hole f fs → f.kind.Carrier → Row fs
  | .here after, v => (v, after)
  | .there value rest, v => (value, rest.fill v)

/-- The members before the hole. -/
def before {fs : List Field} : Hole f fs → List (String × Document)
  | .here _ => []
  | @there _ g _ value rest => (g.name, g.kind.document value) :: rest.before

/-- The members behind the hole. -/
def after {fs : List Field} : Hole f fs → List (String × Document)
  | @here _ fs after => Row.members fs after
  | .there _ rest => rest.after

/-- The parts of the row, another one in the place of the hole. -/
def parts {fs : List Field} : Hole f fs → Part → List Part
  | @here _ fs after, p => p :: Row.parts fs after
  | @there _ g _ value rest, p => (g.kind.document value).part :: rest.parts p

theorem mem {fs : List Field} (i : Hole f fs) : f ∈ fs := by
  induction i with
  | here => exact List.mem_cons_self
  | there value rest ih => exact List.mem_cons_of_mem _ ih

theorem members_fill {fs : List Field} (i : Hole f fs) (v : f.kind.Carrier) :
    Row.members fs (i.fill v) = i.before ++ (f.name, f.kind.document v) :: i.after := by
  induction i with
  | here => rfl
  | there value rest ih =>
    rw [fill, Row.members, ih]
    rfl

theorem parts_fill {fs : List Field} (i : Hole f fs) (v : f.kind.Carrier) :
    Row.parts fs (i.fill v) = i.parts (f.kind.document v).part := by
  induction i with
  | here => rfl
  | there value rest ih =>
    rw [fill, Row.parts, ih]
    rfl

theorem length_parts {fs : List Field} (i : Hole f fs) (p : Part) :
    (i.parts p).length = fs.length := by
  induction i with
  | here after => exact congrArg (· + 1) (Row.length_parts _ after)
  | there value rest ih => exact congrArg (· + 1) ih

theorem fieldMembers_parts {fs : List Field} (i : Hole f fs) (p : Part) :
    Part.fieldMembers fs (i.parts p)
      = memberParts i.before ++ (Option.some (.ofText f.name), p) :: memberParts i.after := by
  induction i with
  | here after =>
    rw [before, Hole.after, Row.memberParts_members]
    rfl
  | there value rest ih =>
    rw [before, Hole.after, memberParts, List.cons_append, ← ih]
    rfl

theorem readFields_parts {m : Nat} {v : f.kind.Carrier} :
    ∀ {fs : List Field} (i : Hole f fs),
      Part.readFields m fs (i.parts (f.kind.document v).part) = .ok (i.fill v) →
      (f.kind.document v).part.read m f.kind.layout = .ok v
      ∧ ∀ p : Part, Part.readFields m fs (i.parts p) = (p.read m f.kind.layout).map i.fill
  | _, .here after, hread => by
    rw [parts, Part.readFields] at hread
    obtain ⟨w, hw, hread⟩ := bind_eq_ok.1 hread
    obtain ⟨row, hrow, hread⟩ := bind_eq_ok.1 hread
    obtain ⟨rfl, rfl⟩ := Prod.mk.inj (Except.ok.inj hread)
    refine ⟨hw, fun p => ?_⟩
    rw [parts, Part.readFields, hrow]
    cases p.read m f.kind.layout <;> rfl
  | _, .there value rest, hread => by
    rw [parts, Part.readFields] at hread
    obtain ⟨w, hw, hread⟩ := bind_eq_ok.1 hread
    obtain ⟨row, hrow, hread⟩ := bind_eq_ok.1 hread
    obtain ⟨rfl, rfl⟩ := Prod.mk.inj (Except.ok.inj hread)
    obtain ⟨hv, hrest⟩ := readFields_parts rest hrow
    refine ⟨hv, fun p => ?_⟩
    rw [parts, Part.readFields, hw, hrest p]
    cases p.read m f.kind.layout <;> rfl

end Row.Hole

namespace Slot

/-- A member of a record. -/
theorem member (r : Record α) (hnames : (r.fields.map Field.name).Nodup) {f : Field}
    (i : Row.Hole f r.fields) :
    Slot f.kind.storage r.storage i.fill (.member i.before f.name .here i.after) where
  document_fill v := by
    show Document.object (Row.members r.fields (i.fill v)) = _
    rw [i.members_fill]
    rfl
  read_fill {n v} hread := by
    have hrecord (p : Part) : (Part.object (Part.fieldMembers r.fields (i.parts p)) .closed).read n
        (.record r.rows) = descend n >>= fun m =>
          (Part.readFields m r.fields (i.parts p)).map r.rows.build :=
      Part.read_record r.rows hnames n (i.parts p) (i.length_parts p)
    have hwhole : (Part.object (Part.fieldMembers r.fields (i.parts (f.kind.document v).part))
        .closed).read n (.record r.rows) = .ok (i.fill v) := by
      rw [← i.parts_fill, ← Row.memberParts_members, ← part]
      exact hread
    rw [hrecord] at hwhole
    obtain ⟨m, hm, hfields⟩ := bind_eq_ok.1 hwhole
    obtain ⟨row, hrow, hid⟩ := map_eq_ok.1 hfields
    obtain rfl : row = i.fill v := hid
    obtain ⟨hv, haround⟩ := i.readFields_parts hrow
    refine ⟨m, hv, fun p _ => ?_⟩
    show (Part.object (memberParts i.before ++ (Option.some (.ofText f.name), p)
      :: memberParts i.after) .closed).read n (.record r.rows) = _
    rw [← i.fieldMembers_parts, hrecord, hm]
    show (Part.readFields m r.fields (i.parts p)).map id = _
    rw [haround p, ← map_comp]
    rfl

/-- The object of a record that is stored on its own. -/
theorem object {r : Record α} {outer : Storage α} (hlayout : outer.layout = .record r)
    (hdescribes : r.Describes outer.document) (hfaithful : r.Faithful) :
    Slot r.storage outer r.build .here where
  document_fill := hdescribes
  read_fill {n row} hread := by
    have hmap (p : Part) :
        p.read n outer.layout = (p.read n (.record r.rows)).map r.build := by
      rw [hlayout]
      exact Part.read_record_map r.build r.rows n p
    rw [hdescribes, hmap] at hread
    obtain ⟨row', hrow', heq⟩ := map_eq_ok.1 hread
    rw [hfaithful.2 heq] at hrow'
    exact ⟨n, hrow', fun p _ => hmap p⟩

/-- The content of a variant. -/
theorem content {vs : List (Variant α)} {name : String} {c : Content α} {inner : Storage β}
    {outer : Storage α} {build : β → α} (hlayout : outer.layout = .choice vs)
    (hname : Variant.find vs name = .ok ⟨name, c⟩)
    (hdocument : ∀ v, outer.document (build v) = .tagged name (inner.document v))
    (hmap : ∀ n (p : Part), p.read n c.layout = (p.read n inner.layout).map build)
    (hbuild : Function.Injective build) :
    Slot inner outer build (.member [] name .here []) where
  document_fill := hdocument
  read_fill {n v} hread := by
    have htagged (p : Part) : (Part.object [(Option.some (.ofText name), p)] .closed).read n
        outer.layout = descend n >>= fun m => (p.read m inner.layout).map build := by
      rw [hlayout, Part.read_tagged hname]
      simp only [hmap]
    rw [hdocument, part_tagged, htagged] at hread
    obtain ⟨m, hm, hread⟩ := bind_eq_ok.1 hread
    obtain ⟨w, hw, heq⟩ := map_eq_ok.1 hread
    obtain rfl := hbuild heq
    refine ⟨m, hw, fun p _ => ?_⟩
    show (Part.object [(Option.some (.ofText name), p)] .closed).read n outer.layout = _
    rw [htagged, hm]
    rfl

end Slot

/-! ## The tables of all kinds -/

/-- Kinds with an absent value are read from the word `null`, which no other table provides for. -/
theorem Kind.layout_maybe_ne (kind : Kind) {l : Layout (Kind.maybe kind).Carrier}
    (hl : ∀ a, l.token (.word .null) ≠ .ok a) : (Kind.maybe kind).layout ≠ l := by
  rintro rfl
  exact hl none rfl

theorem Kind.record_of_layout {kind : Kind} {r : Record kind.Carrier}
    (h : kind.layout = .record r) : r.Describes kind.document ∧ r.Faithful := by
  have hobject := congrArg Layout.object h
  cases kind with
  | maybe kind => exact absurd h (Kind.layout_maybe_ne kind fun a => nofun)
  | call => cases hobject; exact ⟨Call.describes, Call.faithful⟩
  | binary => cases hobject; exact ⟨Binary.describes, Binary.faithful⟩
  | join => cases hobject; exact ⟨Join.describes, Join.faithful⟩
  | fromClause => cases hobject; exact ⟨FromClause.describes, FromClause.faithful⟩
  | select => cases hobject; exact ⟨Select.describes, Select.faithful⟩
  | orderItem => cases hobject; exact ⟨OrderItem.describes, OrderItem.faithful⟩
  | cte => cases hobject; exact ⟨Cte.describes, Cte.faithful⟩
  | query => cases hobject; exact ⟨Query.describes, Query.faithful⟩
  | _ => cases hobject

theorem Kind.variants_of_layout {kind : Kind} {vs : List (Variant kind.Carrier)}
    (h : kind.layout = .choice vs) :
    ∀ v ∈ vs, v.Describes kind.document ∧ v.content.Faithful := by
  have hobject := congrArg Layout.object h
  intro v hv
  cases kind with
  | maybe kind => exact absurd h (Kind.layout_maybe_ne kind fun a => nofun)
  | constant => cases hobject; exact ⟨Constant.describes v hv, Constant.faithful v hv⟩
  | operator => cases hobject; exact ⟨Operator.describes v hv, Operator.faithful v hv⟩
  | setOperator => cases hobject; exact ⟨SetOperator.describes v hv, SetOperator.faithful v hv⟩
  | direction => cases hobject; exact ⟨Direction.describes v hv, Direction.faithful v hv⟩
  | expr => cases hobject; exact ⟨Expr.describes v hv, Expr.faithful v hv⟩
  | relation => cases hobject; exact ⟨Relation.describes v hv, Relation.faithful v hv⟩
  | joinCondition =>
    cases hobject; exact ⟨JoinCondition.describes v hv, JoinCondition.faithful v hv⟩
  | joinKind => cases hobject; exact ⟨JoinKind.describes v hv, JoinKind.faithful v hv⟩
  | selectItem => cases hobject; exact ⟨SelectItem.describes v hv, SelectItem.faithful v hv⟩
  | body => cases hobject; exact ⟨Body.describes v hv, Body.faithful v hv⟩
  | _ => cases hobject

/-- The records that are stored for a kind: its own, or one that is the content of a variant. -/
inductive Kind.Records (kind : Kind) (r : Record kind.Carrier) : Prop where
  | own (h : kind.layout = .record r)
  | variant (vs : List (Variant kind.Carrier)) (name : String) (h : kind.layout = .choice vs)
    (hname : Variant.find vs name = .ok ⟨name, .record r⟩)

namespace Kind.Records

variable {kind : Kind} {r : Record kind.Carrier}

theorem faithful (hr : kind.Records r) : r.Faithful := by
  cases hr with
  | own h => exact (Kind.record_of_layout h).2
  | variant vs name h hname => exact (Kind.variants_of_layout h _ (Variant.mem_of_find hname)).2

/-- The object of a record has its place in the document of the value. -/
theorem exists_slot (hr : kind.Records r) : ∃ h, Slot r.storage kind.storage r.build h := by
  cases hr with
  | own h =>
    obtain ⟨hdescribes, hfaithful⟩ := Kind.record_of_layout h
    exact ⟨.here, .object h hdescribes hfaithful⟩
  | variant vs name h hname =>
    obtain ⟨hdescribes, hfaithful⟩ := Kind.variants_of_layout h _ (Variant.mem_of_find hname)
    exact ⟨.member [] name .here [], .content h hname hdescribes
      (fun n p => Part.read_record_map r.build r.rows n p) hfaithful.2⟩

end Kind.Records

/-! ## Frames -/

/-- The inner value of `fill` has a place in the document. -/
def Kind.HasSlot (inner outer : Kind) (fill : inner.Carrier → outer.Carrier) : Prop :=
  ∃ h, Slot inner.storage outer.storage fill h

namespace Kind.HasSlot

variable {inner middle outer : Kind}

theorem comp {f : middle.Carrier → outer.Carrier} {g : inner.Carrier → middle.Carrier}
    (hf : Kind.HasSlot middle outer f) (hg : Kind.HasSlot inner middle g) :
    Kind.HasSlot inner outer (f ∘ g) := by
  obtain ⟨h, hf⟩ := hf
  obtain ⟨k, hg⟩ := hg
  exact ⟨h.comp k, hf.comp hg⟩

theorem field {r : Record outer.Carrier} (hr : outer.Records r) {f : Field}
    (i : Row.Hole f r.fields) : Kind.HasSlot f.kind outer (r.build ∘ i.fill) := by
  obtain ⟨h, hslot⟩ := hr.exists_slot
  exact ⟨_, hslot.comp (.member r hr.faithful.1 i)⟩

theorem value (outer : Kind) (vs : List (Variant outer.Carrier)) (name : String)
    {build : inner.Carrier → outer.Carrier} (h : outer.layout = .choice vs)
    (hname : Variant.find vs name = .ok ⟨name, .value inner build⟩) :
    Kind.HasSlot inner outer build := by
  obtain ⟨hdescribes, hfaithful⟩ := Kind.variants_of_layout h _ (Variant.mem_of_find hname)
  exact ⟨.member [] name .here [], .content h hname hdescribes
    (fun n p => Part.read_map p build inner.layout n) hfaithful⟩

theorem item (inner : Kind) (before after : List inner.Carrier) :
    Kind.HasSlot inner (.many inner) (fun v => before ++ v :: after) := ⟨_, Slot.item before after⟩

/-- An item of a list that is a member of a record. -/
theorem fieldItem {r : Record outer.Carrier} (hr : outer.Records r) {name : String}
    (i : Row.Hole ⟨name, .many inner⟩ r.fields) (before after : List inner.Carrier) :
    Kind.HasSlot inner outer fun v => r.build (i.fill (before ++ v :: after)) :=
  (field hr i).comp (item inner before after)

/-- A member of a record that might be absent. -/
theorem fieldSome {r : Record outer.Carrier} (hr : outer.Records r) {name : String}
    (i : Row.Hole ⟨name, .maybe inner⟩ r.fields)
    (hnull : ∀ v, (inner.document v).part.isNull = false) :
    Kind.HasSlot inner outer fun v => r.build (i.fill (some v)) :=
  (field hr i).comp ⟨.here, .some hnull⟩

end Kind.HasSlot

theorem JoinSide.hasSlot (side : JoinSide) :
    Kind.HasSlot .joinCondition .joinKind side.kind := by
  cases side with
  | inner => exact .value .joinKind JoinKind.variants "Inner" rfl rfl
  | left => exact .value .joinKind JoinKind.variants "LeftOuter" rfl rfl
  | right => exact .value .joinKind JoinKind.variants "RightOuter" rfl rfl
  | full => exact .value .joinKind JoinKind.variants "FullOuter" rfl rfl

theorem JoinCondition.hasSlot_column (before after : List Ident) :
    Kind.HasSlot .ident .joinCondition fun i => columns (before ++ i :: after) :=
  (Kind.HasSlot.value .joinCondition JoinCondition.variants "Using" rfl rfl).comp
    (.item .ident before after)

/-- **Every frame is a slot.** -/
theorem Frame.hasSlot {hole root : Kind} (frame : Frame hole root) :
    Kind.HasSlot hole root frame.fill := by
  have hinSubquery : Kind.Records .expr _ := .variant Expr.variants "InSubquery" rfl rfl
  have hexists : Kind.Records .expr _ := .variant Expr.variants "Exists" rfl rfl
  have htable : Kind.Records .relation _ := .variant Relation.variants "Table" rfl rfl
  have hderived : Kind.Records .relation _ := .variant Relation.variants "Derived" rfl rfl
  have haliased : Kind.Records .selectItem _ := .variant SelectItem.variants "ExprWithAlias" rfl rfl
  have hoperation : Kind.Records .body _ := .variant Body.variants "SetOperation" rfl rfl
  have hcall : Kind.Records .call Call.record := .own rfl
  have hbinary : Kind.Records .binary Binary.record := .own rfl
  have hjoin : Kind.Records .join Join.record := .own rfl
  have hfrom : Kind.Records .fromClause FromClause.record := .own rfl
  have hselect : Kind.Records .select Select.record := .own rfl
  have horder : Kind.Records .orderItem OrderItem.record := .own rfl
  have hcte : Kind.Records .cte Cte.record := .own rfl
  have hquery : Kind.Records .query Query.record := .own rfl
  have hsource (f : FromClause) : f.document.part.isNull = false := by
    cases f
    rfl
  cases frame with
  | segment before after => exact ⟨_, Slot.segment before after⟩
  | identifier => exact .value .expr Expr.variants "Identifier" rfl rfl
  | compound before after =>
    exact (Kind.HasSlot.value .expr Expr.variants "CompoundIdentifier" rfl rfl).comp
      (.item .ident before after)
  | constant => exact .value .expr Expr.variants "Value" rfl rfl
  | call => exact .value .expr Expr.variants "Function" rfl rfl
  | binary => exact .value .expr Expr.variants "BinaryOp" rfl rfl
  | nested => exact .value .expr Expr.variants "Nested" rfl rfl
  | operand subquery negated => exact .field hinSubquery (.here (subquery, negated, ()))
  | inSubquery operand negated => exact .field hinSubquery (.there operand (.here (negated, ())))
  | existence negated => exact .field hexists (.here (negated, ()))
  | callName args => exact .field hcall (.here (args, ()))
  | callArg name before after => exact .fieldItem hcall (.there name (.here ())) before after
  | left operator right => exact .field hbinary (.here (operator, right, ()))
  | right left operator => exact .field hbinary (.there left (.there operator (.here ())))
  | tableName aliasName args hints => exact .field htable (.here (aliasName, args, hints, ()))
  | tableAlias name args hints =>
    exact .fieldSome htable (.there name (.here (args, hints, ()))) fun _ => rfl
  | tableArg name aliasName before after hints =>
    exact .fieldItem htable (.there name (.there aliasName (.here (hints, ())))) before after
  | tableHint name aliasName args before after =>
    exact .fieldItem htable (.there name (.there aliasName (.there args (.here ())))) before after
  | derived aliasName => exact .field hderived (.here (aliasName, ()))
  | derivedAlias subquery =>
    exact .fieldSome hderived (.there subquery (.here ())) fun _ => rfl
  | predicate => exact .value .joinCondition JoinCondition.variants "On" rfl rfl
  | column before after => exact JoinCondition.hasSlot_column before after
  | joined kind => exact .field hjoin (.here (kind, ()))
  | joinPredicate relation side =>
    have hpredicate : Kind.HasSlot .expr .joinCondition JoinCondition.predicate :=
      .value .joinCondition JoinCondition.variants "On" rfl rfl
    exact (Kind.HasSlot.field hjoin (.there relation (.here ()))).comp
      (side.hasSlot.comp hpredicate)
  | joinColumn relation side before after =>
    exact (Kind.HasSlot.field hjoin (.there relation (.here ()))).comp
      (side.hasSlot.comp (JoinCondition.hasSlot_column before after))
  | fromRelation joins => exact .field hfrom (.here (joins, ()))
  | fromJoin relation before after =>
    exact .fieldItem hfrom (.there relation (.here ())) before after
  | item => exact .value .selectItem SelectItem.variants "UnnamedExpr" rfl rfl
  | aliased aliasName => exact .field haliased (.here (aliasName, ()))
  | itemAlias e => exact .field haliased (.there e (.here ()))
  | qualifiedWildcard => exact .value .selectItem SelectItem.variants "QualifiedWildcard" rfl rfl
  | projection s before after =>
    exact (Kind.HasSlot.field hselect (.there s.distinct
      (.here (s.source, s.condition, s.groupBy, s.having, ())))).comp
        ⟨_, Slot.projected before after⟩
  | source s =>
    exact .fieldSome hselect (.there s.distinct (.there s.projection
      (.here (s.condition, s.groupBy, s.having, ())))) hsource
  | condition s =>
    exact .fieldSome hselect (.there s.distinct (.there s.projection (.there s.source
      (.here (s.groupBy, s.having, ()))))) Expr.isNull_document
  | groupBy s before after =>
    exact .fieldItem hselect (.there s.distinct (.there s.projection (.there s.source
      (.there s.condition (.here (s.having, ())))))) before after
  | having s =>
    exact .fieldSome hselect (.there s.distinct (.there s.projection (.there s.source
      (.there s.condition (.there s.groupBy (.here ())))))) Expr.isNull_document
  | selectBody => exact .value .body Body.variants "Select" rfl rfl
  | queryBody => exact .value .body Body.variants "Query" rfl rfl
  | leftBody operator all right =>
    exact .field hoperation (.there operator (.there all (.here (right, ()))))
  | rightBody operator all left =>
    exact .field hoperation (.there operator (.there all (.there left (.here ()))))
  | ordered direction => exact .field horder (.here (direction, ()))
  | cteName query => exact .field hcte (.here (query, ()))
  | cteQuery name => exact .field hcte (.there name (.here ()))
  | cte q before after =>
    exact .fieldItem hquery (.here (q.body, q.orderBy, q.limit, q.offset, ())) before after
  | body q => exact .field hquery (.there q.ctes (.here (q.orderBy, q.limit, q.offset, ())))
  | orderBy q before after =>
    exact .fieldItem hquery (.there q.ctes (.there q.body (.here (q.limit, q.offset, ()))))
      before after
  | limit q =>
    exact .fieldSome hquery (.there q.ctes (.there q.body (.there q.orderBy
      (.here (q.offset, ()))))) Expr.isNull_document
  | offset q =>
    exact .fieldSome hquery (.there q.ctes (.there q.body (.there q.orderBy (.there q.limit
      (.here ()))))) Expr.isNull_document

/-- So is every context. -/
theorem Context.hasSlot {hole root : Kind} (K : Context hole root) :
    Kind.HasSlot hole root K.fill := by
  induction K with
  | here => exact ⟨.here, .self _⟩
  | within frame inner ih => exact frame.hasSlot.comp ih

end SqlTree
