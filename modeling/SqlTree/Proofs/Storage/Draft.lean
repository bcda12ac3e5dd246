import SqlTree.Proofs.Storage.RoundTrip
import SqlTree.Proofs.Tree.Draft

/-!
# Drafts are read unless a list in them is empty

What becomes of the document of a draft when it is read is settled by its obstacles: without any it
is read as the tree that the draft is, and if the first one is an empty list, that list is the fault
(`Draft.settles`). Obstacles come in the order of the text because every way of storing keeps that
order: a list reads its items and a record its fields one after the other (`Settled.pair`).
-/

namespace SqlTree

open Json Document

/-! ## Readers and obstacles -/

/-- How reading ends when at least `depth` brackets may be opened: with a good value if there are no
obstacles, with a fault if the first of them is an empty list. Of a double nothing is said. -/
def Settled {α : Type} (read : Nat → Except Fault α) (depth : Nat) (good : α → Prop) :
    List Obstacle → Prop
  | [] => ∀ n, depth ≤ n → ∃ a, read n = .ok a ∧ good a
  | .empty what :: _ => ∀ n, depth ≤ n → read n = .error (.empty what)
  | .double _ :: _ => True

namespace Settled

variable {α β : Type} {read : Nat → Except Fault α} {depth : Nat} {good : α → Prop}
  {os : List Obstacle}

/-- What is read afterwards does not matter behind an obstacle, and else cannot fail. -/
theorem bind {f : Nat → α → Except Fault β} {good' : β → Prop}
    (h : Settled read depth good os)
    (hf : ∀ n, depth ≤ n → ∀ a, good a → ∃ b, f n a = .ok b ∧ good' b) :
    Settled (fun n => read n >>= f n) depth good' os := by
  match os, h with
  | [], h =>
    intro n hn
    obtain ⟨a, ha, hgood⟩ := h n hn
    obtain ⟨b, hb, hgood'⟩ := hf n hn a hgood
    exact ⟨b, bind_eq_ok.2 ⟨a, ha, hb⟩, hgood'⟩
  | .empty what :: _, h =>
    intro n hn
    show (read n >>= f n) = _
    rw [h n hn]
    rfl
  | .double _ :: _, _ => trivial

theorem map {f : α → β} {good' : β → Prop} (h : Settled read depth good os)
    (hf : ∀ a, good a → good' (f a)) : Settled (fun n => (read n).map f) depth good' os := by
  have hmap : (fun n => (read n).map f) = fun n => read n >>= fun a => .ok (f a) := by
    funext n
    cases read n <;> rfl
  rw [hmap]
  exact h.bind fun _ _ a ha => ⟨f a, rfl, hf a ha⟩

theorem mono {good' : α → Prop} (h : Settled read depth good os)
    (hgood : ∀ a, good a → good' a) : Settled read depth good' os := by
  match os, h with
  | [], h =>
    intro n hn
    obtain ⟨a, ha, hgood'⟩ := h n hn
    exact ⟨a, ha, hgood a hgood'⟩
  | .empty _ :: _, h => exact h
  | .double _ :: _, _ => trivial

/-- Two readers, one after the other. -/
theorem pair {read' : Nat → Except Fault β} {depth' : Nat} {good' : β → Prop}
    {os' : List Obstacle} (h : Settled read depth good os) (h' : Settled read' depth' good' os') :
    Settled (fun n => read n >>= fun a => read' n >>= fun b => .ok (a, b)) (max depth depth')
      (fun p => good p.1 ∧ good' p.2) (os ++ os') := by
  match os, h with
  | [], h =>
    match os', h' with
    | [], h' =>
      intro n hn
      obtain ⟨hdepth, hdepth'⟩ := Nat.max_le.1 hn
      obtain ⟨a, ha, hgood⟩ := h n hdepth
      obtain ⟨b, hb, hgood'⟩ := h' n hdepth'
      exact ⟨(a, b), bind_eq_ok.2 ⟨a, ha, bind_eq_ok.2 ⟨b, hb, rfl⟩⟩, hgood, hgood'⟩
    | .empty what :: _, h' =>
      intro n hn
      obtain ⟨hdepth, hdepth'⟩ := Nat.max_le.1 hn
      obtain ⟨a, ha, -⟩ := h n hdepth
      show (read n >>= fun a => read' n >>= fun b => _) = _
      rw [ha, h' n hdepth']
      rfl
    | .double _ :: _, _ => trivial
  | .empty what :: _, h =>
    intro n hn
    show (read n >>= fun a => read' n >>= fun b => _) = _
    rw [h n (Nat.max_le.1 hn).1]
    rfl
  | .double _ :: _, _ => trivial

/-- A reader behind a bracket. -/
theorem descend_iff :
    Settled (fun n => descend n >>= read) (depth + 1) good os ↔ Settled read depth good os := by
  -- with one bracket more to spare the reader gets as far as without the bracket
  have hread (p : Except Fault α → Prop) :
      (∀ n, depth + 1 ≤ n → p (descend n >>= read)) ↔ ∀ n, depth ≤ n → p (read n) := by
    constructor
    · intro h n hn
      exact h (n + 1) (Nat.succ_le_succ hn)
    · intro h n hn
      obtain ⟨m, rfl⟩ : ∃ m, n = m + 1 := ⟨n - 1, by omega⟩
      exact h m (Nat.le_of_succ_le_succ hn)
  match os with
  | [] => exact hread fun x => ∃ a, x = .ok a ∧ good a
  | .empty what :: _ => exact hread fun x => x = .error (.empty what)
  | .double _ :: _ => exact Iff.rfl

end Settled

/-! ## Documents and obstacles -/

/-- Reading a document by a layout is settled by these obstacles. -/
def Json.Document.Settles {α : Type} (d : Document) (l : Layout α) (good : α → Prop)
    (os : List Obstacle) : Prop :=
  Settled (fun n => d.part.read n l) d.depth good os

namespace Json.Document

variable {α : Type} {d : Document} {l : Layout α} {good : α → Prop} {os : List Obstacle}

/-- A value that its document stores has no obstacles if its doubles survive. -/
theorem settles_of_keeps {kind : Kind} {value : kind.Carrier} {good : kind.Carrier → Prop}
    (h : kind.Keeps value) (hsurvive : Survive (kind.leaves value)) (hgood : good value) :
    (kind.document value).Settles kind.layout good [] :=
  fun _ hn => ⟨value, (h.eq_ok_iff hn).2 hsurvive, hgood⟩

/-! ### Lists -/

theorem settles_items_iff {kind : Kind} {ds : List Document} {good : List kind.Carrier → Prop} :
    (list ds).Settles (.items kind .ok) good os
      ↔ Settled (fun n => Part.readItems n kind.layout (itemParts ds)) (itemsDepth ds) good os := by
  have hread (n : Nat) : (Part.readItems n kind.layout (itemParts ds) >>= fun values => .ok values)
      = Part.readItems n kind.layout (itemParts ds) := by
    cases Part.readItems n kind.layout (itemParts ds) <;> rfl
  rw [Settles, part, depth]
  simp only [Part.read_items, hread]
  exact Settled.descend_iff

/-- A list that must have an element, and has one. -/
theorem settles_nonempty {kind : Kind} {build : List kind.Carrier → Except EmptyList α}
    {ds : List Document} {good' : List kind.Carrier → Prop}
    (h : (list ds).Settles (.items kind .ok) good' os)
    (hbuild : ∀ values, good' values → ∃ a, build values = .ok a ∧ good a) :
    (list ds).Settles (.nonempty kind build) good os := by
  rw [Settles, part, depth, Layout.nonempty]
  simp only [Part.read_items]
  refine Settled.descend_iff.2 ((settles_items_iff.1 h).bind fun _ _ values hvalues => ?_)
  obtain ⟨a, ha, hgood⟩ := hbuild values hvalues
  exact ⟨a, by rw [ha], hgood⟩

/-- A list that must have an element, and has none. -/
theorem settles_empty {kind : Kind} {build : List kind.Carrier → Except EmptyList α}
    {what : EmptyList} (hbuild : build [] = .error what) :
    (list []).Settles (.nonempty kind build) good [.empty what] := by
  intro n hn
  obtain ⟨m, rfl⟩ : ∃ m, n = m + 1 := ⟨n - 1, by simp only [depth] at hn; omega⟩
  show (Part.list [] .closed).read (m + 1) (.items kind _) = _
  simp [Part.read_items, descend, Part.readItems, bind, Except.bind, hbuild]

/-! ### Values that may be absent, and variants -/

theorem settles_some (hnull : d.part.isNull = false) {good' : Option α → Prop}
    (h : d.Settles l good os) (hgood : ∀ a, good a → good' (some a)) :
    d.Settles l.orNull good' os := by
  rw [Settles]
  simp only [Part.read_orNull l _ hnull]
  exact Settled.map h hgood

theorem settles_bare {vs : List (Variant α)} {name : String} {a : α}
    (hname : Variant.find vs name = .ok ⟨name, .bare a⟩) (hgood : good a) :
    (text name).Settles (.choice vs) good [] := by
  intro n _
  rw [part]
  exact ⟨a, Part.read_bare hname n, hgood⟩

theorem settles_tagged {vs : List (Variant α)} {name : String} {content : Content α}
    (hname : Variant.find vs name = .ok ⟨name, content⟩) (h : d.Settles content.layout good os) :
    (tagged name d).Settles (.choice vs) good os := by
  rw [Settles, depth_tagged, part_tagged]
  simp only [Part.read_tagged hname]
  exact Settled.descend_iff.2 h

/-- A variant that holds one value. -/
theorem settles_variant (vs : List (Variant α)) (name : String) {kind : Kind}
    {build : kind.Carrier → α} {good' : kind.Carrier → Prop}
    (hname : Variant.find vs name = .ok ⟨name, .value kind build⟩)
    (h : d.Settles kind.layout good' os) (hgood : ∀ value, good' value → good (build value)) :
    (tagged name d).Settles (.choice vs) good os := by
  refine settles_tagged hname ?_
  rw [Settles]
  simp only [Content.layout, Part.read_map]
  exact Settled.map h hgood

end Json.Document

/-! ## Records -/

/-- A draft for each field. -/
abbrev DraftRow : List Field → Type
  | [] => Unit
  | f :: fs => Draft f.kind × DraftRow fs

/-- The values of a row as drafts. -/
def Row.drafts : (fs : List Field) → Row fs → DraftRow fs
  | [], _ => ()
  | f :: fs, (value, row) => (f.kind.draft value, drafts fs row)

namespace DraftRow

/-- The members that store the drafts of a row. -/
def members : (fs : List Field) → DraftRow fs → List (String × Document)
  | [], _ => []
  | f :: fs, (d, row) => (f.name, d.document) :: members fs row

/-- The parts that stand for the drafts of a row. -/
def parts : (fs : List Field) → DraftRow fs → List Part
  | [], _ => []
  | _ :: fs, (d, row) => d.document.part :: parts fs row

/-- The obstacles of the drafts of a row. -/
def obstacles : (fs : List Field) → DraftRow fs → List Obstacle
  | [], _ => []
  | _ :: fs, (d, row) => d.obstacles ++ obstacles fs row

/-- Each draft of a row is settled by its obstacles. -/
def Settles : (fs : List Field) → DraftRow fs → Prop
  | [], _ => True
  | f :: fs, (d, row) =>
    d.document.Settles f.kind.layout (fun value => f.kind.draft value = d) d.obstacles
      ∧ Settles fs row

theorem length_parts : ∀ (fs : List Field) (row : DraftRow fs), (parts fs row).length = fs.length
  | [], _ => rfl
  | _ :: fs, (_, row) => congrArg (· + 1) (length_parts fs row)

theorem memberParts_members : ∀ (fs : List Field) (row : DraftRow fs),
    memberParts (members fs row) = Part.fieldMembers fs (parts fs row)
  | [], _ => rfl
  | f :: fs, (d, row) => by
    rw [members, memberParts, memberParts_members fs row, parts]
    rfl

theorem settled_parts : ∀ {fs : List Field} {row : DraftRow fs}, Settles fs row →
    Settled (fun n => Part.readFields n fs (parts fs row)) (membersDepth (members fs row))
      (fun values => Row.drafts fs values = row) (obstacles fs row)
  | [], _, _ => fun _ _ => ⟨(), rfl, rfl⟩
  | _ :: _, (_, _), ⟨hd, hrow⟩ =>
    (Settled.pair hd (settled_parts hrow)).mono fun _ hvalues => Prod.ext hvalues.1 hvalues.2

end DraftRow

namespace Json.Document

variable {α : Type} {d : Document} {good : α → Prop}

/-- A record of drafts. -/
theorem settles_record (r : Record α) (row : DraftRow r.fields)
    (hd : d = .object (DraftRow.members r.fields row)) (hnames : (r.fields.map Field.name).Nodup)
    (h : DraftRow.Settles r.fields row)
    (hgood : ∀ values, Row.drafts r.fields values = row → good (r.build values)) :
    d.Settles (.record r) good (DraftRow.obstacles r.fields row) := by
  have hread := (DraftRow.settled_parts h).map hgood
  have hlength := DraftRow.length_parts r.fields row
  rw [hd, Settles, part, depth, DraftRow.memberParts_members]
  simp only [Part.read_record r hnames _ _ hlength]
  exact Settled.descend_iff.2 hread

/-- A variant that holds a record of drafts. -/
theorem settles_fields (vs : List (Variant α)) (name : String) {r : Record α}
    (hname : Variant.find vs name = .ok ⟨name, .record r⟩) (row : DraftRow r.fields)
    (hd : d = .object (DraftRow.members r.fields row)) (hnames : (r.fields.map Field.name).Nodup)
    (h : DraftRow.Settles r.fields row)
    (hgood : ∀ values, Row.drafts r.fields values = row → good (r.build values)) :
    (tagged name d).Settles (.choice vs) good (DraftRow.obstacles r.fields row) :=
  settles_tagged hname (settles_record r row hd hnames h hgood)

end Json.Document

/-! ## Drafts -/

/-- Does no value of the kind have two ways of being absent? -/
def Kind.IsRegular : Kind → Prop
  | .maybe (.maybe _) => False
  | .maybe kind | .many kind => kind.IsRegular
  | _ => True

/-- The document of a draft looks like `null` only if the draft may be absent or is a double. -/
theorem Draft.isNull_document {kind : Kind} (d : Draft kind) (hkind : (Kind.maybe kind).IsRegular) :
    d.document.part.isNull = false ∨ ∃ x os, d.obstacles = .double x :: os := by
  cases d with
  | double x => exact .inr ⟨x, [], rfl⟩
  | absent | present => exact absurd hkind id
  | constant c => exact .inl (by cases c <;> rfl)
  | operator o => exact .inl (by cases o <;> rfl)
  | setOperator o => exact .inl (by cases o <;> rfl)
  | direction d => exact .inl (by cases d <;> rfl)
  | _ => exact .inl rfl

theorem Kind.IsRegular.of_maybe {kind : Kind} (h : (Kind.maybe kind).IsRegular) :
    kind.IsRegular := by
  cases kind with
  | maybe kind => exact absurd h id
  | _ => exact h

/-- A list of drafts that must have an element, and has one. -/
theorem Json.Document.settles_cons {α : Type} {kind : Kind} {first : Draft kind}
    {rest : Draft (.many kind)} {build : List kind.Carrier → Except EmptyList α} {good : α → Prop}
    (h : (Draft.cons first rest).document.Settles (.items kind .ok)
      (fun values => Draft.ofList kind.draft values = .cons first rest)
      (Draft.cons first rest).obstacles)
    (hbuild : ∀ value values, Draft.ofList kind.draft (value :: values) = .cons first rest →
      ∃ a, build (value :: values) = .ok a ∧ good a) :
    (Draft.cons first rest).document.Settles (.nonempty kind build) good
      (Draft.cons first rest).obstacles :=
  settles_nonempty h fun values hvalues => by
    cases values with
    | nil => cases hvalues
    | cons value values => exact hbuild value values hvalues

/-- **What becomes of a draft.** Its document is read as the tree that it is if nothing stands in
the way, and is refused for the first obstacle if that is an empty list. -/
theorem Draft.settles : ∀ {kind : Kind} (d : Draft kind), kind.IsRegular →
    d.document.Settles kind.layout (fun value => kind.draft value = d) d.obstacles
  | _, .text s, _ => settles_of_keeps (Kind.keeps_text s) survive_nil rfl
  | _, .flag b, _ => settles_of_keeps (Kind.keeps_flag b) survive_nil rfl
  | _, .long n, _ => settles_of_keeps (Kind.keeps_long n) survive_nil rfl
  | _, .double x, _ => trivial
  | _, @Draft.absent kind, _ => settles_of_keeps (Kind.keeps_none kind) survive_nil rfl
  | _, .present value, hkind => by
    have h := value.settles hkind.of_maybe
    rcases value.isNull_document hkind with hnull | ⟨x, os, hos⟩
    · exact settles_some hnull h fun a ha => congrArg Draft.present ha
    · show Document.Settles _ _ _ value.obstacles
      rw [hos]
      trivial
  | _, .nil, _ => settles_items_iff.2 fun _ _ => ⟨[], by simp [itemParts, Part.readItems], rfl⟩
  | _, @Draft.cons kind first rest, hkind => by
    have hrest := rest.settles hkind
    rw [rest.document_many] at hrest
    have hpair := (first.settles hkind).pair (settles_items_iff.1 hrest)
    refine settles_items_iff.2 ?_
    simp only [itemParts, Part.readItems_cons]
    refine hpair.map ?_
    rintro ⟨value, values⟩ ⟨rfl, rfl⟩
    rfl
  | _, .ident i, _ => settles_of_keeps i.keeps (survive_names [i]) rfl
  | _, .qualifiedName .nil, _ => settles_empty rfl
  | _, .qualifiedName (.cons first rest), _ =>
    settles_cons (settles (.cons first rest) trivial) fun i is h =>
      ⟨⟨i, is⟩, rfl, congrArg Draft.qualifiedName h⟩
  | _, .constant (.double x), _ => trivial
  | _, .constant (.long n), _ =>
    settles_of_keeps (Constant.keeps (.long n)) (survive_constant (by simp)) rfl
  | _, .constant (.text s), _ =>
    settles_of_keeps (Constant.keeps (.text s)) (survive_constant (by simp)) rfl
  | _, .constant (.boolean b), _ =>
    settles_of_keeps (Constant.keeps (.boolean b)) (survive_constant (by simp)) rfl
  | _, .constant .null, _ =>
    settles_of_keeps (Constant.keeps .null) (survive_constant (by simp)) rfl
  | _, .operator o, _ => settles_of_keeps o.keeps survive_nil rfl
  | _, .setOperator o, _ => settles_of_keeps o.keeps survive_nil rfl
  | _, .direction d, _ => settles_of_keeps d.keeps survive_nil rfl
  | _, .identifier i, _ =>
    settles_variant Expr.variants "Identifier" rfl (i.settles trivial) fun _ h =>
      congrArg Draft.identifier h
  | _, .compound parts, _ =>
    settles_variant Expr.variants "CompoundIdentifier" rfl (parts.settles trivial) fun _ h =>
      congrArg Draft.compound h
  | _, .wildcard, _ => settles_bare rfl rfl
  | _, .literal c, _ =>
    settles_variant Expr.variants "Value" rfl (c.settles trivial) fun _ h =>
      congrArg Draft.literal h
  | _, .function c, _ =>
    settles_variant Expr.variants "Function" rfl (c.settles trivial) fun _ h =>
      congrArg Draft.function h
  | _, .operation o, _ =>
    settles_variant Expr.variants "BinaryOp" rfl (o.settles trivial) fun _ h =>
      congrArg Draft.operation h
  | _, .nested e, _ =>
    settles_variant Expr.variants "Nested" rfl (e.settles trivial) fun _ h =>
      congrArg Draft.nested h
  | _, .inSubquery e q negated, _ => by
    refine settles_fields Expr.variants "InSubquery" rfl (e, q, negated, ()) rfl (by decide)
      ⟨e.settles trivial, q.settles trivial, negated.settles trivial, trivial⟩ ?_
    rintro ⟨e, q, b, ⟨⟩⟩ ⟨⟩
    rfl
  | _, .existence q negated, _ => by
    refine settles_fields Expr.variants "Exists" rfl (q, negated, ()) rfl (by decide)
      ⟨q.settles trivial, negated.settles trivial, trivial⟩ ?_
    rintro ⟨q, b, ⟨⟩⟩ ⟨⟩
    rfl
  | _, .raw sql, _ =>
    settles_variant Expr.variants "Literal" rfl (sql.settles trivial) fun _ h =>
      congrArg Draft.raw h
  | _, .call name args, _ => by
    refine settles_record Call.record (name, args, ()) rfl (by decide)
      ⟨name.settles trivial, args.settles trivial, trivial⟩ ?_
    rintro ⟨n, es, ⟨⟩⟩ ⟨⟩
    exact congrArg _ (Expr.drafts_eq es)
  | _, .binary l o r, _ => by
    refine settles_record Binary.record (l, o, r, ()) rfl (by decide)
      ⟨l.settles trivial, o.settles trivial, r.settles trivial, trivial⟩ ?_
    rintro ⟨l, o, r, ⟨⟩⟩ ⟨⟩
    rfl
  | _, .table name aliasName args hints, _ => by
    refine settles_fields Relation.variants "Table" rfl (name, aliasName, args, hints, ()) rfl
      (by decide)
      ⟨name.settles trivial, aliasName.settles trivial, args.settles trivial, hints.settles trivial,
        trivial⟩ ?_
    rintro ⟨n, a, es, hs, ⟨⟩⟩ ⟨⟩
    exact congrArg₂ _ (Expr.drafts_eq es) (Expr.drafts_eq hs)
  | _, .derived q aliasName, _ => by
    refine settles_fields Relation.variants "Derived" rfl (q, aliasName, ()) rfl (by decide)
      ⟨q.settles trivial, aliasName.settles trivial, trivial⟩ ?_
    rintro ⟨q, a, ⟨⟩⟩ ⟨⟩
    rfl
  | _, .predicate e, _ =>
    settles_variant JoinCondition.variants "On" rfl (e.settles trivial) fun _ h =>
      congrArg Draft.predicate h
  | _, .columns names, _ =>
    settles_variant JoinCondition.variants "Using" rfl (names.settles trivial) fun _ h =>
      congrArg Draft.columns h
  | _, .natural, _ | _, .unconditional, _ => settles_bare rfl rfl
  | _, .inner c, _ =>
    settles_variant JoinKind.variants "Inner" rfl (c.settles trivial) fun _ h =>
      congrArg Draft.inner h
  | _, .left c, _ =>
    settles_variant JoinKind.variants "LeftOuter" rfl (c.settles trivial) fun _ h =>
      congrArg Draft.left h
  | _, .right c, _ =>
    settles_variant JoinKind.variants "RightOuter" rfl (c.settles trivial) fun _ h =>
      congrArg Draft.right h
  | _, .full c, _ =>
    settles_variant JoinKind.variants "FullOuter" rfl (c.settles trivial) fun _ h =>
      congrArg Draft.full h
  | _, .cross, _ | _, .comma, _ => settles_bare rfl rfl
  | _, .join relation k, _ => by
    refine settles_record Join.record (relation, k, ()) rfl (by decide)
      ⟨relation.settles trivial, k.settles trivial, trivial⟩ ?_
    rintro ⟨r, k, ⟨⟩⟩ ⟨⟩
    rfl
  | _, .fromClause relation joins, _ => by
    refine settles_record FromClause.record (relation, joins, ()) rfl (by decide)
      ⟨relation.settles trivial, joins.settles trivial, trivial⟩ ?_
    rintro ⟨r, js, ⟨⟩⟩ ⟨⟩
    exact congrArg _ (Join.drafts_eq js)
  | _, .item e, _ =>
    settles_variant SelectItem.variants "UnnamedExpr" rfl (e.settles trivial) fun _ h =>
      congrArg Draft.item h
  | _, .aliased e aliasName, _ => by
    refine settles_fields SelectItem.variants "ExprWithAlias" rfl (e, aliasName, ()) rfl (by decide)
      ⟨e.settles trivial, aliasName.settles trivial, trivial⟩ ?_
    rintro ⟨e, a, ⟨⟩⟩ ⟨⟩
    rfl
  | _, .qualifiedWildcard name, _ =>
    settles_variant SelectItem.variants "QualifiedWildcard" rfl (name.settles trivial) fun _ h =>
      congrArg Draft.qualifiedWildcard h
  | _, .everything, _ => settles_bare rfl rfl
  | _, .projection .nil, _ => settles_empty rfl
  | _, .projection (.cons first rest), _ =>
    settles_cons (settles (.cons first rest) trivial) fun i is h => by
      refine ⟨⟨i, is⟩, rfl, ?_⟩
      rw [Kind.draft, Projection.draft, SelectItem.drafts_eq]
      exact congrArg Draft.projection h
  | _, .select distinct p source condition groupBy having, _ => by
    refine settles_record Select.record (distinct, p, source, condition, groupBy, having, ()) rfl
      (by decide)
      ⟨distinct.settles trivial, p.settles trivial, source.settles trivial,
        condition.settles trivial, groupBy.settles trivial, having.settles trivial, trivial⟩ ?_
    rintro ⟨d, p, f, c, g, h, ⟨⟩⟩ ⟨⟩
    show Select.draft ⟨d, p, f, c, g, h⟩ = _
    rw [Select.draft, FromClause.draft?_eq, Expr.draft?_eq, Expr.drafts_eq, Expr.draft?_eq]
    rfl
  | _, .selectBody s, _ =>
    settles_variant Body.variants "Select" rfl (s.settles trivial) fun _ h =>
      congrArg Draft.selectBody h
  | _, .queryBody q, _ =>
    settles_variant Body.variants "Query" rfl (q.settles trivial) fun _ h =>
      congrArg Draft.queryBody h
  | _, .setOperation o all l r, _ => by
    refine settles_fields Body.variants "SetOperation" rfl (o, all, l, r, ()) rfl (by decide)
      ⟨o.settles trivial, all.settles trivial, l.settles trivial, r.settles trivial, trivial⟩ ?_
    rintro ⟨o, a, l, r, ⟨⟩⟩ ⟨⟩
    rfl
  | _, .orderItem e d, _ => by
    refine settles_record OrderItem.record (e, d, ()) rfl (by decide)
      ⟨e.settles trivial, d.settles trivial, trivial⟩ ?_
    rintro ⟨e, d, ⟨⟩⟩ ⟨⟩
    rfl
  | _, .cte name q, _ => by
    refine settles_record Cte.record (name, q, ()) rfl (by decide)
      ⟨name.settles trivial, q.settles trivial, trivial⟩ ?_
    rintro ⟨n, q, ⟨⟩⟩ ⟨⟩
    rfl
  | _, .query ctes b orderBy limit offset, _ => by
    refine settles_record Query.record (ctes, b, orderBy, limit, offset, ()) rfl (by decide)
      ⟨ctes.settles trivial, b.settles trivial, orderBy.settles trivial, limit.settles trivial,
        offset.settles trivial, trivial⟩ ?_
    rintro ⟨c, b, o, l, f, ⟨⟩⟩ ⟨⟩
    show Query.draft ⟨c, b, o, l, f⟩ = _
    rw [Query.draft, Cte.drafts_eq, OrderItem.drafts_eq, Expr.draft?_eq, Expr.draft?_eq]
    rfl

/-! ## Texts of drafts -/

theorem Obstacle.eq_map_empty : ∀ {os : List Obstacle}, os.filterMap Obstacle.double? = [] →
    os = (os.filterMap Obstacle.empty?).map .empty
  | [], _ => rfl
  | .empty what :: rest, h => by
    have hrest : rest.filterMap Obstacle.double? = [] := h
    exact congrArg (.empty what :: ·) (eq_map_empty hrest)
  | .double x :: rest, h => by simp [Obstacle.double?] at h

theorem Draft.value_ofJson (d : Draft .query) :
    (Query.ofJson d.toJson).value
      = (d.document.part.read maxDepth Kind.query.layout).mapError .undecodable := by
  rw [Query.value_ofJson, Draft.toJson, Kind.read_print]

/-- **Nothing but an empty name or projection keeps a draft from being read.** A draft without
doubles and not nested too deep is read from its text just when no name and no projection in it is
empty, and then as itself, which is stored as that text again; else the fault is the empty list that
comes first in the text. So whatever text is read as a query, all its names and projections have an
element. -/
theorem Draft.read_unless_empty (d : Draft .query) (hdoubles : d.doubles = [])
    (hdepth : bracketDepth d.toJson ≤ 127) :
    ((∃ q, (Query.ofJson d.toJson).value = .ok q) ↔ d.empties = [])
    ∧ (∀ q, (Query.ofJson d.toJson).value = .ok q → q.draft = d ∧ q.toJson = d.toJson)
    ∧ (∀ what rest, d.empties = what :: rest →
      (Query.ofJson d.toJson).value = .error (.undecodable (.empty what))
        ∧ (Fault.empty what).category = .shape
        ∧ (TreeError.undecodable (.empty what)).message
          = "failed to decode query tree: " ++ (TreeError.empty what).message)
    ∧ ∀ text q, (Query.ofJson text).value = .ok q → q.draft.empties = [] := by
  have hobstacles : d.obstacles = d.empties.map .empty := Obstacle.eq_map_empty hdoubles
  have hsettles := d.settles trivial
  have hlimit : d.document.depth ≤ maxDepth := by
    rwa [Draft.toJson, bracketDepth_print] at hdepth
  rw [hobstacles] at hsettles
  have hfull (text : String) (q : Query) (_ : (Query.ofJson text).value = .ok q) :
      q.draft.empties = [] := Draft.empties_eq_nil_iff.2 fun what => q.empty_notMem what
  rw [Draft.value_ofJson]
  cases hempties : d.empties with
  | nil =>
    rw [hempties] at hsettles
    obtain ⟨q, hq, hdraft⟩ := hsettles maxDepth hlimit
    have hread : d.document.part.read maxDepth Kind.query.layout = .ok q := hq
    rw [hread]
    refine ⟨iff_of_true ⟨q, rfl⟩ rfl, ?_, by simp, hfull⟩
    intro q' hq'
    obtain rfl : q = q' := Except.ok.inj hq'
    have hdocument : (Kind.query.draft q).document = Kind.query.document q :=
      Query.document_draft q
    rw [← hdraft, Draft.toJson, hdocument]
    exact ⟨rfl, rfl⟩
  | cons what rest =>
    rw [hempties] at hsettles
    have hread : d.document.part.read maxDepth Kind.query.layout = .error (.empty what) :=
      hsettles maxDepth hlimit
    rw [hread]
    refine ⟨iff_of_false ?_ (List.cons_ne_nil _ _), fun q hq => ?_, ?_, hfull⟩
    · rintro ⟨q, hq⟩
      cases hq
    · cases hq
    · intro what' rest' h
      obtain ⟨rfl, rfl⟩ := List.cons.inj h
      exact ⟨rfl, rfl, rfl⟩

/-- The draft of a query that is nothing but a projection. -/
def Draft.ofProjection (p : Draft .projection) (ctes : Draft (.many .cte)) : Draft .query :=
  .query ctes (.selectBody (.select (.flag false) p .absent .absent .nil .absent)) .nil .absent
    .absent

/-- A name without segments in a projection, behind a named query without a projection. -/
theorem Draft.read_unless_empty_two :
    ∃ d : Draft .query, d.empties = [.projection, .name] ∧ d.doubles = []
      ∧ bracketDepth d.toJson ≤ 127
      ∧ (Query.ofJson d.toJson).value = .error (.undecodable (.empty .projection)) := by
  refine ⟨.ofProjection (.projection (.cons (.qualifiedWildcard (.qualifiedName .nil)) .nil))
    (.cons (.cte (.ident ⟨"c"⟩) (.ofProjection (.projection .nil) .nil)) .nil), rfl, rfl, ?depth,
    ((Draft.read_unless_empty _ rfl ?depth).2.2.1 .projection [.name] rfl).1⟩
  case depth =>
    rw [Draft.toJson, bracketDepth_print]
    decide

end SqlTree
