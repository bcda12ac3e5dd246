import SqlTree.Storage.Write

/-!
# Drafts

A draft is a tree in which the two lists that a tree never has empty may be empty: the segments of a
dotted name and the items of a projection. Drafts have a kind like everything that is stored, and a
document; every tree is a draft (`Kind.draft`), with the same document (`Query.document_draft`).

What may keep a draft from being read as a tree are its `obstacles`, in the order in which they come
in its text: the lists that are empty and must not be, and the doubles, whose texts need not denote
them.
-/

namespace SqlTree

open Json

/-- A tree of a kind that may have empty names and projections. -/
inductive Draft : Kind → Type where
  | text (s : String) : Draft .text
  | flag (b : Bool) : Draft .flag
  | long (n : Int64) : Draft .long
  | double (x : Double) : Draft .double
  | absent {kind : Kind} : Draft (.maybe kind)
  | present {kind : Kind} (value : Draft kind) : Draft (.maybe kind)
  | nil {kind : Kind} : Draft (.many kind)
  | cons {kind : Kind} (first : Draft kind) (rest : Draft (.many kind)) : Draft (.many kind)
  | ident (i : Ident) : Draft .ident
  /-- the segments, perhaps none -/
  | qualifiedName (parts : Draft (.many .ident)) : Draft .qualifiedName
  | constant (c : Constant) : Draft .constant
  | operator (o : Operator) : Draft .operator
  | setOperator (o : SetOperator) : Draft .setOperator
  | direction (d : Direction) : Draft .direction
  | identifier (name : Draft .ident) : Draft .expr
  | compound (parts : Draft (.many .ident)) : Draft .expr
  | wildcard : Draft .expr
  | literal (value : Draft .constant) : Draft .expr
  | function (call : Draft .call) : Draft .expr
  | operation (operation : Draft .binary) : Draft .expr
  | nested (inner : Draft .expr) : Draft .expr
  | inSubquery (operand : Draft .expr) (subquery : Draft .query) (negated : Draft .flag) :
    Draft .expr
  | existence (subquery : Draft .query) (negated : Draft .flag) : Draft .expr
  | raw (sql : Draft .text) : Draft .expr
  | call (name : Draft .qualifiedName) (args : Draft (.many .expr)) : Draft .call
  | binary (left : Draft .expr) (operator : Draft .operator) (right : Draft .expr) : Draft .binary
  | table (name : Draft .qualifiedName) (aliasName : Draft (.maybe .ident))
    (args hints : Draft (.many .expr)) : Draft .relation
  | derived (subquery : Draft .query) (aliasName : Draft (.maybe .ident)) : Draft .relation
  | predicate (e : Draft .expr) : Draft .joinCondition
  | columns (names : Draft (.many .ident)) : Draft .joinCondition
  | natural : Draft .joinCondition
  | unconditional : Draft .joinCondition
  | inner (condition : Draft .joinCondition) : Draft .joinKind
  | left (condition : Draft .joinCondition) : Draft .joinKind
  | right (condition : Draft .joinCondition) : Draft .joinKind
  | full (condition : Draft .joinCondition) : Draft .joinKind
  | cross : Draft .joinKind
  | comma : Draft .joinKind
  | join (relation : Draft .relation) (kind : Draft .joinKind) : Draft .join
  | fromClause (relation : Draft .relation) (joins : Draft (.many .join)) : Draft .fromClause
  | item (e : Draft .expr) : Draft .selectItem
  | aliased (e : Draft .expr) (aliasName : Draft .ident) : Draft .selectItem
  | qualifiedWildcard (qualifier : Draft .qualifiedName) : Draft .selectItem
  | everything : Draft .selectItem
  /-- the items, perhaps none -/
  | projection (items : Draft (.many .selectItem)) : Draft .projection
  | select (distinct : Draft .flag) (projection : Draft .projection)
    (source : Draft (.maybe .fromClause)) (condition : Draft (.maybe .expr))
    (groupBy : Draft (.many .expr)) (having : Draft (.maybe .expr)) : Draft .select
  | selectBody (select : Draft .select) : Draft .body
  | queryBody (query : Draft .query) : Draft .body
  | setOperation (operator : Draft .setOperator) (all : Draft .flag) (left right : Draft .body) :
    Draft .body
  | orderItem (expr : Draft .expr) (direction : Draft (.maybe .direction)) : Draft .orderItem
  | cte (name : Draft .ident) (query : Draft .query) : Draft .cte
  | query (ctes : Draft (.many .cte)) (body : Draft .body) (orderBy : Draft (.many .orderItem))
    (limit offset : Draft (.maybe .expr)) : Draft .query

/-! ## Documents -/

mutual

/-- What a draft is stored as. -/
def Draft.document : {kind : Kind} → Draft kind → Document
  | _, .text s => .text s
  | _, .flag b => .boolean b
  | _, .long n => .integer n.toInt
  | _, .double x => .double x
  | _, .absent => .null
  | _, .present value => value.document
  | _, .nil => .list []
  | _, .cons first rest => .list (first.document :: rest.documents)
  | _, .ident i => i.document
  | _, .qualifiedName parts => .list parts.documents
  | _, .constant c => c.document
  | _, .operator o => o.document
  | _, .setOperator o => o.document
  | _, .direction d => d.document
  | _, .identifier name => .tagged "Identifier" name.document
  | _, .compound parts => .tagged "CompoundIdentifier" parts.document
  | _, .wildcard => .text "Wildcard"
  | _, .literal value => .tagged "Value" value.document
  | _, .function c => .tagged "Function" c.document
  | _, .operation o => .tagged "BinaryOp" o.document
  | _, .nested e => .tagged "Nested" e.document
  | _, .inSubquery e q negated => .tagged "InSubquery" (.object
      [("expr", e.document), ("subquery", q.document), ("negated", negated.document)])
  | _, .existence q negated => .tagged "Exists" (.object
      [("subquery", q.document), ("negated", negated.document)])
  | _, .raw sql => .tagged "Literal" sql.document
  | _, .call name args => .object [("name", name.document), ("args", args.document)]
  | _, .binary l o r => .object
      [("left", l.document), ("op", o.document), ("right", r.document)]
  | _, .table name aliasName args hints => .tagged "Table" (.object
      [("name", name.document), ("alias", aliasName.document), ("args", args.document),
        ("with_hints", hints.document)])
  | _, .derived q aliasName => .tagged "Derived" (.object
      [("subquery", q.document), ("alias", aliasName.document)])
  | _, .predicate e => .tagged "On" e.document
  | _, .columns names => .tagged "Using" names.document
  | _, .natural => .text "Natural"
  | _, .unconditional => .text "None"
  | _, .inner c => .tagged "Inner" c.document
  | _, .left c => .tagged "LeftOuter" c.document
  | _, .right c => .tagged "RightOuter" c.document
  | _, .full c => .tagged "FullOuter" c.document
  | _, .cross => .text "Cross"
  | _, .comma => .text "Implicit"
  | _, .join relation k => .object [("relation", relation.document), ("operator", k.document)]
  | _, .fromClause relation joins => .object
      [("relation", relation.document), ("joins", joins.document)]
  | _, .item e => .tagged "UnnamedExpr" e.document
  | _, .aliased e aliasName => .tagged "ExprWithAlias" (.object
      [("expr", e.document), ("alias", aliasName.document)])
  | _, .qualifiedWildcard name => .tagged "QualifiedWildcard" name.document
  | _, .everything => .text "Wildcard"
  | _, .projection items => .list items.documents
  | _, .select distinct p source condition groupBy having => .object
      [("distinct", distinct.document), ("projection", p.document), ("from", source.document),
        ("selection", condition.document), ("group_by", groupBy.document),
        ("having", having.document)]
  | _, .selectBody s => .tagged "Select" s.document
  | _, .queryBody q => .tagged "Query" q.document
  | _, .setOperation o all l r => .tagged "SetOperation" (.object
      [("op", o.document), ("all", all.document), ("left", l.document), ("right", r.document)])
  | _, .orderItem e d => .object [("expr", e.document), ("direction", d.document)]
  | _, .cte name q => .object [("alias", name.document), ("query", q.document)]
  | _, .query ctes b orderBy limit offset => .object
      [("ctes", ctes.document), ("body", b.document), ("order_by", orderBy.document),
        ("limit", limit.document), ("offset", offset.document)]

/-- The documents of the elements of a list. -/
def Draft.documents : {kind : Kind} → Draft kind → List Document
  | _, .cons first rest => first.document :: rest.documents
  | _, _ => []

end

/-- The text that the draft of a query is stored as. -/
def Draft.toJson (d : Draft .query) : String := String.ofList d.document.print

/-! ## Obstacles -/

/-- What may keep a draft from being read as a tree. -/
inductive Obstacle where
  | empty (what : EmptyList)
  | double (x : Double)
  deriving DecidableEq

/-- All obstacles, in the order of the text. -/
def Draft.obstacles : {kind : Kind} → Draft kind → List Obstacle
  | _, .double x | _, .constant (.double x) => [.double x]
  | _, .qualifiedName .nil => [.empty .name]
  | _, .projection .nil => [.empty .projection]
  | _, .text _ | _, .flag _ | _, .long _ | _, .ident _ | _, .constant _ | _, .operator _
  | _, .setOperator _ | _, .direction _ | _, .absent | _, .nil | _, .wildcard | _, .natural
  | _, .unconditional | _, .cross | _, .comma | _, .everything => []
  | _, .present d | _, .qualifiedName d | _, .projection d | _, .identifier d | _, .compound d
  | _, .literal d | _, .function d | _, .operation d | _, .nested d | _, .raw d | _, .predicate d
  | _, .columns d | _, .inner d | _, .left d | _, .right d | _, .full d | _, .item d
  | _, .qualifiedWildcard d | _, .selectBody d | _, .queryBody d => d.obstacles
  | _, .cons first rest => first.obstacles ++ rest.obstacles
  | _, .inSubquery e q negated => [e.obstacles, q.obstacles, negated.obstacles].flatten
  | _, .existence q negated => [q.obstacles, negated.obstacles].flatten
  | _, .call name args => [name.obstacles, args.obstacles].flatten
  | _, .binary l o r => [l.obstacles, o.obstacles, r.obstacles].flatten
  | _, .table name aliasName args hints =>
    [name.obstacles, aliasName.obstacles, args.obstacles, hints.obstacles].flatten
  | _, .derived q aliasName => [q.obstacles, aliasName.obstacles].flatten
  | _, .join relation k => [relation.obstacles, k.obstacles].flatten
  | _, .fromClause relation joins => [relation.obstacles, joins.obstacles].flatten
  | _, .aliased e aliasName => [e.obstacles, aliasName.obstacles].flatten
  | _, .select distinct p source condition groupBy having =>
    [distinct.obstacles, p.obstacles, source.obstacles, condition.obstacles, groupBy.obstacles,
      having.obstacles].flatten
  | _, .setOperation o all l r => [o.obstacles, all.obstacles, l.obstacles, r.obstacles].flatten
  | _, .orderItem e d => [e.obstacles, d.obstacles].flatten
  | _, .cte name q => [name.obstacles, q.obstacles].flatten
  | _, .query ctes b orderBy limit offset =>
    [ctes.obstacles, b.obstacles, orderBy.obstacles, limit.obstacles, offset.obstacles].flatten

def Obstacle.empty? : Obstacle → Option EmptyList
  | .empty what => some what
  | .double _ => none

def Obstacle.double? : Obstacle → Option Double
  | .empty _ => none
  | .double x => some x

/-- The lists that are empty and must not be, in the order of the text. -/
def Draft.empties {kind : Kind} (d : Draft kind) : List EmptyList :=
  d.obstacles.filterMap Obstacle.empty?

def Draft.doubles {kind : Kind} (d : Draft kind) : List Double :=
  d.obstacles.filterMap Obstacle.double?

/-! ## Trees as drafts -/

/-- The list of such drafts. -/
def Draft.ofList {α : Type} {kind : Kind} (draft : α → Draft kind) : List α → Draft (.many kind)
  | [] => .nil
  | a :: rest => .cons (draft a) (ofList draft rest)

def Draft.ofOption {α : Type} {kind : Kind} (draft : α → Draft kind) :
    Option α → Draft (.maybe kind)
  | none => .absent
  | some a => .present (draft a)

def Ident.drafts (is : List Ident) : Draft (.many .ident) := .ofList .ident is

def Ident.draft? (i : Option Ident) : Draft (.maybe .ident) := .ofOption .ident i

def QualifiedName.draft (n : QualifiedName) : Draft .qualifiedName :=
  .qualifiedName (Ident.drafts n.parts)

mutual

def Expr.draft : Expr → Draft .expr
  | .identifier name => .identifier (.ident name)
  | .compound parts => .compound (Ident.drafts parts)
  | .wildcard => .wildcard
  | .constant value => .literal (.constant value)
  | .call c => .function c.draft
  | .binary o => .operation o.draft
  | .nested inner => .nested inner.draft
  | .inSubquery operand subquery negated =>
    .inSubquery operand.draft subquery.draft (.flag negated)
  | .existence subquery negated => .existence subquery.draft (.flag negated)
  | .raw sql => .raw (.text sql)

def Call.draft : Call → Draft .call
  | ⟨name, args⟩ => .call name.draft (Expr.drafts args)

def Binary.draft : Binary → Draft .binary
  | ⟨left, operator, right⟩ => .binary left.draft (.operator operator) right.draft

def Relation.draft : Relation → Draft .relation
  | .table name aliasName args hints =>
    .table name.draft (Ident.draft? aliasName) (Expr.drafts args) (Expr.drafts hints)
  | .derived subquery aliasName => .derived subquery.draft (Ident.draft? aliasName)

def JoinCondition.draft : JoinCondition → Draft .joinCondition
  | .predicate e => .predicate e.draft
  | .columns names => .columns (Ident.drafts names)
  | .natural => .natural
  | .absent => .unconditional

def JoinKind.draft : JoinKind → Draft .joinKind
  | .inner c => .inner c.draft
  | .left c => .left c.draft
  | .right c => .right c.draft
  | .full c => .full c.draft
  | .cross => .cross
  | .comma => .comma

def Join.draft : Join → Draft .join
  | ⟨relation, kind⟩ => .join relation.draft kind.draft

def FromClause.draft : FromClause → Draft .fromClause
  | ⟨relation, joins⟩ => .fromClause relation.draft (Join.drafts joins)

def SelectItem.draft : SelectItem → Draft .selectItem
  | .expr e => .item e.draft
  | .aliased e aliasName => .aliased e.draft (.ident aliasName)
  | .qualifiedWildcard qualifier => .qualifiedWildcard qualifier.draft
  | .wildcard => .everything

def Projection.draft : Projection → Draft .projection
  | ⟨first, rest⟩ => .projection (.cons first.draft (SelectItem.drafts rest))

def Select.draft : Select → Draft .select
  | ⟨distinct, projection, source, condition, groupBy, having⟩ =>
    .select (.flag distinct) projection.draft (FromClause.draft? source) (Expr.draft? condition)
      (Expr.drafts groupBy) (Expr.draft? having)

def Body.draft : Body → Draft .body
  | .select s => .selectBody s.draft
  | .query q => .queryBody q.draft
  | .operation operator all left right =>
    .setOperation (.setOperator operator) (.flag all) left.draft right.draft

def OrderItem.draft : OrderItem → Draft .orderItem
  | ⟨expr, direction⟩ => .orderItem expr.draft (.ofOption .direction direction)

def Cte.draft : Cte → Draft .cte
  | ⟨name, query⟩ => .cte (.ident name) query.draft

def Query.draft : Query → Draft .query
  | ⟨ctes, body, orderBy, limit, offset⟩ =>
    .query (Cte.drafts ctes) body.draft (OrderItem.drafts orderBy) (Expr.draft? limit)
      (Expr.draft? offset)

def Expr.drafts : List Expr → Draft (.many .expr)
  | [] => .nil
  | e :: rest => .cons e.draft (Expr.drafts rest)

def Expr.draft? : Option Expr → Draft (.maybe .expr)
  | none => .absent
  | some e => .present e.draft

def FromClause.draft? : Option FromClause → Draft (.maybe .fromClause)
  | none => .absent
  | some f => .present f.draft

def Join.drafts : List Join → Draft (.many .join)
  | [] => .nil
  | j :: rest => .cons j.draft (Join.drafts rest)

def SelectItem.drafts : List SelectItem → Draft (.many .selectItem)
  | [] => .nil
  | i :: rest => .cons i.draft (SelectItem.drafts rest)

def OrderItem.drafts : List OrderItem → Draft (.many .orderItem)
  | [] => .nil
  | o :: rest => .cons o.draft (OrderItem.drafts rest)

def Cte.drafts : List Cte → Draft (.many .cte)
  | [] => .nil
  | c :: rest => .cons c.draft (Cte.drafts rest)

end

/-- A value of any kind as a draft. -/
def Kind.draft : (kind : Kind) → kind.Carrier → Draft kind
  | .text => .text
  | .flag => .flag
  | .long => .long
  | .double => .double
  | .maybe kind => .ofOption kind.draft
  | .many kind => .ofList kind.draft
  | .ident => .ident
  | .qualifiedName => QualifiedName.draft
  | .constant => .constant
  | .operator => .operator
  | .setOperator => .setOperator
  | .direction => .direction
  | .expr => Expr.draft
  | .call => Call.draft
  | .binary => Binary.draft
  | .relation => Relation.draft
  | .joinCondition => JoinCondition.draft
  | .joinKind => JoinKind.draft
  | .join => Join.draft
  | .fromClause => FromClause.draft
  | .selectItem => SelectItem.draft
  | .projection => Projection.draft
  | .select => Select.draft
  | .body => Body.draft
  | .orderItem => OrderItem.draft
  | .cte => Cte.draft
  | .query => Query.draft

/-! ## Lists and values that may be absent -/

theorem Draft.eq_ofList {α : Type} {kind : Kind} {draft : α → Draft kind}
    {drafts : List α → Draft (.many kind)} (hnil : drafts [] = .nil)
    (hcons : ∀ a rest, drafts (a :: rest) = .cons (draft a) (drafts rest)) :
    ∀ as, drafts as = .ofList draft as
  | [] => hnil
  | a :: rest => by rw [hcons, Draft.eq_ofList hnil hcons rest, Draft.ofList]

theorem Expr.drafts_eq (es : List Expr) : Expr.drafts es = .ofList Expr.draft es :=
  Draft.eq_ofList rfl (fun _ _ => rfl) es

theorem Join.drafts_eq (js : List Join) : Join.drafts js = .ofList Join.draft js :=
  Draft.eq_ofList rfl (fun _ _ => rfl) js

theorem SelectItem.drafts_eq (items : List SelectItem) :
    SelectItem.drafts items = .ofList SelectItem.draft items :=
  Draft.eq_ofList rfl (fun _ _ => rfl) items

theorem OrderItem.drafts_eq (items : List OrderItem) :
    OrderItem.drafts items = .ofList OrderItem.draft items :=
  Draft.eq_ofList rfl (fun _ _ => rfl) items

theorem Cte.drafts_eq (ctes : List Cte) : Cte.drafts ctes = .ofList Cte.draft ctes :=
  Draft.eq_ofList rfl (fun _ _ => rfl) ctes

theorem Expr.draft?_eq (e : Option Expr) : Expr.draft? e = .ofOption Expr.draft e := by
  cases e <;> rfl

theorem FromClause.draft?_eq (f : Option FromClause) :
    FromClause.draft? f = .ofOption FromClause.draft f := by
  cases f <;> rfl

/-! ## The document of a tree's draft -/

theorem Draft.document_many {kind : Kind} (d : Draft (.many kind)) :
    d.document = .list d.documents := by
  cases d <;> rfl

theorem Ident.documents_drafts (is : List Ident) :
    (Ident.drafts is).documents = is.map Ident.document := by
  induction is with
  | nil => rfl
  | cons i rest ih => exact congrArg (i.document :: ·) ih

theorem Ident.document_drafts (is : List Ident) :
    (Ident.drafts is).document = .list (is.map Ident.document) := by
  rw [Draft.document_many, Ident.documents_drafts]

theorem Ident.document_draft? (i : Option Ident) :
    (Ident.draft? i).document = .ofOption (i.map Ident.document) := by
  cases i <;> rfl

theorem QualifiedName.document_draft (n : QualifiedName) : n.draft.document = n.document :=
  congrArg Document.list (Ident.documents_drafts n.parts)

theorem Direction.document_draft? (d : Option Direction) :
    (Draft.ofOption .direction d).document = .ofOption (d.map Direction.document) := by
  cases d <;> rfl

mutual

theorem Expr.document_draft : ∀ e : Expr, e.draft.document = e.document
  | .identifier _ | .wildcard | .constant _ | .raw _ => rfl
  | .compound parts => congrArg (Document.tagged _) (Ident.document_drafts parts)
  | .call c => congrArg (Document.tagged _) (Call.document_draft c)
  | .binary o => congrArg (Document.tagged _) (Binary.document_draft o)
  | .nested inner => congrArg (Document.tagged _) (Expr.document_draft inner)
  | .inSubquery operand subquery negated => by
    rw [Expr.draft, Draft.document, Expr.document_draft operand, Query.document_draft subquery]
    rfl
  | .existence subquery negated => by
    rw [Expr.draft, Draft.document, Query.document_draft subquery]
    rfl

theorem Call.document_draft : ∀ c : Call, c.draft.document = c.document
  | ⟨name, args⟩ => by
    rw [Call.draft, Draft.document, name.document_draft, (Expr.drafts args).document_many,
      Expr.documents_drafts args]
    rfl

theorem Binary.document_draft : ∀ o : Binary, o.draft.document = o.document
  | ⟨left, operator, right⟩ => by
    rw [Binary.draft, Draft.document, Expr.document_draft left, Expr.document_draft right]
    rfl

theorem Relation.document_draft : ∀ r : Relation, r.draft.document = r.document
  | .table name aliasName args hints => by
    rw [Relation.draft, Draft.document, name.document_draft, Ident.document_draft? aliasName,
      (Expr.drafts args).document_many, Expr.documents_drafts args,
      (Expr.drafts hints).document_many, Expr.documents_drafts hints]
    rfl
  | .derived subquery aliasName => by
    rw [Relation.draft, Draft.document, Query.document_draft subquery,
      Ident.document_draft? aliasName]
    rfl

theorem JoinCondition.document_draft : ∀ c : JoinCondition, c.draft.document = c.document
  | .predicate e => congrArg (Document.tagged _) (Expr.document_draft e)
  | .columns names => congrArg (Document.tagged _) (Ident.document_drafts names)
  | .natural | .absent => rfl

theorem JoinKind.document_draft : ∀ k : JoinKind, k.draft.document = k.document
  | .inner c | .left c | .right c | .full c =>
    congrArg (Document.tagged _) (JoinCondition.document_draft c)
  | .cross | .comma => rfl

theorem Join.document_draft : ∀ j : Join, j.draft.document = j.document
  | ⟨relation, kind⟩ => by
    rw [Join.draft, Draft.document, Relation.document_draft relation, JoinKind.document_draft kind]
    rfl

theorem FromClause.document_draft : ∀ f : FromClause, f.draft.document = f.document
  | ⟨relation, joins⟩ => by
    rw [FromClause.draft, Draft.document, Relation.document_draft relation,
      (Join.drafts joins).document_many, Join.documents_drafts joins]
    rfl

theorem SelectItem.document_draft : ∀ i : SelectItem, i.draft.document = i.document
  | .expr e => congrArg (Document.tagged _) (Expr.document_draft e)
  | .aliased e aliasName => by
    rw [SelectItem.draft, Draft.document, Expr.document_draft e]
    rfl
  | .qualifiedWildcard name => congrArg (Document.tagged _) name.document_draft
  | .wildcard => rfl

theorem Projection.document_draft : ∀ p : Projection, p.draft.document = p.document
  | ⟨first, rest⟩ => by
    rw [Projection.draft, Draft.document, Draft.documents, SelectItem.document_draft first,
      SelectItem.documents_drafts rest]
    rfl

theorem Select.document_draft : ∀ s : Select, s.draft.document = s.document
  | ⟨distinct, projection, source, condition, groupBy, having⟩ => by
    rw [Select.draft, Draft.document, Projection.document_draft projection,
      FromClause.document_draft? source, Expr.document_draft? condition,
      (Expr.drafts groupBy).document_many, Expr.documents_drafts groupBy,
      Expr.document_draft? having]
    rfl

theorem Body.document_draft : ∀ b : Body, b.draft.document = b.document
  | .select s => congrArg (Document.tagged _) (Select.document_draft s)
  | .query q => congrArg (Document.tagged _) (Query.document_draft q)
  | .operation operator all left right => by
    rw [Body.draft, Draft.document, Body.document_draft left, Body.document_draft right]
    rfl

theorem OrderItem.document_draft : ∀ o : OrderItem, o.draft.document = o.document
  | ⟨expr, direction⟩ => by
    rw [OrderItem.draft, Draft.document, Expr.document_draft expr,
      Direction.document_draft? direction]
    rfl

theorem Cte.document_draft : ∀ c : Cte, c.draft.document = c.document
  | ⟨name, query⟩ => by
    rw [Cte.draft, Draft.document, Query.document_draft query]
    rfl

/-- A query is stored as its draft is. -/
theorem Query.document_draft : ∀ q : Query, q.draft.document = q.document
  | ⟨ctes, body, orderBy, limit, offset⟩ => by
    rw [Query.draft, Draft.document, (Cte.drafts ctes).document_many, Cte.documents_drafts ctes,
      Body.document_draft body, (OrderItem.drafts orderBy).document_many,
      OrderItem.documents_drafts orderBy, Expr.document_draft? limit, Expr.document_draft? offset]
    rfl

theorem Expr.documents_drafts : ∀ es : List Expr, (Expr.drafts es).documents = Expr.documents es
  | [] => rfl
  | e :: rest => by
    rw [Expr.drafts, Draft.documents, Expr.document_draft e, Expr.documents_drafts rest]
    rfl

theorem Expr.document_draft? :
    ∀ e : Option Expr, (Expr.draft? e).document = .ofOption (Expr.document? e)
  | none => rfl
  | some e => Expr.document_draft e

theorem FromClause.document_draft? :
    ∀ f : Option FromClause, (FromClause.draft? f).document = .ofOption (FromClause.document? f)
  | none => rfl
  | some f => FromClause.document_draft f

theorem Join.documents_drafts : ∀ js : List Join, (Join.drafts js).documents = Join.documents js
  | [] => rfl
  | j :: rest => by
    rw [Join.drafts, Draft.documents, Join.document_draft j, Join.documents_drafts rest]
    rfl

theorem SelectItem.documents_drafts :
    ∀ items : List SelectItem, (SelectItem.drafts items).documents = SelectItem.documents items
  | [] => rfl
  | i :: rest => by
    rw [SelectItem.drafts, Draft.documents, SelectItem.document_draft i,
      SelectItem.documents_drafts rest]
    rfl

theorem OrderItem.documents_drafts :
    ∀ items : List OrderItem, (OrderItem.drafts items).documents = OrderItem.documents items
  | [] => rfl
  | o :: rest => by
    rw [OrderItem.drafts, Draft.documents, OrderItem.document_draft o,
      OrderItem.documents_drafts rest]
    rfl

theorem Cte.documents_drafts : ∀ ctes : List Cte, (Cte.drafts ctes).documents = Cte.documents ctes
  | [] => rfl
  | c :: rest => by
    rw [Cte.drafts, Draft.documents, Cte.document_draft c, Cte.documents_drafts rest]
    rfl

end

/-! ## No tree has an empty name or an empty projection -/

theorem Draft.empties_eq_nil_iff {kind : Kind} {d : Draft kind} :
    d.empties = [] ↔ ∀ what, Obstacle.empty what ∉ d.obstacles := by
  rw [Draft.empties, List.filterMap_eq_nil_iff]
  constructor
  · intro h what hmem
    simpa [Obstacle.empty?] using h _ hmem
  · intro h o hmem
    cases o with
    | empty what => exact absurd hmem (h what)
    | double x => rfl

section

variable (what : EmptyList)

theorem Ident.empty_notMem (is : List Ident) : .empty what ∉ (Ident.drafts is).obstacles := by
  induction is with
  | nil => exact List.not_mem_nil
  | cons i rest ih => exact ih

theorem Ident.empty_notMem? (i : Option Ident) : .empty what ∉ (Ident.draft? i).obstacles := by
  cases i <;> exact List.not_mem_nil

theorem QualifiedName.empty_notMem (n : QualifiedName) : .empty what ∉ n.draft.obstacles :=
  Ident.empty_notMem what n.parts

theorem Constant.empty_notMem (c : Constant) : .empty what ∉ (Draft.constant c).obstacles := by
  cases c <;> simp [Draft.obstacles]

theorem Direction.empty_notMem? (d : Option Direction) :
    .empty what ∉ (Draft.ofOption .direction d).obstacles := by
  cases d <;> exact List.not_mem_nil

mutual

theorem Expr.empty_notMem : ∀ e : Expr, .empty what ∉ e.draft.obstacles
  | .identifier _ | .wildcard | .raw _ => List.not_mem_nil
  | .compound parts => Ident.empty_notMem what parts
  | .constant c => c.empty_notMem what
  | .call c => Call.empty_notMem c
  | .binary o => Binary.empty_notMem o
  | .nested inner => Expr.empty_notMem inner
  | .inSubquery operand subquery negated => by
    simp [Expr.draft, Draft.obstacles, Expr.empty_notMem operand, Query.empty_notMem subquery]
  | .existence subquery negated => by
    simp [Expr.draft, Draft.obstacles, Query.empty_notMem subquery]

theorem Call.empty_notMem : ∀ c : Call, .empty what ∉ c.draft.obstacles
  | ⟨name, args⟩ => by
    simp [Call.draft, Draft.obstacles, name.empty_notMem what, Expr.empty_notMem_drafts args]

theorem Binary.empty_notMem : ∀ o : Binary, .empty what ∉ o.draft.obstacles
  | ⟨left, operator, right⟩ => by
    simp [Binary.draft, Draft.obstacles, Expr.empty_notMem left, Expr.empty_notMem right]

theorem Relation.empty_notMem : ∀ r : Relation, .empty what ∉ r.draft.obstacles
  | .table name aliasName args hints => by
    simp [Relation.draft, Draft.obstacles, name.empty_notMem what,
      Ident.empty_notMem? what aliasName, Expr.empty_notMem_drafts args,
      Expr.empty_notMem_drafts hints]
  | .derived subquery aliasName => by
    simp [Relation.draft, Draft.obstacles, Query.empty_notMem subquery,
      Ident.empty_notMem? what aliasName]

theorem JoinCondition.empty_notMem : ∀ c : JoinCondition, .empty what ∉ c.draft.obstacles
  | .predicate e => Expr.empty_notMem e
  | .columns names => Ident.empty_notMem what names
  | .natural | .absent => List.not_mem_nil

theorem JoinKind.empty_notMem : ∀ k : JoinKind, .empty what ∉ k.draft.obstacles
  | .inner c | .left c | .right c | .full c => JoinCondition.empty_notMem c
  | .cross | .comma => List.not_mem_nil

theorem Join.empty_notMem : ∀ j : Join, .empty what ∉ j.draft.obstacles
  | ⟨relation, kind⟩ => by
    simp [Join.draft, Draft.obstacles, Relation.empty_notMem relation, JoinKind.empty_notMem kind]

theorem FromClause.empty_notMem : ∀ f : FromClause, .empty what ∉ f.draft.obstacles
  | ⟨relation, joins⟩ => by
    simp [FromClause.draft, Draft.obstacles, Relation.empty_notMem relation,
      Join.empty_notMem_drafts joins]

theorem SelectItem.empty_notMem : ∀ i : SelectItem, .empty what ∉ i.draft.obstacles
  | .expr e => Expr.empty_notMem e
  | .aliased e aliasName => by
    simp [SelectItem.draft, Draft.obstacles, Expr.empty_notMem e]
  | .qualifiedWildcard qualifier => qualifier.empty_notMem what
  | .wildcard => List.not_mem_nil

theorem Projection.empty_notMem : ∀ p : Projection, .empty what ∉ p.draft.obstacles
  | ⟨first, rest⟩ => by
    simp [Projection.draft, Draft.obstacles, SelectItem.empty_notMem first,
      SelectItem.empty_notMem_drafts rest]

theorem Select.empty_notMem : ∀ s : Select, .empty what ∉ s.draft.obstacles
  | ⟨distinct, projection, source, condition, groupBy, having⟩ => by
    simp [Select.draft, Draft.obstacles, Projection.empty_notMem projection,
      FromClause.empty_notMem? source, Expr.empty_notMem? condition,
      Expr.empty_notMem_drafts groupBy, Expr.empty_notMem? having]

theorem Body.empty_notMem : ∀ b : Body, .empty what ∉ b.draft.obstacles
  | .select s => Select.empty_notMem s
  | .query q => Query.empty_notMem q
  | .operation operator all left right => by
    simp [Body.draft, Draft.obstacles, Body.empty_notMem left, Body.empty_notMem right]

theorem OrderItem.empty_notMem : ∀ o : OrderItem, .empty what ∉ o.draft.obstacles
  | ⟨expr, direction⟩ => by
    simp [OrderItem.draft, Draft.obstacles, Expr.empty_notMem expr,
      Direction.empty_notMem? what direction]

theorem Cte.empty_notMem : ∀ c : Cte, .empty what ∉ c.draft.obstacles
  | ⟨name, query⟩ => by
    simp [Cte.draft, Draft.obstacles, Query.empty_notMem query]

theorem Query.empty_notMem : ∀ q : Query, .empty what ∉ q.draft.obstacles
  | ⟨ctes, body, orderBy, limit, offset⟩ => by
    simp [Query.draft, Draft.obstacles, Cte.empty_notMem_drafts ctes, Body.empty_notMem body,
      OrderItem.empty_notMem_drafts orderBy, Expr.empty_notMem? limit, Expr.empty_notMem? offset]

theorem Expr.empty_notMem_drafts : ∀ es : List Expr, .empty what ∉ (Expr.drafts es).obstacles
  | [] => List.not_mem_nil
  | e :: rest => by
    simp [Expr.drafts, Draft.obstacles, Expr.empty_notMem e, Expr.empty_notMem_drafts rest]

theorem Expr.empty_notMem? : ∀ e : Option Expr, .empty what ∉ (Expr.draft? e).obstacles
  | none => List.not_mem_nil
  | some e => Expr.empty_notMem e

theorem FromClause.empty_notMem? :
    ∀ f : Option FromClause, .empty what ∉ (FromClause.draft? f).obstacles
  | none => List.not_mem_nil
  | some f => FromClause.empty_notMem f

theorem Join.empty_notMem_drafts : ∀ js : List Join, .empty what ∉ (Join.drafts js).obstacles
  | [] => List.not_mem_nil
  | j :: rest => by
    simp [Join.drafts, Draft.obstacles, Join.empty_notMem j, Join.empty_notMem_drafts rest]

theorem SelectItem.empty_notMem_drafts :
    ∀ items : List SelectItem, .empty what ∉ (SelectItem.drafts items).obstacles
  | [] => List.not_mem_nil
  | i :: rest => by
    simp [SelectItem.drafts, Draft.obstacles, SelectItem.empty_notMem i,
      SelectItem.empty_notMem_drafts rest]

theorem OrderItem.empty_notMem_drafts :
    ∀ items : List OrderItem, .empty what ∉ (OrderItem.drafts items).obstacles
  | [] => List.not_mem_nil
  | o :: rest => by
    simp [OrderItem.drafts, Draft.obstacles, OrderItem.empty_notMem o,
      OrderItem.empty_notMem_drafts rest]

theorem Cte.empty_notMem_drafts : ∀ ctes : List Cte, .empty what ∉ (Cte.drafts ctes).obstacles
  | [] => List.not_mem_nil
  | c :: rest => by
    simp [Cte.drafts, Draft.obstacles, Cte.empty_notMem c, Cte.empty_notMem_drafts rest]

end

end

end SqlTree
