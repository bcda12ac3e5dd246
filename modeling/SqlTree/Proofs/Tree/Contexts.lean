import Mathlib.Logic.Relation
import SqlTree.Node

/-!
# Contexts

A `Frame` is one level of a tree with a hole: everything around a direct subnode. A `Context` is
frames within one another, a whole tree with a hole at any depth, and `Context.fill` puts a tree into
the hole. So a context is an occurrence of a subnode, and filling it with another tree is the
replacement at this occurrence.

No place is forgotten: whatever `Node.children` lists fills a frame, and whatever stands within a
tree at any depth fills a context (`Node.Within.exists_context`). A subnode is a thing that has SQL
of its own; the lists of a projection and the condition of a join are not, but what they hold is.
-/

namespace SqlTree

/-! ## Lists with a hole -/

/-- The name with these segments around one. -/
def QualifiedName.around (before : List Ident) (i : Ident) (after : List Ident) : QualifiedName :=
  match before with
  | [] => ⟨i, after⟩
  | first :: rest => ⟨first, rest ++ i :: after⟩

@[simp] theorem QualifiedName.parts_around (before : List Ident) (i : Ident) (after : List Ident) :
    (QualifiedName.around before i after).parts = before ++ i :: after := by
  cases before <;> rfl

/-- The projection with these items around one. -/
def Projection.around (before : List SelectItem) (i : SelectItem) (after : List SelectItem) :
    Projection :=
  match before with
  | [] => ⟨i, after⟩
  | first :: rest => ⟨first, rest ++ i :: after⟩

@[simp] theorem Projection.items_around (before : List SelectItem) (i : SelectItem)
    (after : List SelectItem) : (Projection.around before i after).items = before ++ i :: after := by
  cases before <;> rfl

theorem QualifiedName.eq_of_parts_eq {m n : QualifiedName} (h : m.parts = n.parts) : m = n := by
  obtain ⟨first, rest⟩ := m
  obtain ⟨first', rest'⟩ := n
  obtain ⟨rfl, rfl⟩ := List.cons.inj h
  rfl

theorem Projection.eq_of_items_eq {p q : Projection} (h : p.items = q.items) : p = q := by
  obtain ⟨first, rest⟩ := p
  obtain ⟨first', rest'⟩ := q
  obtain ⟨rfl, rfl⟩ := List.cons.inj h
  rfl

/-! ## Frames -/

/-- The kinds of join that have a condition. -/
inductive JoinSide where
  | inner
  | left
  | right
  | full

/-- The kind of join with this condition. -/
def JoinSide.kind : JoinSide → JoinCondition → JoinKind
  | .inner => .inner
  | .left => .left
  | .right => .right
  | .full => .full

/-- A kind of join with a condition is one of the sides. -/
theorem JoinKind.exists_side {k : JoinKind} {c : JoinCondition} (h : k.condition? = some c) :
    ∃ side : JoinSide, side.kind c = k := by
  cases k <;> cases h
  case inner => exact ⟨.inner, rfl⟩
  case left => exact ⟨.left, rfl⟩
  case right => exact ⟨.right, rfl⟩
  case full => exact ⟨.full, rfl⟩

/-- One level of a tree of the second kind, around a hole for a tree of the first kind. In a list,
`before` and `after` are the neighbours of the hole; a field of a record that the hole replaces is
not looked at. -/
inductive Frame : Kind → Kind → Type where
  | segment (before after : List Ident) : Frame .ident .qualifiedName
  | identifier : Frame .ident .expr
  | compound (before after : List Ident) : Frame .ident .expr
  | constant : Frame .constant .expr
  | call : Frame .call .expr
  | binary : Frame .binary .expr
  | nested : Frame .expr .expr
  | operand (subquery : Query) (negated : Bool) : Frame .expr .expr
  | inSubquery (operand : Expr) (negated : Bool) : Frame .query .expr
  | existence (negated : Bool) : Frame .query .expr
  | callName (args : List Expr) : Frame .qualifiedName .call
  | callArg (name : QualifiedName) (before after : List Expr) : Frame .expr .call
  | left (operator : Operator) (right : Expr) : Frame .expr .binary
  | right (left : Expr) (operator : Operator) : Frame .expr .binary
  | tableName (aliasName : Option Ident) (args hints : List Expr) : Frame .qualifiedName .relation
  | tableAlias (name : QualifiedName) (args hints : List Expr) : Frame .ident .relation
  | tableArg (name : QualifiedName) (aliasName : Option Ident) (before after hints : List Expr) :
    Frame .expr .relation
  | tableHint (name : QualifiedName) (aliasName : Option Ident) (args before after : List Expr) :
    Frame .expr .relation
  | derived (aliasName : Option Ident) : Frame .query .relation
  | derivedAlias (subquery : Query) : Frame .ident .relation
  | predicate : Frame .expr .joinCondition
  | column (before after : List Ident) : Frame .ident .joinCondition
  | joined (kind : JoinKind) : Frame .relation .join
  | joinPredicate (relation : Relation) (side : JoinSide) : Frame .expr .join
  | joinColumn (relation : Relation) (side : JoinSide) (before after : List Ident) :
    Frame .ident .join
  | fromRelation (joins : List Join) : Frame .relation .fromClause
  | fromJoin (relation : Relation) (before after : List Join) : Frame .join .fromClause
  | item : Frame .expr .selectItem
  | aliased (aliasName : Ident) : Frame .expr .selectItem
  | itemAlias (e : Expr) : Frame .ident .selectItem
  | qualifiedWildcard : Frame .qualifiedName .selectItem
  | projection (s : Select) (before after : List SelectItem) : Frame .selectItem .select
  | source (s : Select) : Frame .fromClause .select
  | condition (s : Select) : Frame .expr .select
  | groupBy (s : Select) (before after : List Expr) : Frame .expr .select
  | having (s : Select) : Frame .expr .select
  | selectBody : Frame .select .body
  | queryBody : Frame .query .body
  | leftBody (operator : SetOperator) (all : Bool) (right : Body) : Frame .body .body
  | rightBody (operator : SetOperator) (all : Bool) (left : Body) : Frame .body .body
  | ordered (direction : Option Direction) : Frame .expr .orderItem
  | cteName (query : Query) : Frame .ident .cte
  | cteQuery (name : Ident) : Frame .query .cte
  | cte (q : Query) (before after : List Cte) : Frame .cte .query
  | body (q : Query) : Frame .body .query
  | orderBy (q : Query) (before after : List OrderItem) : Frame .orderItem .query
  | limit (q : Query) : Frame .expr .query
  | offset (q : Query) : Frame .expr .query

/-- The tree with something in the hole. -/
def Frame.fill {hole root : Kind} : Frame hole root → hole.Carrier → root.Carrier
  | .segment before after, i => QualifiedName.around before i after
  | .identifier, i => Expr.identifier i
  | .compound before after, i => Expr.compound (before ++ i :: after)
  | .constant, c => Expr.constant c
  | .call, c => Expr.call c
  | .binary, o => Expr.binary o
  | .nested, e => Expr.nested e
  | .operand subquery negated, e => Expr.inSubquery e subquery negated
  | .inSubquery e negated, q => Expr.inSubquery e q negated
  | .existence negated, q => Expr.existence q negated
  | .callName args, n => Call.mk n args
  | .callArg name before after, e => Call.mk name (before ++ e :: after)
  | .left operator e', e => Binary.mk e operator e'
  | .right e' operator, e => Binary.mk e' operator e
  | .tableName aliasName args hints, n => Relation.table n aliasName args hints
  | .tableAlias name args hints, i => Relation.table name (some i) args hints
  | .tableArg name aliasName before after hints, e =>
    Relation.table name aliasName (before ++ e :: after) hints
  | .tableHint name aliasName args before after, e =>
    Relation.table name aliasName args (before ++ e :: after)
  | .derived aliasName, q => Relation.derived q aliasName
  | .derivedAlias subquery, i => Relation.derived subquery (some i)
  | .predicate, e => JoinCondition.predicate e
  | .column before after, i => JoinCondition.columns (before ++ i :: after)
  | .joined kind, r => Join.mk r kind
  | .joinPredicate relation side, e => Join.mk relation (side.kind (.predicate e))
  | .joinColumn relation side before after, i =>
    Join.mk relation (side.kind (.columns (before ++ i :: after)))
  | .fromRelation joins, r => FromClause.mk r joins
  | .fromJoin relation before after, j => FromClause.mk relation (before ++ j :: after)
  | .item, e => SelectItem.expr e
  | .aliased aliasName, e => SelectItem.aliased e aliasName
  | .itemAlias e, i => SelectItem.aliased e i
  | .qualifiedWildcard, n => SelectItem.qualifiedWildcard n
  | .projection s before after, i =>
    ({ s with projection := Projection.around before i after } : Select)
  | .source s, f => ({ s with source := some f } : Select)
  | .condition s, e => ({ s with condition := some e } : Select)
  | .groupBy s before after, e => ({ s with groupBy := before ++ e :: after } : Select)
  | .having s, e => ({ s with having := some e } : Select)
  | .selectBody, s => Body.select s
  | .queryBody, q => Body.query q
  | .leftBody operator all b', b => Body.operation operator all b b'
  | .rightBody operator all b', b => Body.operation operator all b' b
  | .ordered direction, e => OrderItem.mk e direction
  | .cteName query, i => Cte.mk i query
  | .cteQuery name, q => Cte.mk name q
  | .cte q before after, c => ({ q with ctes := before ++ c :: after } : Query)
  | .body q, b => ({ q with body := b } : Query)
  | .orderBy q before after, o => ({ q with orderBy := before ++ o :: after } : Query)
  | .limit q, e => ({ q with limit := some e } : Query)
  | .offset q, e => ({ q with offset := some e } : Query)

/-- A tree of kind `root` with a hole for a tree of kind `hole`, at any depth. -/
inductive Context (hole : Kind) : Kind → Type where
  | here : Context hole hole
  | within {middle root : Kind} (frame : Frame middle root) (inner : Context hole middle) :
    Context hole root

/-- The tree with something in the hole. -/
def Context.fill {hole root : Kind} : Context hole root → hole.Carrier → root.Carrier
  | .here, v => v
  | .within frame inner, v => frame.fill (inner.fill v)

/-! ## Subnodes -/

def Expr.children : Expr → List Node
  | .identifier name => [⟨.ident, name⟩]
  | .compound parts => parts.map (⟨.ident, ·⟩)
  | .constant value => [⟨.constant, value⟩]
  | .call c => [⟨.call, c⟩]
  | .binary o => [⟨.binary, o⟩]
  | .nested inner => [⟨.expr, inner⟩]
  | .inSubquery operand subquery _ => [⟨.expr, operand⟩, ⟨.query, subquery⟩]
  | .existence subquery _ => [⟨.query, subquery⟩]
  | .wildcard | .raw _ => []

def Relation.children : Relation → List Node
  | .table name aliasName args hints =>
    ⟨.qualifiedName, name⟩ :: (args.map (⟨.expr, ·⟩) ++ aliasName.toList.map (⟨.ident, ·⟩)
      ++ hints.map (⟨.expr, ·⟩))
  | .derived subquery aliasName => ⟨.query, subquery⟩ :: aliasName.toList.map (⟨.ident, ·⟩)

def JoinCondition.children : JoinCondition → List Node
  | .predicate e => [⟨.expr, e⟩]
  | .columns names => names.map (⟨.ident, ·⟩)
  | .natural | .absent => []

def SelectItem.children : SelectItem → List Node
  | .expr e => [⟨.expr, e⟩]
  | .aliased e aliasName => [⟨.expr, e⟩, ⟨.ident, aliasName⟩]
  | .qualifiedWildcard qualifier => [⟨.qualifiedName, qualifier⟩]
  | .wildcard => []

def Body.children : Body → List Node
  | .select s => [⟨.select, s⟩]
  | .query q => [⟨.query, q⟩]
  | .operation _ _ left right => [⟨.body, left⟩, ⟨.body, right⟩]

/-- The direct subnodes of a tree, in the order of its SQL. -/
def Kind.children : (kind : Kind) → kind.Carrier → List Node
  | .qualifiedName, n => n.parts.map (⟨.ident, ·⟩)
  | .expr, e => e.children
  | .call, c => ⟨.qualifiedName, c.name⟩ :: c.args.map (⟨.expr, ·⟩)
  | .binary, o => [⟨.expr, o.left⟩, ⟨.expr, o.right⟩]
  | .relation, r => r.children
  | .joinCondition, c => c.children
  | .join, j => ⟨.relation, j.relation⟩ :: (j.kind.condition?.elim [] JoinCondition.children)
  | .fromClause, f => ⟨.relation, f.relation⟩ :: f.joins.map (⟨.join, ·⟩)
  | .selectItem, i => i.children
  | .select, s =>
    s.projection.items.map (⟨.selectItem, ·⟩) ++ s.source.toList.map (⟨.fromClause, ·⟩)
      ++ s.condition.toList.map (⟨.expr, ·⟩) ++ s.groupBy.map (⟨.expr, ·⟩)
      ++ s.having.toList.map (⟨.expr, ·⟩)
  | .body, b => b.children
  | .orderItem, o => [⟨.expr, o.expr⟩]
  | .cte, c => [⟨.ident, c.name⟩, ⟨.query, c.query⟩]
  | .query, q =>
    q.ctes.map (⟨.cte, ·⟩) ++ ⟨.body, q.body⟩ :: (q.orderBy.map (⟨.orderItem, ·⟩)
      ++ q.limit.toList.map (⟨.expr, ·⟩) ++ q.offset.toList.map (⟨.expr, ·⟩))
  | .text, _ | .flag, _ | .long, _ | .double, _ | .maybe _, _ | .many _, _ | .ident, _
  | .constant, _ | .operator, _ | .setOperator, _ | .direction, _ | .joinKind, _
  | .projection, _ => []

/-- The direct subnodes of a node. -/
def Node.children (n : Node) : List Node := n.kind.children n.tree

/-- Does a node stand within another, at any depth? -/
def Node.Within : Node → Node → Prop := Relation.ReflTransGen fun u t => u ∈ t.children

/-! ## Every subnode has a context -/

section

variable {α : Type} {node : α → Node} {u : Node}

theorem eq_or_eq_of_mem {a b : Node} (h : u ∈ [a, b]) : u = a ∨ u = b := by
  simpa using h

theorem exists_around_of_mem_map {as : List α} (h : u ∈ as.map node) :
    ∃ before a after, as = before ++ a :: after ∧ node a = u := by
  obtain ⟨a, ha, hu⟩ := List.mem_map.1 h
  obtain ⟨before, after, has⟩ := List.append_of_mem ha
  exact ⟨before, a, after, has, hu⟩

theorem exists_some_of_mem_map {a : Option α} (h : u ∈ a.toList.map node) :
    ∃ b, a = some b ∧ node b = u := by
  obtain ⟨b, hb, hu⟩ := List.mem_map.1 h
  exact ⟨b, Option.mem_toList.1 hb, hu⟩

end

section

variable {u : Node}

theorem Expr.exists_frame {e : Expr} (h : u ∈ e.children) :
    ∃ frame : Frame u.kind .expr, frame.fill u.tree = e := by
  cases e with
  | identifier name =>
    obtain rfl := List.mem_singleton.1 h
    exact ⟨.identifier, rfl⟩
  | compound parts =>
    obtain ⟨before, i, after, rfl, rfl⟩ := exists_around_of_mem_map h
    exact ⟨.compound before after, rfl⟩
  | constant value =>
    obtain rfl := List.mem_singleton.1 h
    exact ⟨.constant, rfl⟩
  | call c =>
    obtain rfl := List.mem_singleton.1 h
    exact ⟨.call, rfl⟩
  | binary o =>
    obtain rfl := List.mem_singleton.1 h
    exact ⟨.binary, rfl⟩
  | nested inner =>
    obtain rfl := List.mem_singleton.1 h
    exact ⟨.nested, rfl⟩
  | inSubquery operand subquery negated =>
    rcases eq_or_eq_of_mem h with rfl | rfl
    · exact ⟨.operand subquery negated, rfl⟩
    · exact ⟨.inSubquery operand negated, rfl⟩
  | existence subquery negated =>
    obtain rfl := List.mem_singleton.1 h
    exact ⟨.existence negated, rfl⟩
  | wildcard | raw => cases h

theorem Relation.exists_frame {r : Relation} (h : u ∈ r.children) :
    ∃ frame : Frame u.kind .relation, frame.fill u.tree = r := by
  cases r with
  | table name aliasName args hints =>
    rcases List.mem_cons.1 h with rfl | h
    · exact ⟨.tableName aliasName args hints, rfl⟩
    rcases List.mem_append.1 h with h | h
    · rcases List.mem_append.1 h with h | h
      · obtain ⟨before, e, after, rfl, rfl⟩ := exists_around_of_mem_map h
        exact ⟨.tableArg name aliasName before after hints, rfl⟩
      · obtain ⟨i, rfl, rfl⟩ := exists_some_of_mem_map h
        exact ⟨.tableAlias name args hints, rfl⟩
    · obtain ⟨before, e, after, rfl, rfl⟩ := exists_around_of_mem_map h
      exact ⟨.tableHint name aliasName args before after, rfl⟩
  | derived subquery aliasName =>
    rcases List.mem_cons.1 h with rfl | h
    · exact ⟨.derived aliasName, rfl⟩
    · obtain ⟨i, rfl, rfl⟩ := exists_some_of_mem_map h
      exact ⟨.derivedAlias subquery, rfl⟩

theorem JoinCondition.exists_frame {c : JoinCondition} (h : u ∈ c.children) :
    ∃ frame : Frame u.kind .joinCondition, frame.fill u.tree = c := by
  cases c with
  | predicate e =>
    obtain rfl := List.mem_singleton.1 h
    exact ⟨.predicate, rfl⟩
  | columns names =>
    obtain ⟨before, i, after, rfl, rfl⟩ := exists_around_of_mem_map h
    exact ⟨.column before after, rfl⟩
  | natural | absent => cases h

/-- The condition of a join is no subnode, but what it holds is. -/
theorem Join.exists_frame {j : Join} (h : u ∈ Kind.join.children j) :
    ∃ frame : Frame u.kind .join, frame.fill u.tree = j := by
  obtain ⟨relation, kind⟩ := j
  rcases List.mem_cons.1 h with rfl | hcondition
  · exact ⟨.joined kind, rfl⟩
  cases hc : kind.condition? with
  | none =>
    rw [hc] at hcondition
    cases hcondition
  | some c =>
    rw [hc] at hcondition
    obtain ⟨side, rfl⟩ := JoinKind.exists_side hc
    have h : u ∈ c.children := hcondition
    cases c with
    | predicate e =>
      obtain rfl := List.mem_singleton.1 h
      exact ⟨.joinPredicate relation side, rfl⟩
    | columns names =>
      obtain ⟨before, i, after, rfl, rfl⟩ := exists_around_of_mem_map h
      exact ⟨.joinColumn relation side before after, rfl⟩
    | natural | absent => cases h

theorem SelectItem.exists_frame {i : SelectItem} (h : u ∈ i.children) :
    ∃ frame : Frame u.kind .selectItem, frame.fill u.tree = i := by
  cases i with
  | expr e =>
    obtain rfl := List.mem_singleton.1 h
    exact ⟨.item, rfl⟩
  | aliased e aliasName =>
    rcases eq_or_eq_of_mem h with rfl | rfl
    · exact ⟨.aliased aliasName, rfl⟩
    · exact ⟨.itemAlias e, rfl⟩
  | qualifiedWildcard qualifier =>
    obtain rfl := List.mem_singleton.1 h
    exact ⟨.qualifiedWildcard, rfl⟩
  | wildcard => cases h

theorem Select.exists_frame {s : Select} (h : u ∈ Kind.select.children s) :
    ∃ frame : Frame u.kind .select, frame.fill u.tree = s := by
  obtain ⟨distinct, projection, source, condition, groupBy, having⟩ := s
  simp only [Kind.children, List.mem_append] at h
  rcases h with (((h | h) | h) | h) | h
  · obtain ⟨before, i, after, hitems, rfl⟩ := exists_around_of_mem_map h
    obtain rfl : Projection.around before i after = projection :=
      Projection.eq_of_items_eq (by rw [Projection.items_around, hitems])
    exact ⟨.projection ⟨distinct, .single i, source, condition, groupBy, having⟩ before after, rfl⟩
  · obtain ⟨f, rfl, rfl⟩ := exists_some_of_mem_map h
    exact ⟨.source ⟨distinct, projection, none, condition, groupBy, having⟩, rfl⟩
  · obtain ⟨e, rfl, rfl⟩ := exists_some_of_mem_map h
    exact ⟨.condition ⟨distinct, projection, source, none, groupBy, having⟩, rfl⟩
  · obtain ⟨before, e, after, rfl, rfl⟩ := exists_around_of_mem_map h
    exact ⟨.groupBy ⟨distinct, projection, source, condition, [], having⟩ before after, rfl⟩
  · obtain ⟨e, rfl, rfl⟩ := exists_some_of_mem_map h
    exact ⟨.having ⟨distinct, projection, source, condition, groupBy, none⟩, rfl⟩

theorem Body.exists_frame {b : Body} (h : u ∈ b.children) :
    ∃ frame : Frame u.kind .body, frame.fill u.tree = b := by
  cases b with
  | select s =>
    obtain rfl := List.mem_singleton.1 h
    exact ⟨.selectBody, rfl⟩
  | query q =>
    obtain rfl := List.mem_singleton.1 h
    exact ⟨.queryBody, rfl⟩
  | operation operator all left right =>
    rcases eq_or_eq_of_mem h with rfl | rfl
    · exact ⟨.leftBody operator all right, rfl⟩
    · exact ⟨.rightBody operator all left, rfl⟩

theorem Query.exists_frame {q : Query} (h : u ∈ Kind.query.children q) :
    ∃ frame : Frame u.kind .query, frame.fill u.tree = q := by
  obtain ⟨ctes, body, orderBy, limit, offset⟩ := q
  simp only [Kind.children, List.mem_append, List.mem_cons] at h
  rcases h with h | rfl | (h | h) | h
  · obtain ⟨before, c, after, rfl, rfl⟩ := exists_around_of_mem_map h
    exact ⟨.cte ⟨[], body, orderBy, limit, offset⟩ before after, rfl⟩
  · exact ⟨.body ⟨ctes, body, orderBy, limit, offset⟩, rfl⟩
  · obtain ⟨before, o, after, rfl, rfl⟩ := exists_around_of_mem_map h
    exact ⟨.orderBy ⟨ctes, body, [], limit, offset⟩ before after, rfl⟩
  · obtain ⟨e, rfl, rfl⟩ := exists_some_of_mem_map h
    exact ⟨.limit ⟨ctes, body, orderBy, none, offset⟩, rfl⟩
  · obtain ⟨e, rfl, rfl⟩ := exists_some_of_mem_map h
    exact ⟨.offset ⟨ctes, body, orderBy, limit, none⟩, rfl⟩

end

namespace Node

/-- A direct subnode fills a frame. -/
theorem exists_frame {u t : Node} (h : u ∈ t.children) :
    ∃ frame : Frame u.kind t.kind, frame.fill u.tree = t.tree := by
  obtain ⟨kind, tree⟩ := t
  cases kind with
  | qualifiedName =>
    obtain ⟨before, i, after, hparts, rfl⟩ := exists_around_of_mem_map h
    exact ⟨.segment before after, QualifiedName.eq_of_parts_eq (by simp [Frame.fill, hparts])⟩
  | expr => exact Expr.exists_frame h
  | call =>
    obtain ⟨name, args⟩ := tree
    rcases List.mem_cons.1 h with rfl | h
    · exact ⟨.callName args, rfl⟩
    · obtain ⟨before, e, after, rfl, rfl⟩ := exists_around_of_mem_map h
      exact ⟨.callArg name before after, rfl⟩
  | binary =>
    obtain ⟨left, operator, right⟩ := tree
    rcases eq_or_eq_of_mem h with rfl | rfl
    · exact ⟨.left operator right, rfl⟩
    · exact ⟨.right left operator, rfl⟩
  | relation => exact Relation.exists_frame h
  | joinCondition => exact JoinCondition.exists_frame h
  | join => exact Join.exists_frame h
  | fromClause =>
    obtain ⟨relation, joins⟩ := tree
    rcases List.mem_cons.1 h with rfl | h
    · exact ⟨.fromRelation joins, rfl⟩
    · obtain ⟨before, j, after, rfl, rfl⟩ := exists_around_of_mem_map h
      exact ⟨.fromJoin relation before after, rfl⟩
  | selectItem => exact SelectItem.exists_frame h
  | select => exact Select.exists_frame h
  | body => exact Body.exists_frame h
  | orderItem =>
    obtain ⟨e, direction⟩ := tree
    obtain rfl := List.mem_singleton.1 h
    exact ⟨.ordered direction, rfl⟩
  | cte =>
    obtain ⟨name, query⟩ := tree
    rcases eq_or_eq_of_mem h with rfl | rfl
    · exact ⟨.cteName query, rfl⟩
    · exact ⟨.cteQuery name, rfl⟩
  | query => exact Query.exists_frame h
  | text | flag | long | double | maybe | many | ident | constant | operator | setOperator
  | direction | joinKind | projection => cases h

/-- **What stands within a tree, at any depth, fills a context of it.** -/
theorem Within.exists_context {u t : Node} (h : Within u t) :
    ∃ K : Context u.kind t.kind, K.fill u.tree = t.tree := by
  induction h with
  | refl => exact ⟨.here, rfl⟩
  | tail _ hchild ih =>
    obtain ⟨K, hK⟩ := ih
    obtain ⟨frame, hframe⟩ := exists_frame hchild
    exact ⟨.within frame K, by rw [Context.fill, hK, hframe]⟩

end Node

end SqlTree
