import SqlTree.Storage.Kind

/-!
# The leaves of a tree

The names, constants and raw texts that a tree holds, at any depth, in the order in which they are
written. What a tree may hold is said of its leaves: that no identifier has a quote in it, that no
double occurs, and so on.
-/

namespace SqlTree

/-- What a tree holds at its ends. -/
inductive Leaf where
  | name (i : Ident)
  | constant (c : Constant)
  /-- text that is SQL already -/
  | raw (sql : String)
  deriving DecidableEq

def QualifiedName.leaves (n : QualifiedName) : List Leaf := n.parts.map .name

mutual

def Expr.leaves : Expr → List Leaf
  | .identifier name => [.name name]
  | .compound parts => parts.map .name
  | .wildcard => []
  | .constant value => [.constant value]
  | .call c => c.leaves
  | .binary o => o.leaves
  | .nested inner => inner.leaves
  | .inSubquery operand subquery _ => operand.leaves ++ subquery.leaves
  | .existence subquery _ => subquery.leaves
  | .raw sql => [.raw sql]

def Call.leaves : Call → List Leaf
  | ⟨name, args⟩ => name.leaves ++ Expr.leavesAll args

def Binary.leaves : Binary → List Leaf
  | ⟨left, _, right⟩ => left.leaves ++ right.leaves

def Relation.leaves : Relation → List Leaf
  | .table name aliasName args hints =>
    name.leaves ++ Expr.leavesAll args ++ aliasName.toList.map .name ++ Expr.leavesAll hints
  | .derived subquery aliasName => subquery.leaves ++ aliasName.toList.map .name

def JoinCondition.leaves : JoinCondition → List Leaf
  | .predicate e => e.leaves
  | .columns names => names.map .name
  | .natural | .absent => []

def JoinKind.leaves : JoinKind → List Leaf
  | .inner c | .left c | .right c | .full c => c.leaves
  | .cross | .comma => []

def Join.leaves : Join → List Leaf
  | ⟨relation, kind⟩ => relation.leaves ++ kind.leaves

def FromClause.leaves : FromClause → List Leaf
  | ⟨relation, joins⟩ => relation.leaves ++ Join.leavesAll joins

def SelectItem.leaves : SelectItem → List Leaf
  | .expr e => e.leaves
  | .aliased e aliasName => e.leaves ++ [.name aliasName]
  | .qualifiedWildcard qualifier => qualifier.leaves
  | .wildcard => []

def Projection.leaves : Projection → List Leaf
  | ⟨first, rest⟩ => first.leaves ++ SelectItem.leavesAll rest

def Select.leaves : Select → List Leaf
  | ⟨_, projection, source, condition, groupBy, having⟩ =>
    projection.leaves ++ FromClause.leaves? source ++ Expr.leaves? condition
      ++ Expr.leavesAll groupBy ++ Expr.leaves? having

def Body.leaves : Body → List Leaf
  | .select s => s.leaves
  | .query q => q.leaves
  | .operation _ _ left right => left.leaves ++ right.leaves

def OrderItem.leaves : OrderItem → List Leaf
  | ⟨expr, _⟩ => expr.leaves

def Cte.leaves : Cte → List Leaf
  | ⟨name, query⟩ => .name name :: query.leaves

def Query.leaves : Query → List Leaf
  | ⟨ctes, body, orderBy, limit, offset⟩ =>
    Cte.leavesAll ctes ++ body.leaves ++ OrderItem.leavesAll orderBy ++ Expr.leaves? limit
      ++ Expr.leaves? offset

def Expr.leavesAll : List Expr → List Leaf
  | [] => []
  | e :: rest => e.leaves ++ Expr.leavesAll rest

def Expr.leaves? : Option Expr → List Leaf
  | none => []
  | some e => e.leaves

def FromClause.leaves? : Option FromClause → List Leaf
  | none => []
  | some f => f.leaves

def Join.leavesAll : List Join → List Leaf
  | [] => []
  | j :: rest => j.leaves ++ Join.leavesAll rest

def SelectItem.leavesAll : List SelectItem → List Leaf
  | [] => []
  | i :: rest => i.leaves ++ SelectItem.leavesAll rest

def OrderItem.leavesAll : List OrderItem → List Leaf
  | [] => []
  | o :: rest => o.leaves ++ OrderItem.leavesAll rest

def Cte.leavesAll : List Cte → List Leaf
  | [] => []
  | c :: rest => c.leaves ++ Cte.leavesAll rest

end

/-- The leaves of a value of any kind. -/
def Kind.leaves : (kind : Kind) → kind.Carrier → List Leaf
  | .text | .flag | .long | .operator | .setOperator | .direction => fun _ => []
  | .double => fun x => [.constant (.double x)]
  | .maybe kind => fun value => value.elim [] kind.leaves
  | .many kind => fun values => values.flatMap kind.leaves
  | .ident => fun i => [.name i]
  | .qualifiedName => QualifiedName.leaves
  | .constant => fun c => [.constant c]
  | .expr => Expr.leaves
  | .call => Call.leaves
  | .binary => Binary.leaves
  | .relation => Relation.leaves
  | .joinCondition => JoinCondition.leaves
  | .joinKind => JoinKind.leaves
  | .join => Join.leaves
  | .fromClause => FromClause.leaves
  | .selectItem => SelectItem.leaves
  | .projection => Projection.leaves
  | .select => Select.leaves
  | .body => Body.leaves
  | .orderItem => OrderItem.leaves
  | .cte => Cte.leaves
  | .query => Query.leaves

/-! ## Lists and options of subtrees -/

/-- A function that treats the elements of a list one by one is `map`. -/
theorem eq_map {α β : Type} {f : List α → List β} {g : α → β} (hnil : f [] = [])
    (hcons : ∀ a l, f (a :: l) = g a :: f l) (l : List α) : f l = l.map g := by
  induction l with
  | nil => exact hnil
  | cons a rest ih => rw [hcons, ih, List.map_cons]

/-- A function that puts together what the elements of a list give is `flatMap`. -/
theorem eq_flatMap {α β : Type} {f : List α → List β} {g : α → List β} (hnil : f [] = [])
    (hcons : ∀ a l, f (a :: l) = g a ++ f l) (l : List α) : f l = l.flatMap g := by
  induction l with
  | nil => exact hnil
  | cons a rest ih => rw [hcons, ih, List.flatMap_cons]

@[simp] theorem Expr.leavesAll_eq (es : List Expr) : Expr.leavesAll es = es.flatMap Expr.leaves :=
  eq_flatMap rfl (fun _ _ => rfl) es

@[simp] theorem Expr.leaves?_eq (e : Option Expr) : Expr.leaves? e = e.elim [] Expr.leaves := by
  cases e <;> rfl

@[simp] theorem FromClause.leaves?_eq (f : Option FromClause) :
    FromClause.leaves? f = f.elim [] FromClause.leaves := by
  cases f <;> rfl

@[simp] theorem Join.leavesAll_eq (js : List Join) : Join.leavesAll js = js.flatMap Join.leaves :=
  eq_flatMap rfl (fun _ _ => rfl) js

@[simp] theorem SelectItem.leavesAll_eq (items : List SelectItem) :
    SelectItem.leavesAll items = items.flatMap SelectItem.leaves :=
  eq_flatMap rfl (fun _ _ => rfl) items

@[simp] theorem OrderItem.leavesAll_eq (items : List OrderItem) :
    OrderItem.leavesAll items = items.flatMap OrderItem.leaves :=
  eq_flatMap rfl (fun _ _ => rfl) items

@[simp] theorem Cte.leavesAll_eq (ctes : List Cte) : Cte.leavesAll ctes = ctes.flatMap Cte.leaves :=
  eq_flatMap rfl (fun _ _ => rfl) ctes

end SqlTree
