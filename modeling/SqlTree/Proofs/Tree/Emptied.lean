import SqlTree.Proofs.Tree.Leaves

/-!
# Trees with their text values emptied

`emptied` replaces every text value in a tree by the empty one and keeps all else. Two trees differ
only in text values if they are the same once emptied.
-/

namespace SqlTree

def Constant.emptied : Constant → Constant
  | .text _ => .text ""
  | c => c

mutual

def Expr.emptied : Expr → Expr
  | .identifier name => .identifier name
  | .compound parts => .compound parts
  | .wildcard => .wildcard
  | .constant value => .constant value.emptied
  | .call c => .call c.emptied
  | .binary o => .binary o.emptied
  | .nested inner => .nested inner.emptied
  | .inSubquery operand subquery negated => .inSubquery operand.emptied subquery.emptied negated
  | .existence subquery negated => .existence subquery.emptied negated
  | .raw sql => .raw sql

def Call.emptied : Call → Call
  | ⟨name, args⟩ => ⟨name, Expr.emptiedAll args⟩

def Binary.emptied : Binary → Binary
  | ⟨left, operator, right⟩ => ⟨left.emptied, operator, right.emptied⟩

def Relation.emptied : Relation → Relation
  | .table name aliasName args hints =>
    .table name aliasName (Expr.emptiedAll args) (Expr.emptiedAll hints)
  | .derived subquery aliasName => .derived subquery.emptied aliasName

def JoinCondition.emptied : JoinCondition → JoinCondition
  | .predicate e => .predicate e.emptied
  | .columns names => .columns names
  | .natural => .natural
  | .absent => .absent

def JoinKind.emptied : JoinKind → JoinKind
  | .inner c => .inner c.emptied
  | .left c => .left c.emptied
  | .right c => .right c.emptied
  | .full c => .full c.emptied
  | .cross => .cross
  | .comma => .comma

def Join.emptied : Join → Join
  | ⟨relation, kind⟩ => ⟨relation.emptied, kind.emptied⟩

def FromClause.emptied : FromClause → FromClause
  | ⟨relation, joins⟩ => ⟨relation.emptied, Join.emptiedAll joins⟩

def SelectItem.emptied : SelectItem → SelectItem
  | .expr e => .expr e.emptied
  | .aliased e aliasName => .aliased e.emptied aliasName
  | .qualifiedWildcard qualifier => .qualifiedWildcard qualifier
  | .wildcard => .wildcard

def Projection.emptied : Projection → Projection
  | ⟨first, rest⟩ => ⟨first.emptied, SelectItem.emptiedAll rest⟩

def Select.emptied : Select → Select
  | ⟨distinct, projection, source, condition, groupBy, having⟩ =>
    ⟨distinct, projection.emptied, FromClause.emptied? source, Expr.emptied? condition,
      Expr.emptiedAll groupBy, Expr.emptied? having⟩

def Body.emptied : Body → Body
  | .select s => .select s.emptied
  | .query q => .query q.emptied
  | .operation operator all left right => .operation operator all left.emptied right.emptied

def OrderItem.emptied : OrderItem → OrderItem
  | ⟨expr, direction⟩ => ⟨expr.emptied, direction⟩

def Cte.emptied : Cte → Cte
  | ⟨name, query⟩ => ⟨name, query.emptied⟩

def Query.emptied : Query → Query
  | ⟨ctes, body, orderBy, limit, offset⟩ =>
    ⟨Cte.emptiedAll ctes, body.emptied, OrderItem.emptiedAll orderBy, Expr.emptied? limit,
      Expr.emptied? offset⟩

def Expr.emptiedAll : List Expr → List Expr
  | [] => []
  | e :: rest => e.emptied :: Expr.emptiedAll rest

def Expr.emptied? : Option Expr → Option Expr
  | none => none
  | some e => some e.emptied

def FromClause.emptied? : Option FromClause → Option FromClause
  | none => none
  | some f => some f.emptied

def Join.emptiedAll : List Join → List Join
  | [] => []
  | j :: rest => j.emptied :: Join.emptiedAll rest

def SelectItem.emptiedAll : List SelectItem → List SelectItem
  | [] => []
  | i :: rest => i.emptied :: SelectItem.emptiedAll rest

def OrderItem.emptiedAll : List OrderItem → List OrderItem
  | [] => []
  | o :: rest => o.emptied :: OrderItem.emptiedAll rest

def Cte.emptiedAll : List Cte → List Cte
  | [] => []
  | c :: rest => c.emptied :: Cte.emptiedAll rest

end

/-! ## Lists and options of subtrees -/

theorem Expr.emptiedAll_eq (es : List Expr) : Expr.emptiedAll es = es.map Expr.emptied :=
  eq_map rfl (fun _ _ => rfl) es

theorem Join.emptiedAll_eq (js : List Join) : Join.emptiedAll js = js.map Join.emptied :=
  eq_map rfl (fun _ _ => rfl) js

theorem SelectItem.emptiedAll_eq (items : List SelectItem) :
    SelectItem.emptiedAll items = items.map SelectItem.emptied := eq_map rfl (fun _ _ => rfl) items

theorem OrderItem.emptiedAll_eq (items : List OrderItem) :
    OrderItem.emptiedAll items = items.map OrderItem.emptied := eq_map rfl (fun _ _ => rfl) items

theorem Cte.emptiedAll_eq (ctes : List Cte) : Cte.emptiedAll ctes = ctes.map Cte.emptied :=
  eq_map rfl (fun _ _ => rfl) ctes

/-! ## All kinds -/

/-- A value of any kind with its text values emptied. -/
def Kind.emptied : (kind : Kind) → kind.Carrier → kind.Carrier
  | .text => fun _ => ""
  | .flag | .long | .double | .ident | .qualifiedName | .operator | .setOperator | .direction => id
  | .maybe kind => Option.map kind.emptied
  | .many kind => List.map kind.emptied
  | .constant => Constant.emptied
  | .expr => Expr.emptied
  | .call => Call.emptied
  | .binary => Binary.emptied
  | .relation => Relation.emptied
  | .joinCondition => JoinCondition.emptied
  | .joinKind => JoinKind.emptied
  | .join => Join.emptied
  | .fromClause => FromClause.emptied
  | .selectItem => SelectItem.emptied
  | .projection => Projection.emptied
  | .select => Select.emptied
  | .body => Body.emptied
  | .orderItem => OrderItem.emptied
  | .cte => Cte.emptied
  | .query => Query.emptied

end SqlTree
