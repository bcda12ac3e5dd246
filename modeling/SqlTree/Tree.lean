import SqlTree.Constant
import SqlTree.Name

/-!
# Query trees

The types of a query and of everything inside it. They are mutually recursive: a query stands inside
expressions, relations and bodies, and an expression in nearly every clause.

Two rules are kept by shape alone. A projection has a first item, so it is never empty; and only the
kinds of join that can take a condition carry one, so none can be attached to a cross join or to a
comma.

Grouping is explicit: no tree adds parentheses of its own. They stand where an expression is
`nested`, where a body is a whole query, and where a subquery is an operand.

Types and variants are named for what they are in SQL. The item that each of them embeds is named in
its docstring, `SetExpr::Query` being a variant of `SetExpr`.
-/

namespace SqlTree

/-- `BinaryOperator`: the operator between two expressions. -/
inductive Operator where
  -- comparison: `Eq`, `NotEq`, `Lt`, `LtEq`, `Gt`, `GtEq`, `Like`, `NotLike`
  | equal
  | notEqual
  | less
  | lessEqual
  | greater
  | greaterEqual
  | like
  | notLike
  -- arithmetic: `Plus`, `Minus`, `Multiply`, `Divide`
  | plus
  | minus
  | times
  | dividedBy
  -- logic: `And`, `Or`
  | and
  | or
  deriving DecidableEq

/-- `SetOperator`: the operator between two bodies. -/
inductive SetOperator where
  | union
  | except
  | intersect
  deriving DecidableEq

/-- `OrderDir`, which is `Asc` or `Desc`: the direction of an ordering. -/
inductive Direction where
  | ascending
  | descending
  deriving DecidableEq

mutual

/-- `Expr`: whatever can stand in a condition, in an argument list or in a projection. -/
inductive Expr where
  /-- `Identifier`: a bare name, such as `region` -/
  | identifier (name : Ident)
  /-- `CompoundIdentifier`: a dotted name, such as `t1.id` -/
  | compound (parts : List Ident)
  /-- `Wildcard`: `*` -/
  | wildcard
  /-- `Value` -/
  | constant (value : Constant)
  /-- `Function` -/
  | call (call : Call)
  /-- `BinaryOp` -/
  | binary (operation : Binary)
  /-- `Nested`: `(expr)` -/
  | nested (inner : Expr)
  /-- `InSubquery`: `expr [NOT] IN (subquery)` -/
  | inSubquery (operand : Expr) (subquery : Query) (negated : Bool)
  /-- `Exists`: `[NOT] EXISTS (subquery)` -/
  | existence (subquery : Query) (negated : Bool)
  /-- `Literal`: text that is SQL already -/
  | raw (sql : String)

/-- `FunctionCall`: a function call, such as `SUM(amount)`. -/
structure Call where
  name : QualifiedName
  args : List Expr

/-- `BinaryOp`: two expressions with an operator between them. -/
structure Binary where
  left : Expr
  operator : Operator
  right : Expr

/-- `TableFactor`: what a `FROM` clause or a join names. -/
inductive Relation where
  /-- `Table`, its `hints` being `with_hints`; with arguments it is called like a function -/
  | table (name : QualifiedName) (aliasName : Option Ident) (args : List Expr) (hints : List Expr)
  /-- `Derived`: a subquery, in parentheses only if its body is a whole query -/
  | derived (subquery : Query) (aliasName : Option Ident)

/-- `JoinConstraint`: how the rows of a join are matched. -/
inductive JoinCondition where
  /-- `On` -/
  | predicate (e : Expr)
  /-- `Using` -/
  | columns (names : List Ident)
  /-- `Natural` -/
  | natural
  /-- `None` -/
  | absent

/-- `JoinOperator`: the kind of a join. -/
inductive JoinKind where
  /-- `Inner` -/
  | inner (condition : JoinCondition)
  /-- `LeftOuter` -/
  | left (condition : JoinCondition)
  /-- `RightOuter` -/
  | right (condition : JoinCondition)
  /-- `FullOuter` -/
  | full (condition : JoinCondition)
  /-- `Cross` -/
  | cross
  /-- `Implicit`: a comma -/
  | comma

/-- `Join`: a relation joined to what stands before it; its `kind` is the `operator`. -/
structure Join where
  relation : Relation
  kind : JoinKind

/-- `TableWithJoins`: a relation and everything joined to it. -/
structure FromClause where
  relation : Relation
  joins : List Join

/-- `SelectItem`: one entry of a projection. -/
inductive SelectItem where
  /-- `UnnamedExpr` -/
  | expr (e : Expr)
  /-- `ExprWithAlias` -/
  | aliased (e : Expr) (aliasName : Ident)
  /-- `QualifiedWildcard`: `schema.*` -/
  | qualifiedWildcard (qualifier : QualifiedName)
  /-- `Wildcard`: `*` -/
  | wildcard

/-- `Projection`: the items of a `SELECT`, at least one. -/
structure Projection where
  first : SelectItem
  rest : List SelectItem

/-- `Select`: a `SELECT` with its clauses. The `source` is `from`, the `condition` of the `WHERE`
clause is `selection`. -/
structure Select where
  distinct : Bool
  projection : Projection
  source : Option FromClause
  condition : Option Expr
  groupBy : List Expr
  having : Option Expr

/-- `SetExpr`: the body of a query. -/
inductive Body where
  /-- `Select` -/
  | select (select : Select)
  /-- `Query`: a whole query, in parentheses -/
  | query (query : Query)
  /-- `SetOperation`: `left OPERATOR [ALL] right`, without parentheses -/
  | operation (operator : SetOperator) (all : Bool) (left right : Body)

/-- `OrderByExpr`: one entry of an `ORDER BY` clause. Without a direction the default applies. -/
structure OrderItem where
  expr : Expr
  direction : Option Direction

/-- `Cte`: a named query of a `WITH` clause; its `name` is the `alias`. -/
structure Cte where
  name : Ident
  query : Query

/-- `Query`: named queries, a body, an ordering and a range of rows. -/
structure Query where
  ctes : List Cte
  body : Body
  orderBy : List OrderItem
  limit : Option Expr
  offset : Option Expr

end

/-! ## Expressions -/

namespace Expr

/-- `ident!`: a reference by name. One text is a bare name, several are a dotted one. -/
def reference (first : String) : List String → Expr
  | [] => .identifier ⟨first⟩
  | rest => .compound (⟨first⟩ :: rest.map Ident.mk)

/-- `Expr::compound`: a dotted name, even of a single part. -/
def dotted (parts : List String) : Expr := .compound (parts.map Ident.mk)

/-- `Expr::binary` -/
def apply (left : Expr) (operator : Operator) (right : Expr) : Expr :=
  .binary ⟨left, operator, right⟩

/-- `Expr::function`: the call of a named function. -/
def function (name : QualifiedName) (args : List Expr) : Expr := .call ⟨name, args⟩

/-- `Expr::in_subquery`: `operand IN (subquery)` -/
def isIn (operand : Expr) (subquery : Query) : Expr := .inSubquery operand subquery false

end Expr

/-! ## Relations and joins -/

namespace Relation

/-- `TableFactor::table`: a table by its name alone. -/
def named (name : QualifiedName) : Relation := .table name none [] []

/-- `TableFactor::derived`: a subquery without an alias. -/
def ofQuery (subquery : Query) : Relation := .derived subquery none

/-- `TableFactor::alias` -/
def alias? : Relation → Option Ident
  | .table _ aliasName _ _ => aliasName
  | .derived _ aliasName => aliasName

/-- `TableFactor::with_alias`: the same relation under another alias. -/
def withAlias (aliasName : Ident) : Relation → Relation
  | .table name _ args hints => .table name (some aliasName) args hints
  | .derived subquery _ => .derived subquery (some aliasName)

end Relation

/-- `JoinOperator::constraint`: the condition of the kinds of join that have one. -/
def JoinKind.condition? : JoinKind → Option JoinCondition
  | .inner c | .left c | .right c | .full c => some c
  | .cross | .comma => none

/-- The `TableWithJoins` of a `TableFactor`: a relation with nothing joined to it. -/
def FromClause.ofRelation (relation : Relation) : FromClause := ⟨relation, []⟩

/-- One more join at the end of the `joins`. -/
def FromClause.join (source : FromClause) (j : Join) : FromClause :=
  { source with joins := source.joins ++ [j] }

/-! ## Selects -/

namespace Projection

/-- The `Projection` of one `SelectItem`. -/
def single (item : SelectItem) : Projection := ⟨item, []⟩

/-- `Projection::items` -/
def items (p : Projection) : List SelectItem := p.first :: p.rest

/-- `Projection::new`: the projection of these items, of which there must be one. -/
def ofItems : List SelectItem → Except EmptyList Projection
  | [] => .error .projection
  | first :: rest => .ok ⟨first, rest⟩

@[simp] theorem ofItems_items (p : Projection) : ofItems p.items = .ok p := by
  cases p
  rfl

theorem items_of_ofItems {items : List SelectItem} {p : Projection} (h : ofItems items = .ok p) :
    p.items = items := by
  cases items with
  | nil => simp [ofItems] at h
  | cons first rest =>
    simp only [ofItems, Except.ok.injEq] at h
    exact h ▸ rfl

end Projection

/-- `Select::new`: a select with a projection and no other clause. -/
def Select.ofProjection (projection : Projection) : Select :=
  { distinct := false, projection, source := none, condition := none, groupBy := [],
    having := none }

/-! ## Bodies and queries -/

namespace Body

/-- `SetExpr::union` -/
def union (left right : Body) (all : Bool) : Body := .operation .union all left right

/-- `SetExpr::except` -/
def except (left right : Body) (all : Bool) : Body := .operation .except all left right

/-- `SetExpr::intersect` -/
def intersect (left right : Body) (all : Bool) : Body := .operation .intersect all left right

end Body

/-- `Query::new`: a query that is nothing but its body. -/
def Query.ofBody (body : Body) : Query :=
  { ctes := [], body, orderBy := [], limit := none, offset := none }

end SqlTree
