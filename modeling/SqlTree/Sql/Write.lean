import SqlTree.Sql.Buffer
import SqlTree.Tree

/-!
# Writing trees as SQL

Each type writes itself in one line, its clauses in a fixed order. A subquery is written into the
same buffer as everything around it. The docstring of a writer names the type whose `render` it
embeds.

Recursion is on the tree. For a list of subtrees there is a function that turns it into the list of
their writers, which is then put between commas or one after the other.
-/

namespace SqlTree

/-- `render` of `Ident`: the name as it is. -/
def Ident.write (i : Ident) : Writer := fun b => b.push i.text

instance : Render Ident := ⟨Ident.write⟩

/-- `render` of `ObjectName`: segments with dots between them. -/
def QualifiedName.write (n : QualifiedName) : Writer :=
  Buffer.separated "." (n.parts.map Ident.write)

instance : Render QualifiedName := ⟨QualifiedName.write⟩

/-- A `SingleQuotedString`: a text between quotes; a quote inside is written twice. -/
def Constant.quote (s : String) : String :=
  String.ofList ('\x27' :: (s.toList.flatMap double ++ ['\x27']))
where
  /-- A character inside the quotes. -/
  double (c : Char) : List Char := if c = '\x27' then [c, c] else [c]

/-- `render` of `Value` -/
def Constant.write : Constant → Writer
  | .long n, b => b.push (toString n.toInt)
  | .double x, b => b.push x.sql
  | .text s, b => b.push (quote s)
  | .boolean true, b => b.push "TRUE"
  | .boolean false, b => b.push "FALSE"
  | .null, b => b.push "NULL"

instance : Render Constant := ⟨Constant.write⟩

/-- The symbol of a `BinaryOperator` in the `render` of `BinaryOp`, without the blanks around it. -/
def Operator.symbol : Operator → String
  | .equal => "="
  | .notEqual => "<>"
  | .less => "<"
  | .lessEqual => "<="
  | .greater => ">"
  | .greaterEqual => ">="
  | .like => "LIKE"
  | .notLike => "NOT LIKE"
  | .plus => "+"
  | .minus => "-"
  | .times => "*"
  | .dividedBy => "/"
  | .and => "AND"
  | .or => "OR"

/-- The keyword of a `SetOperator`. -/
def SetOperator.keyword : SetOperator → String
  | .union => "UNION"
  | .except => "EXCEPT"
  | .intersect => "INTERSECT"

/-- `render` of `SetOperator` -/
def SetOperator.write (o : SetOperator) : Writer := fun b => b.push o.keyword

instance : Render SetOperator := ⟨SetOperator.write⟩

/-- The keyword of an `OrderDir`, the `dir_str` in the `render` of `OrderByExpr`. -/
def Direction.keyword : Direction → String
  | .ascending => "ASC"
  | .descending => "DESC"

/-- What the `render` of `Join` puts before the relation of a join with a `JoinConstraint`: a blank,
`NATURAL` for a natural join, and the keyword. -/
def JoinCondition.lead (c : JoinCondition) (keyword : String) : Writer := fun b =>
  match c with
  | .natural => (b.push " NATURAL ").push keyword
  | _ => (b.push " ").push keyword

mutual

/-- `render` of `Expr` -/
def Expr.write : Expr → Writer
  | .identifier name, b => name.write b
  | .compound parts, b => Buffer.separated "." (parts.map Ident.write) b
  | .wildcard, b => b.push "*"
  | .constant value, b => value.write b
  | .call c, b => c.write b
  | .binary o, b => o.write b
  | .nested inner, b => (inner.write (b.push "(")).push ")"
  | .inSubquery operand subquery negated, b =>
    (subquery.write ((operand.write b).push (if negated then " NOT IN (" else " IN ("))).push ")"
  | .existence subquery negated, b =>
    (subquery.write ((if negated then b.push "NOT " else b).push "EXISTS (")).push ")"
  | .raw sql, b => b.push sql

/-- `render` of `FunctionCall`: `name(args)` -/
def Call.write : Call → Writer
  | ⟨name, args⟩, b =>
    (Buffer.separated ", " (Expr.writers args) ((name.write b).push "(")).push ")"

/-- `render` of `BinaryOp`: `left operator right` -/
def Binary.write : Binary → Writer
  | ⟨left, operator, right⟩, b => right.write ((left.write b).push (" " ++ operator.symbol ++ " "))

/-- `render` of `TableFactor`: name, arguments, alias and hints of a `Table`, in this order. -/
def Relation.write : Relation → Writer
  | .table name aliasName args hints, b =>
    let b := Buffer.listed "(" ")" (Expr.writers args) (name.write b)
    let b := Buffer.optional " AS " (aliasName.map Ident.write) b
    Buffer.listed " WITH (" ")" (Expr.writers hints) b
  | .derived subquery aliasName, b =>
    Buffer.optional " AS " (aliasName.map Ident.write) (subquery.write b)

/-- `render` of `JoinConstraint`: what follows the joined relation. -/
def JoinCondition.write : JoinCondition → Writer
  | .predicate e, b => e.write (b.push " ON ")
  | .columns names, b => (Buffer.separated ", " (names.map Ident.write) (b.push " USING(")).push ")"
  | .natural, b => b
  | .absent, b => b

/-- `render` of `Join`: keyword, relation and condition, with the separator before them. -/
def Join.write : Join → Writer
  | ⟨relation, .inner condition⟩, b =>
    condition.write (relation.write (condition.lead "JOIN " b))
  | ⟨relation, .left condition⟩, b =>
    condition.write (relation.write (condition.lead "LEFT JOIN " b))
  | ⟨relation, .right condition⟩, b =>
    condition.write (relation.write (condition.lead "RIGHT JOIN " b))
  | ⟨relation, .full condition⟩, b =>
    condition.write (relation.write (condition.lead "FULL JOIN " b))
  | ⟨relation, .cross⟩, b => relation.write (b.push " CROSS JOIN ")
  | ⟨relation, .comma⟩, b => relation.write (b.push ", ")

/-- `render` of `TableWithJoins`: the joins follow the relation without further separators. -/
def FromClause.write : FromClause → Writer
  | ⟨relation, joins⟩, b => Join.writeAll joins (relation.write b)

/-- `render` of `SelectItem` -/
def SelectItem.write : SelectItem → Writer
  | .expr e, b => e.write b
  | .aliased e aliasName, b => aliasName.write ((e.write b).push " AS ")
  | .qualifiedWildcard qualifier, b => (qualifier.write b).push ".*"
  | .wildcard, b => b.push "*"

/-- The items of a `Projection`, as the `render` of `Select` writes them. -/
def Projection.write : Projection → Writer
  | ⟨first, rest⟩, b => Buffer.separated ", " (first.write :: SelectItem.writers rest) b

/-- `render` of `Select`: its clauses, in this order. -/
def Select.write : Select → Writer
  | ⟨distinct, projection, source, condition, groupBy, having⟩, b =>
    let b := b.push "SELECT "
    let b := projection.write (if distinct then b.push "DISTINCT " else b)
    let b := Buffer.optional " FROM " (FromClause.writer? source) b
    let b := Buffer.optional " WHERE " (Expr.writer? condition) b
    let b := Buffer.listed " GROUP BY " "" (Expr.writers groupBy) b
    Buffer.optional " HAVING " (Expr.writer? having) b

/-- `render` of `SetExpr`: a `Query` stands in parentheses, a `SetOperation` adds none. -/
def Body.write : Body → Writer
  | .select s, b => s.write b
  | .query q, b => (q.write (b.push "(")).push ")"
  | .operation operator all left right, b =>
    let b := operator.write ((left.write b).push " ")
    right.write ((if all then b.push " ALL" else b).push " ")

/-- `render` of `OrderByExpr` -/
def OrderItem.write : OrderItem → Writer
  | ⟨expr, direction⟩, b =>
    Buffer.optional " " (direction.map fun d b => b.push d.keyword) (expr.write b)

/-- `render` of `Cte`: `name AS (query)` -/
def Cte.write : Cte → Writer
  | ⟨name, query⟩, b => (query.write ((name.write b).push " AS (")).push ")"

/-- `render` of `Query`: its clauses, in this order. -/
def Query.write : Query → Writer
  | ⟨ctes, body, orderBy, limit, offset⟩, b =>
    let b := body.write (Buffer.listed "WITH " " " (Cte.writers ctes) b)
    let b := Buffer.listed " ORDER BY " "" (OrderItem.writers orderBy) b
    let b := Buffer.optional " LIMIT " (Expr.writer? limit) b
    Buffer.optional " OFFSET " (Expr.writer? offset) b

def Expr.writers : List Expr → List Writer
  | [] => []
  | e :: rest => e.write :: Expr.writers rest

def Expr.writer? : Option Expr → Option Writer
  | none => none
  | some e => some e.write

def FromClause.writer? : Option FromClause → Option Writer
  | none => none
  | some f => some f.write

def Join.writeAll : List Join → Writer
  | [], b => b
  | j :: rest, b => Join.writeAll rest (j.write b)

def SelectItem.writers : List SelectItem → List Writer
  | [] => []
  | i :: rest => i.write :: SelectItem.writers rest

def OrderItem.writers : List OrderItem → List Writer
  | [] => []
  | o :: rest => o.write :: OrderItem.writers rest

def Cte.writers : List Cte → List Writer
  | [] => []
  | c :: rest => c.write :: Cte.writers rest

end

instance : Render Expr := ⟨Expr.write⟩
instance : Render Call := ⟨Call.write⟩
instance : Render Binary := ⟨Binary.write⟩
instance : Render Relation := ⟨Relation.write⟩
instance : Render JoinCondition := ⟨JoinCondition.write⟩
instance : Render Join := ⟨Join.write⟩
instance : Render FromClause := ⟨FromClause.write⟩
instance : Render SelectItem := ⟨SelectItem.write⟩
instance : Render Select := ⟨Select.write⟩
instance : Render Body := ⟨Body.write⟩
instance : Render OrderItem := ⟨OrderItem.write⟩
instance : Render Cte := ⟨Cte.write⟩
instance : Render Query := ⟨Query.write⟩

/-! ## The lists of writers -/

@[simp] theorem Expr.writers_eq_map (es : List Expr) : Expr.writers es = es.map Expr.write := by
  induction es with
  | nil => rfl
  | cons e rest ih => rw [Expr.writers, ih, List.map_cons]

@[simp] theorem Expr.writer?_eq_map (e : Option Expr) : Expr.writer? e = e.map Expr.write := by
  cases e <;> rfl

@[simp] theorem FromClause.writer?_eq_map (f : Option FromClause) :
    FromClause.writer? f = f.map FromClause.write := by
  cases f <;> rfl

@[simp] theorem SelectItem.writers_eq_map (items : List SelectItem) :
    SelectItem.writers items = items.map SelectItem.write := by
  induction items with
  | nil => rfl
  | cons i rest ih => rw [SelectItem.writers, ih, List.map_cons]

@[simp] theorem OrderItem.writers_eq_map (items : List OrderItem) :
    OrderItem.writers items = items.map OrderItem.write := by
  induction items with
  | nil => rfl
  | cons o rest ih => rw [OrderItem.writers, ih, List.map_cons]

@[simp] theorem Cte.writers_eq_map (ctes : List Cte) : Cte.writers ctes = ctes.map Cte.write := by
  induction ctes with
  | nil => rfl
  | cons c rest ih => rw [Cte.writers, ih, List.map_cons]

end SqlTree
