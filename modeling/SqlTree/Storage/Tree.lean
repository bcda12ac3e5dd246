import SqlTree.Storage.Layout

/-!
# The layout of every kind

How each type of a tree is stored: the names of its fields and variants, their order, and what they
hold. The two lists that may not be empty are checked as they are built. The docstring of a table
names the type whose stored form it embeds; the names in it are the names of that type.
-/

namespace SqlTree

open Json

/-- A list that must have an element: `ObjectName` and `Projection`, read through their `new`. -/
def Layout.nonempty {α : Type} (kind : Kind) (build : List kind.Carrier → Except EmptyList α) :
    Layout α :=
  .items kind fun xs =>
    match build xs with
    | .ok a => .ok a
    | .error what => .error (.empty what)

/-- A record of its own, not inside a variant. -/
def Record.named {α : Type} (name : String) (fields : List Field) (build : Row fields → α) :
    Record α :=
  ⟨"struct " ++ name, fields, build⟩

/-- A variant whose content is a record. Messages name it together with its type. -/
def Variant.ofFields {α : Type} (type name : String) (fields : List Field)
    (build : Row fields → α) : Variant α :=
  ⟨name, .record ⟨"struct variant " ++ type ++ "::" ++ name, fields, build⟩⟩

/-! ## Operators and constants -/

/-- `BinaryOperator` -/
def Operator.variants : List (Variant Operator) :=
  [⟨"Eq", .bare equal⟩, ⟨"NotEq", .bare notEqual⟩, ⟨"Lt", .bare less⟩, ⟨"LtEq", .bare lessEqual⟩,
    ⟨"Gt", .bare greater⟩, ⟨"GtEq", .bare greaterEqual⟩, ⟨"Like", .bare like⟩,
    ⟨"NotLike", .bare notLike⟩, ⟨"Plus", .bare plus⟩, ⟨"Minus", .bare minus⟩,
    ⟨"Multiply", .bare times⟩, ⟨"Divide", .bare dividedBy⟩, ⟨"And", .bare .and⟩, ⟨"Or", .bare .or⟩]

/-- `SetOperator` -/
def SetOperator.variants : List (Variant SetOperator) :=
  [⟨"Union", .bare union⟩, ⟨"Except", .bare except⟩, ⟨"Intersect", .bare intersect⟩]

/-- `OrderDir` -/
def Direction.variants : List (Variant Direction) :=
  [⟨"Asc", .bare ascending⟩, ⟨"Desc", .bare descending⟩]

/-- `Value` -/
def Constant.variants : List (Variant Constant) :=
  [⟨"Long", .value .long long⟩,
    ⟨"Double", .value .double double⟩,
    ⟨"SingleQuotedString", .value .text text⟩,
    ⟨"Boolean", .value .flag boolean⟩,
    ⟨"Null", .bare null⟩]

/-! ## Expressions -/

/-- `Expr` -/
def Expr.variants : List (Variant Expr) :=
  [⟨"Identifier", .value .ident identifier⟩,
    ⟨"CompoundIdentifier", .value (.many .ident) compound⟩,
    ⟨"Wildcard", .bare wildcard⟩,
    ⟨"Value", .value .constant constant⟩,
    ⟨"Function", .value .call call⟩,
    ⟨"BinaryOp", .value .binary binary⟩,
    ⟨"Nested", .value .expr nested⟩,
    .ofFields "Expr" "InSubquery"
      [⟨"expr", .expr⟩, ⟨"subquery", .query⟩, ⟨"negated", .flag⟩]
      fun (operand, subquery, negated, _) => inSubquery operand subquery negated,
    .ofFields "Expr" "Exists"
      [⟨"subquery", .query⟩, ⟨"negated", .flag⟩]
      fun (subquery, negated, _) => existence subquery negated,
    ⟨"Literal", .value .text raw⟩]

/-- `FunctionCall` -/
def Call.record : Record Call :=
  .named "FunctionCall"
    [⟨"name", .qualifiedName⟩, ⟨"args", .many .expr⟩]
    fun (name, args, _) => ⟨name, args⟩

/-- `BinaryOp` -/
def Binary.record : Record Binary :=
  .named "BinaryOp"
    [⟨"left", .expr⟩, ⟨"op", .operator⟩, ⟨"right", .expr⟩]
    fun (left, operator, right, _) => ⟨left, operator, right⟩

/-! ## Relations and joins -/

/-- `TableFactor` -/
def Relation.variants : List (Variant Relation) :=
  [.ofFields "TableFactor" "Table"
      [⟨"name", .qualifiedName⟩, ⟨"alias", .maybe .ident⟩, ⟨"args", .many .expr⟩,
        ⟨"with_hints", .many .expr⟩]
      fun (name, aliasName, args, hints, _) => table name aliasName args hints,
    .ofFields "TableFactor" "Derived"
      [⟨"subquery", .query⟩, ⟨"alias", .maybe .ident⟩]
      fun (subquery, aliasName, _) => derived subquery aliasName]

/-- `JoinConstraint` -/
def JoinCondition.variants : List (Variant JoinCondition) :=
  [⟨"On", .value .expr predicate⟩,
    ⟨"Using", .value (.many .ident) columns⟩,
    ⟨"Natural", .bare natural⟩,
    ⟨"None", .bare absent⟩]

/-- `JoinOperator` -/
def JoinKind.variants : List (Variant JoinKind) :=
  [⟨"Inner", .value .joinCondition inner⟩,
    ⟨"LeftOuter", .value .joinCondition left⟩,
    ⟨"RightOuter", .value .joinCondition right⟩,
    ⟨"FullOuter", .value .joinCondition full⟩,
    ⟨"Cross", .bare cross⟩,
    ⟨"Implicit", .bare comma⟩]

/-- `Join` -/
def Join.record : Record Join :=
  .named "Join"
    [⟨"relation", .relation⟩, ⟨"operator", .joinKind⟩]
    fun (relation, kind, _) => ⟨relation, kind⟩

/-- `TableWithJoins` -/
def FromClause.record : Record FromClause :=
  .named "TableWithJoins"
    [⟨"relation", .relation⟩, ⟨"joins", .many .join⟩]
    fun (relation, joins, _) => ⟨relation, joins⟩

/-! ## Selects, bodies and queries -/

/-- `SelectItem` -/
def SelectItem.variants : List (Variant SelectItem) :=
  [⟨"UnnamedExpr", .value .expr expr⟩,
    .ofFields "SelectItem" "ExprWithAlias"
      [⟨"expr", .expr⟩, ⟨"alias", .ident⟩]
      fun (e, aliasName, _) => aliased e aliasName,
    ⟨"QualifiedWildcard", .value .qualifiedName qualifiedWildcard⟩,
    ⟨"Wildcard", .bare wildcard⟩]

/-- `Select` -/
def Select.record : Record Select :=
  .named "Select"
    [⟨"distinct", .flag⟩, ⟨"projection", .projection⟩, ⟨"from", .maybe .fromClause⟩,
      ⟨"selection", .maybe .expr⟩, ⟨"group_by", .many .expr⟩, ⟨"having", .maybe .expr⟩]
    fun (distinct, projection, source, condition, groupBy, having, _) =>
      ⟨distinct, projection, source, condition, groupBy, having⟩

/-- `SetExpr` -/
def Body.variants : List (Variant Body) :=
  [⟨"Select", .value .select select⟩,
    ⟨"Query", .value .query query⟩,
    .ofFields "SetExpr" "SetOperation"
      [⟨"op", .setOperator⟩, ⟨"all", .flag⟩, ⟨"left", .body⟩, ⟨"right", .body⟩]
      fun (operator, all, left, right, _) => operation operator all left right]

/-- `OrderByExpr` -/
def OrderItem.record : Record OrderItem :=
  .named "OrderByExpr"
    [⟨"expr", .expr⟩, ⟨"direction", .maybe .direction⟩]
    fun (expr, direction, _) => ⟨expr, direction⟩

/-- `Cte` -/
def Cte.record : Record Cte :=
  .named "Cte"
    [⟨"alias", .ident⟩, ⟨"query", .query⟩]
    fun (name, query, _) => ⟨name, query⟩

/-- `Query` -/
def Query.record : Record Query :=
  .named "Query"
    [⟨"ctes", .many .cte⟩, ⟨"body", .body⟩, ⟨"order_by", .many .orderItem⟩,
      ⟨"limit", .maybe .expr⟩, ⟨"offset", .maybe .expr⟩]
    fun (ctes, body, orderBy, limit, offset, _) => ⟨ctes, body, orderBy, limit, offset⟩

/-! ## All kinds -/

/-- How the values of a kind are stored. -/
def Kind.layout : (kind : Kind) → Layout kind.Carrier
  | .text => .text
  | .flag => .flag
  | .long => .long
  | .double => .double
  | .maybe kind => kind.layout.orNull
  | .many kind => .items kind .ok
  | .ident => Layout.text.map Ident.mk
  | .qualifiedName => .nonempty .ident QualifiedName.ofParts
  | .constant => .choice Constant.variants
  | .operator => .choice Operator.variants
  | .setOperator => .choice SetOperator.variants
  | .direction => .choice Direction.variants
  | .expr => .choice Expr.variants
  | .call => .record Call.record
  | .binary => .record Binary.record
  | .relation => .choice Relation.variants
  | .joinCondition => .choice JoinCondition.variants
  | .joinKind => .choice JoinKind.variants
  | .join => .record Join.record
  | .fromClause => .record FromClause.record
  | .selectItem => .choice SelectItem.variants
  | .projection => .nonempty .selectItem Projection.ofItems
  | .select => .record Select.record
  | .body => .choice Body.variants
  | .orderItem => .record OrderItem.record
  | .cte => .record Cte.record
  | .query => .record Query.record

end SqlTree
