import SqlTree.Json.Document
import SqlTree.Storage.Tree

/-!
# Storing trees

Each type has one document: every member is written, in the order of the fields, and a variant
without content is its name. Trees are compared through their documents too, so that two trees are
the same when they are stored the same, save that a double is compared as a number.
-/

namespace SqlTree

open Json

/-! ## Leaves -/

def Ident.document (i : Ident) : Document := .text i.text

def QualifiedName.document (n : QualifiedName) : Document := .list (n.parts.map Ident.document)

def Constant.document : Constant → Document
  | .long n => .tagged "Long" (.integer n.toInt)
  | .double x => .tagged "Double" (.double x)
  | .text s => .tagged "SingleQuotedString" (.text s)
  | .boolean b => .tagged "Boolean" (.boolean b)
  | .null => .text "Null"

def Operator.document : Operator → Document
  | .equal => .text "Eq"
  | .notEqual => .text "NotEq"
  | .less => .text "Lt"
  | .lessEqual => .text "LtEq"
  | .greater => .text "Gt"
  | .greaterEqual => .text "GtEq"
  | .like => .text "Like"
  | .notLike => .text "NotLike"
  | .plus => .text "Plus"
  | .minus => .text "Minus"
  | .times => .text "Multiply"
  | .dividedBy => .text "Divide"
  | .and => .text "And"
  | .or => .text "Or"

def SetOperator.document : SetOperator → Document
  | .union => .text "Union"
  | .except => .text "Except"
  | .intersect => .text "Intersect"

def Direction.document : Direction → Document
  | .ascending => .text "Asc"
  | .descending => .text "Desc"

/-! ## Trees -/

mutual

def Expr.document : Expr → Document
  | .identifier name => .tagged "Identifier" name.document
  | .compound parts => .tagged "CompoundIdentifier" (.list (parts.map Ident.document))
  | .wildcard => .text "Wildcard"
  | .constant value => .tagged "Value" value.document
  | .call c => .tagged "Function" c.document
  | .binary o => .tagged "BinaryOp" o.document
  | .nested inner => .tagged "Nested" inner.document
  | .inSubquery operand subquery negated => .tagged "InSubquery" (.object
      [("expr", operand.document), ("subquery", subquery.document), ("negated", .boolean negated)])
  | .existence subquery negated => .tagged "Exists" (.object
      [("subquery", subquery.document), ("negated", .boolean negated)])
  | .raw sql => .tagged "Literal" (.text sql)

def Call.document : Call → Document
  | ⟨name, args⟩ => .object [("name", name.document), ("args", .list (Expr.documents args))]

def Binary.document : Binary → Document
  | ⟨left, operator, right⟩ => .object
      [("left", left.document), ("op", operator.document), ("right", right.document)]

def Relation.document : Relation → Document
  | .table name aliasName args hints => .tagged "Table" (.object
      [("name", name.document), ("alias", .ofOption (aliasName.map Ident.document)),
        ("args", .list (Expr.documents args)), ("with_hints", .list (Expr.documents hints))])
  | .derived subquery aliasName => .tagged "Derived" (.object
      [("subquery", subquery.document), ("alias", .ofOption (aliasName.map Ident.document))])

def JoinCondition.document : JoinCondition → Document
  | .predicate e => .tagged "On" e.document
  | .columns names => .tagged "Using" (.list (names.map Ident.document))
  | .natural => .text "Natural"
  | .absent => .text "None"

def JoinKind.document : JoinKind → Document
  | .inner condition => .tagged "Inner" condition.document
  | .left condition => .tagged "LeftOuter" condition.document
  | .right condition => .tagged "RightOuter" condition.document
  | .full condition => .tagged "FullOuter" condition.document
  | .cross => .text "Cross"
  | .comma => .text "Implicit"

def Join.document : Join → Document
  | ⟨relation, kind⟩ => .object [("relation", relation.document), ("operator", kind.document)]

def FromClause.document : FromClause → Document
  | ⟨relation, joins⟩ => .object
      [("relation", relation.document), ("joins", .list (Join.documents joins))]

def SelectItem.document : SelectItem → Document
  | .expr e => .tagged "UnnamedExpr" e.document
  | .aliased e aliasName => .tagged "ExprWithAlias" (.object
      [("expr", e.document), ("alias", aliasName.document)])
  | .qualifiedWildcard qualifier => .tagged "QualifiedWildcard" qualifier.document
  | .wildcard => .text "Wildcard"

def Projection.document : Projection → Document
  | ⟨first, rest⟩ => .list (first.document :: SelectItem.documents rest)

def Select.document : Select → Document
  | ⟨distinct, projection, source, condition, groupBy, having⟩ => .object
      [("distinct", .boolean distinct), ("projection", projection.document),
        ("from", .ofOption (FromClause.document? source)),
        ("selection", .ofOption (Expr.document? condition)),
        ("group_by", .list (Expr.documents groupBy)), ("having", .ofOption (Expr.document? having))]

def Body.document : Body → Document
  | .select s => .tagged "Select" s.document
  | .query q => .tagged "Query" q.document
  | .operation operator all left right => .tagged "SetOperation" (.object
      [("op", operator.document), ("all", .boolean all), ("left", left.document),
        ("right", right.document)])

def OrderItem.document : OrderItem → Document
  | ⟨expr, direction⟩ => .object
      [("expr", expr.document), ("direction", .ofOption (direction.map Direction.document))]

def Cte.document : Cte → Document
  | ⟨name, query⟩ => .object [("alias", name.document), ("query", query.document)]

def Query.document : Query → Document
  | ⟨ctes, body, orderBy, limit, offset⟩ => .object
      [("ctes", .list (Cte.documents ctes)), ("body", body.document),
        ("order_by", .list (OrderItem.documents orderBy)),
        ("limit", .ofOption (Expr.document? limit)), ("offset", .ofOption (Expr.document? offset))]

def Expr.documents : List Expr → List Document
  | [] => []
  | e :: rest => e.document :: Expr.documents rest

def Expr.document? : Option Expr → Option Document
  | none => none
  | some e => some e.document

def FromClause.document? : Option FromClause → Option Document
  | none => none
  | some f => some f.document

def Join.documents : List Join → List Document
  | [] => []
  | j :: rest => j.document :: Join.documents rest

def SelectItem.documents : List SelectItem → List Document
  | [] => []
  | i :: rest => i.document :: SelectItem.documents rest

def OrderItem.documents : List OrderItem → List Document
  | [] => []
  | o :: rest => o.document :: OrderItem.documents rest

def Cte.documents : List Cte → List Document
  | [] => []
  | c :: rest => c.document :: Cte.documents rest

end

/-! ## All kinds -/

/-- The document of a value of any kind. -/
def Kind.document : (kind : Kind) → kind.Carrier → Document
  | .text => .text
  | .flag => .boolean
  | .long => fun n => .integer n.toInt
  | .double => .double
  | .maybe kind => fun value => .ofOption (value.map kind.document)
  | .many kind => fun values => .list (values.map kind.document)
  | .ident => Ident.document
  | .qualifiedName => QualifiedName.document
  | .constant => Constant.document
  | .operator => Operator.document
  | .setOperator => SetOperator.document
  | .direction => Direction.document
  | .expr => Expr.document
  | .call => Call.document
  | .binary => Binary.document
  | .relation => Relation.document
  | .joinCondition => JoinCondition.document
  | .joinKind => JoinKind.document
  | .join => Join.document
  | .fromClause => FromClause.document
  | .selectItem => SelectItem.document
  | .projection => Projection.document
  | .select => Select.document
  | .body => Body.document
  | .orderItem => OrderItem.document
  | .cte => Cte.document
  | .query => Query.document

/-- The text that a value of any kind is stored as. -/
def Kind.stored (kind : Kind) (value : kind.Carrier) : String :=
  String.ofList (kind.document value).print

/-- Are two values of a kind the same? Doubles are compared as numbers: the two zeros are the same,
and a NaN makes every value that holds it differ even from itself. -/
def Kind.same (kind : Kind) (a b : kind.Carrier) : Bool := (kind.document a).same (kind.document b)

end SqlTree
