import SqlTree.Tree

/-!
# The text of a tree

The SQL of every type as a plain text, put together from the texts of its parts: what is written
down for a clause that is present, and nothing for one that is absent. There is no buffer here, so
that these definitions say what writing has to append. They share nothing with the writer, not even
the words for operators and directions: each is the template in its docstring, where brackets stand
around what may be absent.
-/

namespace SqlTree

/-! ## Templates -/

namespace Template

/-- Texts with a separator between neighbours. -/
def joined (separator : String) : List String → String
  | [] => ""
  | [t] => t
  | t :: rest => t ++ separator ++ joined separator rest

/-- A clause whose list is not empty. -/
def listClause (opening closing : String) : List String → String
  | [] => ""
  | t :: rest => opening ++ joined ", " (t :: rest) ++ closing

/-- A clause that is present. -/
def optionalClause (keyword : String) : Option String → String
  | none => ""
  | some t => keyword ++ t

/-- Characters with every quote among them doubled. -/
def doubled : List Char → List Char
  | [] => []
  | '\x27' :: cs => '\x27' :: '\x27' :: doubled cs
  | c :: cs => c :: doubled cs

theorem doubled_cons (c : Char) (cs : List Char) :
    doubled (c :: cs) = (if c = '\x27' then [c, c] else [c]) ++ doubled cs := by
  by_cases hc : c = '\x27'
  · rw [if_pos hc, hc]
    rfl
  · rw [if_neg hc, doubled, List.singleton_append]
    exact hc

/-- The literal of a text: the text between quotes, those inside doubled. -/
def quoted (s : String) : String := "\x27" ++ String.ofList (doubled s.toList) ++ "\x27"

end Template

open Template

/-! ## Leaves -/

/-- The name as it is. -/
def Ident.sqlText (i : Ident) : String := i.text

/-- The segments, joined by `.` -/
def QualifiedName.sqlText (n : QualifiedName) : String := joined "." (n.parts.map Ident.sqlText)

/-- Decimal text, `'<text>'`, `TRUE`, `FALSE` or `NULL`. -/
def Constant.sqlText : Constant → String
  | .long n => toString n.toInt
  | .double x => x.sql
  | .text s => quoted s
  | .boolean b => if b then "TRUE" else "FALSE"
  | .null => "NULL"

/-- The `<op>` of a binary operation. -/
def Operator.sqlText : Operator → String
  | .equal => "="
  | .notEqual => "<>"
  | .less => "<"
  | .lessEqual => "<="
  | .greater => ">"
  | .greaterEqual => ">="
  | .like => "LIKE"
  | .notLike => "NOT LIKE"
  | .plus => "+"
  | .minus => "-"
  | .times => "*"
  | .dividedBy => "/"
  | .and => "AND"
  | .or => "OR"

/-- The `<op>` of a set operation. -/
def SetOperator.sqlText : SetOperator → String
  | .union => "UNION"
  | .except => "EXCEPT"
  | .intersect => "INTERSECT"

/-- What may stand behind an expression in an ordering: `ASC` or `DESC`. -/
def Direction.sqlText : Direction → String
  | .ascending => "ASC"
  | .descending => "DESC"

/-- The prefix of a join: `NATURAL ` or nothing. -/
def JoinCondition.adverb : JoinCondition → String
  | .natural => "NATURAL "
  | _ => ""

/-! ## Trees -/

mutual

/-- What it is made of, or `(<expr>)`, `<expr>[ NOT] IN (<query>)`, `[NOT ]EXISTS (<query>)`. -/
def Expr.sqlText : Expr → String
  | .identifier name => name.sqlText
  | .compound parts => joined "." (parts.map Ident.sqlText)
  | .wildcard => "*"
  | .constant value => value.sqlText
  | .call c => c.sqlText
  | .binary o => o.sqlText
  | .nested inner => "(" ++ inner.sqlText ++ ")"
  | .inSubquery operand subquery negated =>
    operand.sqlText ++ (if negated then " NOT" else "") ++ " IN (" ++ subquery.sqlText ++ ")"
  | .existence subquery negated =>
    (if negated then "NOT " else "") ++ "EXISTS (" ++ subquery.sqlText ++ ")"
  | .raw sql => sql

/-- A call: `<name>(<args>)`. -/
def Call.sqlText : Call → String
  | ⟨name, args⟩ => name.sqlText ++ "(" ++ joined ", " (Expr.sqlTexts args) ++ ")"

/-- A binary operation: `<left> <op> <right>`. -/
def Binary.sqlText : Binary → String
  | ⟨left, operator, right⟩ => left.sqlText ++ " " ++ operator.sqlText ++ " " ++ right.sqlText

/-- A table or a subquery: `<name>[(<args>)][ AS <alias>][ WITH (<hints>)]` or
`<query>[ AS <alias>]`. -/
def Relation.sqlText : Relation → String
  | .table name aliasName args hints =>
    name.sqlText ++ listClause "(" ")" (Expr.sqlTexts args)
      ++ optionalClause " AS " (aliasName.map Ident.sqlText)
      ++ listClause " WITH (" ")" (Expr.sqlTexts hints)
  | .derived subquery aliasName =>
    subquery.sqlText ++ optionalClause " AS " (aliasName.map Ident.sqlText)

/-- The suffix of a join: ` ON <p>`, ` USING(<columns>)` or nothing. -/
def JoinCondition.sqlText : JoinCondition → String
  | .predicate e => " ON " ++ e.sqlText
  | .columns names => " USING(" ++ joined ", " (names.map Ident.sqlText) ++ ")"
  | .natural => ""
  | .absent => ""

/-- A join: ` <prefix>[LEFT |RIGHT |FULL ]JOIN <relation><suffix>`, ` CROSS JOIN <relation>` or
`, <relation>`. -/
def Join.sqlText : Join → String
  | ⟨relation, .inner c⟩ => " " ++ c.adverb ++ "JOIN " ++ relation.sqlText ++ c.sqlText
  | ⟨relation, .left c⟩ => " " ++ c.adverb ++ "LEFT JOIN " ++ relation.sqlText ++ c.sqlText
  | ⟨relation, .right c⟩ => " " ++ c.adverb ++ "RIGHT JOIN " ++ relation.sqlText ++ c.sqlText
  | ⟨relation, .full c⟩ => " " ++ c.adverb ++ "FULL JOIN " ++ relation.sqlText ++ c.sqlText
  | ⟨relation, .cross⟩ => " CROSS JOIN " ++ relation.sqlText
  | ⟨relation, .comma⟩ => ", " ++ relation.sqlText

/-- A relation and its joins: `<relation><joins>`. -/
def FromClause.sqlText : FromClause → String
  | ⟨relation, joins⟩ => relation.sqlText ++ joined "" (Join.sqlTexts joins)

/-- An item: `<expr>[ AS <alias>]`, `<prefix>.*` or `*`. -/
def SelectItem.sqlText : SelectItem → String
  | .expr e => e.sqlText
  | .aliased e aliasName => e.sqlText ++ " AS " ++ aliasName.sqlText
  | .qualifiedWildcard qualifier => qualifier.sqlText ++ ".*"
  | .wildcard => "*"

/-- The items, separated by `, ` -/
def Projection.sqlText : Projection → String
  | ⟨first, rest⟩ => joined ", " (first.sqlText :: SelectItem.sqlTexts rest)

/-- A select:
`SELECT [DISTINCT ]<items>[ FROM <from>][ WHERE <p>][ GROUP BY <exprs>][ HAVING <p>]`. -/
def Select.sqlText : Select → String
  | ⟨distinct, projection, source, condition, groupBy, having⟩ =>
    "SELECT " ++ (if distinct then "DISTINCT " else "") ++ projection.sqlText
      ++ optionalClause " FROM " (FromClause.sqlText? source)
      ++ optionalClause " WHERE " (Expr.sqlText? condition)
      ++ listClause " GROUP BY " "" (Expr.sqlTexts groupBy)
      ++ optionalClause " HAVING " (Expr.sqlText? having)

/-- A body: `<select>`, `(<query>)` or `<left> <op>[ ALL] <right>`. -/
def Body.sqlText : Body → String
  | .select s => s.sqlText
  | .query q => "(" ++ q.sqlText ++ ")"
  | .operation operator all left right =>
    left.sqlText ++ " " ++ operator.sqlText ++ (if all then " ALL" else "") ++ " " ++ right.sqlText

/-- An entry of an ordering: `<expr>[ ASC|DESC]`. -/
def OrderItem.sqlText : OrderItem → String
  | ⟨expr, direction⟩ => expr.sqlText ++ optionalClause " " (direction.map Direction.sqlText)

/-- A named query: `<alias> AS (<query>)`. -/
def Cte.sqlText : Cte → String
  | ⟨name, query⟩ => name.sqlText ++ " AS (" ++ query.sqlText ++ ")"

/-- A query: `[WITH <ctes> ]<body>[ ORDER BY <items>][ LIMIT <expr>][ OFFSET <expr>]`. -/
def Query.sqlText : Query → String
  | ⟨ctes, body, orderBy, limit, offset⟩ =>
    listClause "WITH " " " (Cte.sqlTexts ctes) ++ body.sqlText
      ++ listClause " ORDER BY " "" (OrderItem.sqlTexts orderBy)
      ++ optionalClause " LIMIT " (Expr.sqlText? limit)
      ++ optionalClause " OFFSET " (Expr.sqlText? offset)

def Expr.sqlTexts : List Expr → List String
  | [] => []
  | e :: rest => e.sqlText :: Expr.sqlTexts rest

def Expr.sqlText? : Option Expr → Option String
  | none => none
  | some e => some e.sqlText

def FromClause.sqlText? : Option FromClause → Option String
  | none => none
  | some f => some f.sqlText

def Join.sqlTexts : List Join → List String
  | [] => []
  | j :: rest => j.sqlText :: Join.sqlTexts rest

def SelectItem.sqlTexts : List SelectItem → List String
  | [] => []
  | i :: rest => i.sqlText :: SelectItem.sqlTexts rest

def OrderItem.sqlTexts : List OrderItem → List String
  | [] => []
  | o :: rest => o.sqlText :: OrderItem.sqlTexts rest

def Cte.sqlTexts : List Cte → List String
  | [] => []
  | c :: rest => c.sqlText :: Cte.sqlTexts rest

end

end SqlTree
