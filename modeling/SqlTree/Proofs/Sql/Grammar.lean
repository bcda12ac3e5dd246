import SqlTree.Proofs.Sql.Lexemes
import SqlTree.Proofs.Sql.Reader

/-!
# A grammar for plain trees

One reader for every type, from lexemes to the plain tree they come from. Chains of operators and of
set operations are read from the left, and nothing is ever read twice: what stands in front decides
how to go on, and only a name before `.*` is looked for in advance.

Expressions and queries stand inside each other. The readers of the other types are given readers of
these two (`Readers`), and `readers` ties the knot, for trees up to some depth.
-/

namespace SqlTree

open Reader

/-! ## Leaves -/

/-- A single name. -/
def Ident.reader : Reader Ident
  | .word w :: rest => some (⟨w⟩, rest)
  | _ => none

/-- Names with points between them. -/
def Ident.dottedReader : Reader (List Ident)
  | .word w :: .mark '.' :: rest =>
    (Ident.dottedReader rest).map fun (names, rest) => (⟨w⟩ :: names, rest)
  | .word w :: rest => some ([⟨w⟩], rest)
  | _ => none

/-- Names with a point behind each of them, and a star behind the last. -/
def Ident.starredReader : Reader (List Ident)
  | .word w :: .mark '.' :: .word v :: rest =>
    if v = "*" then some ([⟨w⟩], rest)
    else (Ident.starredReader (.word v :: rest)).map fun (names, rest) => (⟨w⟩ :: names, rest)
  | _ => none

/-- The name with these segments. -/
def QualifiedName.ofNames : List Ident → Reader QualifiedName
  | [] => failure
  | first :: rest => pure ⟨first, rest⟩

/-- The expression that is nothing but names. -/
def Expr.ofNames (name : QualifiedName) : Expr :=
  if name.rest.isEmpty then .identifier name.first else .compound name.parts

/-- Does the text begin like a number? -/
def startsNumber (text : String) : Bool := text.toList.head?.any fun c => c.isDigit || c == '-'

/-- The number that a text is written for. -/
def numberOf (text : String) : Option Int64 :=
  (Json.Numeral.ofText text.toList).integer?.map Int64.ofInt

def Operator.all : List Operator :=
  [.equal, .notEqual, .less, .lessEqual, .greater, .greaterEqual, .like, .notLike, .plus, .minus,
    .times, .dividedBy, .and, .or]

/-! ## Trees -/

/-- Readers of the two types that all others lead back to. -/
structure Readers where
  expr : Reader Expr
  query : Reader Query

namespace Readers

variable (L : Readers)

/-- A call of this name if arguments follow, and otherwise the name itself. -/
def callOrName (name : QualifiedName) : Reader Expr :=
  choose [([.mark '('], (fun args => .call ⟨name, args⟩) <$> enclosed L.expr)]
    (pure (.ofNames name))

/-- A name, or a call if arguments follow. -/
def named : Reader Expr := Ident.dottedReader >>= QualifiedName.ofNames >>= L.callOrName

/-- A text, a number or a name. -/
def leaf : Reader Expr
  | .literal s :: rest => some (.constant (.text s), rest)
  | .word w :: rest =>
    if startsNumber w then (numberOf w).map fun n => (.constant (.long n), rest)
    else L.named (.word w :: rest)
  | _ => none

/-- An expression that is not a chain. -/
def operand : Reader Expr :=
  choose [([.mark '('], .nested <$> closed L.expr),
    (existsLexemes true, (.existence · true) <$> closed L.query),
    (existsLexemes false, (.existence · false) <$> closed L.query),
    ([.word "*"], pure .wildcard),
    ([.word "TRUE"], pure (.constant (.boolean true))),
    ([.word "FALSE"], pure (.constant (.boolean false))),
    ([.word "NULL"], pure (.constant .null))] L.leaf

/-- One more link of a chain. -/
def link (e : Expr) : Reader (Option Expr) :=
  choose ((inLexemes true, (fun q => some (.inSubquery e q true)) <$> closed L.query)
    :: (inLexemes false, (fun q => some (.inSubquery e q false)) <$> closed L.query)
    :: Operator.all.map fun o =>
      (o.lexemes, (fun right => some (.binary ⟨e, o, right⟩)) <$> L.operand)) (pure none)

/-- Any expression. -/
def chain : Reader Expr := L.operand >>= repeatedly L.link

def table : Reader Relation := do
  let name ← Ident.dottedReader >>= QualifiedName.ofNames
  let args ← clause [.mark '('] [.mark ')'] L.expr
  let aliasName ← opened [.word "AS"] Ident.reader
  let hints ← clause [.word "WITH", .mark '('] [.mark ')'] L.expr
  return .table name aliasName args hints

def derived : Reader Relation := do
  let inner ← closed L.query
  let aliasName ← opened [.word "AS"] Ident.reader
  return .derived (.ofBody (.query inner)) aliasName

def relation : Reader Relation := choose [([.mark '('], L.derived)] L.table

def condition : Reader JoinCondition :=
  choose [([.word "ON"], .predicate <$> L.expr),
    ([.word "USING", .mark '('], .columns <$> enclosed Ident.reader)] (pure .absent)

/-- A join of this kind, with whatever condition follows. -/
def conditional (kind : JoinCondition → JoinKind) : Reader Join := do
  let relation ← L.relation
  let c ← L.condition
  return ⟨relation, kind c⟩

/-- A join of this kind, with no condition behind it. -/
def unconditional (kind : JoinKind) : Reader Join := (⟨·, kind⟩) <$> L.relation

def join : Reader (Option Join) :=
  choose [([.word "JOIN"], some <$> L.conditional .inner),
    ([.word "LEFT", .word "JOIN"], some <$> L.conditional .left),
    ([.word "RIGHT", .word "JOIN"], some <$> L.conditional .right),
    ([.word "FULL", .word "JOIN"], some <$> L.conditional .full),
    ([.word "NATURAL", .word "JOIN"], some <$> L.unconditional (.inner .natural)),
    ([.word "NATURAL", .word "LEFT", .word "JOIN"], some <$> L.unconditional (.left .natural)),
    ([.word "NATURAL", .word "RIGHT", .word "JOIN"], some <$> L.unconditional (.right .natural)),
    ([.word "NATURAL", .word "FULL", .word "JOIN"], some <$> L.unconditional (.full .natural)),
    ([.word "CROSS", .word "JOIN"], some <$> L.unconditional .cross),
    ([.mark ','], some <$> L.unconditional .comma)] (pure none)

def fromClause : Reader FromClause := do
  let relation ← L.relation
  let joins ← many L.join
  return ⟨relation, joins⟩

/-- A name with a star behind it. -/
def starred : Reader SelectItem :=
  .qualifiedWildcard <$> (Ident.starredReader >>= QualifiedName.ofNames)

/-- The item that an expression is without an alias. -/
def itemOf : Expr → SelectItem
  | .wildcard => .wildcard
  | e => .expr e

/-- The projection of these items. -/
def itemsOf : List SelectItem → Reader Projection
  | [] => failure
  | first :: rest => pure ⟨first, rest⟩

/-- An expression with or without an alias. -/
def expressionItem : Reader SelectItem := do
  let e ← L.expr
  let aliasName ← opened [.word "AS"] Ident.reader
  return aliasName.elim (itemOf e) (.aliased e)

def selectItem : Reader SelectItem := starred <|> L.expressionItem

def projection : Reader Projection := commaSeparated L.selectItem >>= itemsOf

def select : Reader Select := do
  exactly [.word "SELECT"]
  let distinct ← flag [.word "DISTINCT"]
  let projection ← L.projection
  let source ← opened [.word "FROM"] L.fromClause
  let condition ← opened [.word "WHERE"] L.expr
  let groupBy ← clause [.word "GROUP", .word "BY"] [] L.expr
  let having ← opened [.word "HAVING"] L.expr
  return ⟨distinct, projection, source, condition, groupBy, having⟩

/-- A body that is not a chain. -/
def bodyOperand : Reader Body :=
  choose [([.mark '('], .query <$> closed L.query)] (.select <$> L.select)

/-- A set operation with the body in front of it. -/
def operation (left : Body) (o : SetOperator) : Reader (Option Body) := do
  let all ← flag [.word "ALL"]
  let right ← L.bodyOperand
  return some (.operation o all left right)

/-- One more link of a chain of set operations. -/
def bodyLink (left : Body) : Reader (Option Body) :=
  choose [([.word "UNION"], L.operation left .union),
    ([.word "EXCEPT"], L.operation left .except),
    ([.word "INTERSECT"], L.operation left .intersect)] (pure none)

def body : Reader Body := L.bodyOperand >>= repeatedly L.bodyLink

def orderItem : Reader OrderItem := do
  let e ← L.expr
  let direction ← choose [([.word "ASC"], pure (some .ascending)),
    ([.word "DESC"], pure (some .descending))] (pure none)
  return ⟨e, direction⟩

def cte : Reader Cte := do
  let name ← Ident.reader
  exactly [.word "AS", .mark '(']
  let query ← closed L.query
  return ⟨name, query⟩

/-- Any query. -/
def whole : Reader Query := do
  let ctes ← clause [.word "WITH"] [] L.cte
  let body ← L.body
  let orderBy ← clause [.word "ORDER", .word "BY"] [] L.orderItem
  let limit ← opened [.word "LIMIT"] L.expr
  let offset ← opened [.word "OFFSET"] L.expr
  return ⟨ctes, body, orderBy, limit, offset⟩

end Readers

/-- The readers for trees up to some depth. -/
def readers : Nat → Readers
  | 0 => ⟨failure, failure⟩
  | n + 1 => ⟨(readers n).chain, (readers n).whole⟩

end SqlTree
