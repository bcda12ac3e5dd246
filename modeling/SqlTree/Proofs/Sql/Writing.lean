import SqlTree.Node
import SqlTree.Proofs.Tree.Leaves
import SqlTree.Sql.Text

/-!
# Writing appends the text of a tree

A writer of a tree is the step that appends one text, `sqlText` of that tree, whatever the buffer
holds. The combinators of `Buffer` turn such steps into such steps (`separated_ofText`,
`listed_ofText`, `optional_ofText`), and the words of the writer are those of the templates
(`quote_eq`, `symbol_eq`, `keyword_eq`), so one induction over the tree settles every type at once
(`Expr.write_eq`, …, `Query.write_eq`).

A shared buffer then holds, after any run of actions, what it held before and the texts of the
actions in their order (`sql_foldl_perform`).
-/

namespace SqlTree

open Template

/-- The step that appends a text. -/
def Writer.ofText (text : String) : Writer := fun b => b.push text

@[simp] theorem Writer.ofText_apply (text : String) (b : Buffer) :
    Writer.ofText text b = b.push text := rfl

theorem Writer.eq_ofText {w : Writer} {text : String} (h : ∀ b : Buffer, w b = b.push text) :
    w = Writer.ofText text := funext h

/-! ## The combinators -/

namespace Buffer

@[simp] theorem push_push (b : Buffer) (s t : String) : (b.push s).push t = b.push (s ++ t) := by
  simp [push, String.append_assoc]

@[simp] theorem push_empty (b : Buffer) : b.push "" = b := by
  simp [push]

theorem followedBy_ofText (separator : String) (texts : List String) (b : Buffer) (t : String) :
    followedBy separator (texts.map Writer.ofText) (b.push t)
      = b.push (joined separator (t :: texts)) := by
  induction texts generalizing t with
  | nil => rfl
  | cons u rest ih =>
    calc followedBy separator ((u :: rest).map Writer.ofText) (b.push t)
        = followedBy separator (rest.map Writer.ofText) (b.push (t ++ separator ++ u)) := by
          simp only [List.map_cons, followedBy, Writer.ofText, push_push]
      _ = b.push (joined separator ((t ++ separator ++ u) :: rest)) := ih _
      _ = b.push (joined separator (t :: u :: rest)) := by
          cases rest <;> simp [joined, String.append_assoc]

@[simp] theorem separated_ofText (separator : String) (texts : List String) :
    separated separator (texts.map Writer.ofText) = Writer.ofText (joined separator texts) := by
  funext b
  cases texts with
  | nil => simp [separated, joined]
  | cons t rest => simp only [List.map_cons, separated, Writer.ofText, followedBy_ofText]

@[simp] theorem listed_ofText (opening closing : String) (texts : List String) :
    listed opening closing (texts.map Writer.ofText)
      = Writer.ofText (listClause opening closing texts) := by
  funext b
  cases texts with
  | nil => simp [listed, listClause]
  | cons t rest =>
    rw [List.map_cons, listed, ← List.map_cons, separated_ofText]
    simp [listClause, String.append_assoc]

@[simp] theorem optional_ofText (keyword : String) (text : Option String) :
    optional keyword (text.map Writer.ofText) = Writer.ofText (optionalClause keyword text) := by
  funext b
  cases text <;> simp [optional, optionalClause]

end Buffer

/-! ## Leaves -/

theorem Ident.write_eq (i : Ident) (b : Buffer) : i.write b = b.push i.sqlText := rfl

theorem Ident.map_write (is : List Ident) :
    is.map Ident.write = (is.map Ident.sqlText).map Writer.ofText := by
  simp [Writer.eq_ofText (Ident.write_eq _), Function.comp_def]

theorem Ident.map_write? (i : Option Ident) :
    i.map Ident.write = (i.map Ident.sqlText).map Writer.ofText := by
  cases i <;> rfl

theorem QualifiedName.write_eq (n : QualifiedName) (b : Buffer) :
    n.write b = b.push n.sqlText := by
  rw [QualifiedName.write, Ident.map_write, Buffer.separated_ofText, Writer.ofText_apply,
    QualifiedName.sqlText]

theorem Constant.flatMap_double (cs : List Char) : cs.flatMap quote.double = doubled cs := by
  induction cs with
  | nil => rfl
  | cons c cs ih => rw [List.flatMap_cons, ih, quote.double, doubled_cons]

theorem Constant.quote_eq (s : String) : quote s = quoted s := by
  rw [quote, flatMap_double, quoted]
  apply String.toList_inj.1
  simp

theorem Constant.write_eq : ∀ (c : Constant) (b : Buffer), c.write b = b.push c.sqlText
  | .long _, _ => rfl
  | .double _, _ => rfl
  | .text s, b => by
    rw [Constant.write, quote_eq, Constant.sqlText]
  | .boolean true, _ => rfl
  | .boolean false, _ => rfl
  | .null, _ => rfl

theorem Operator.symbol_eq (o : Operator) : o.symbol = o.sqlText := by
  cases o <;> rfl

theorem SetOperator.keyword_eq (o : SetOperator) : o.keyword = o.sqlText := by
  cases o <;> rfl

theorem SetOperator.write_eq (o : SetOperator) (b : Buffer) : o.write b = b.push o.sqlText := by
  rw [SetOperator.write, o.keyword_eq]

theorem Direction.keyword_eq (d : Direction) : d.keyword = d.sqlText := by
  cases d <;> rfl

theorem Direction.map_write? (d : Option Direction) :
    (d.map fun d (b : Buffer) => b.push d.keyword)
      = (d.map Direction.sqlText).map Writer.ofText := by
  cases d with
  | none => rfl
  | some d =>
    simp only [Option.map_some, d.keyword_eq]
    rfl

theorem JoinCondition.lead_eq (c : JoinCondition) (keyword : String) (b : Buffer) :
    c.lead keyword b = b.push (" " ++ c.adverb ++ keyword) := by
  cases c <;> simp [JoinCondition.lead, JoinCondition.adverb]

/-! ## Trees -/

mutual

theorem Expr.write_eq : ∀ (e : Expr) (b : Buffer), e.write b = b.push e.sqlText
  | .identifier _, _ => rfl
  | .compound parts, b => by
    rw [Expr.write, Ident.map_write, Buffer.separated_ofText, Writer.ofText_apply, Expr.sqlText]
  | .wildcard, _ => rfl
  | .constant value, b => by
    rw [Expr.write, value.write_eq, Expr.sqlText]
  | .call c, b => by
    rw [Expr.write, c.write_eq, Expr.sqlText]
  | .binary o, b => by
    rw [Expr.write, o.write_eq, Expr.sqlText]
  | .nested inner, b => by
    simp [Expr.write, inner.write_eq, Expr.sqlText]
  | .inSubquery operand subquery negated, b => by
    cases negated <;>
      simp [Expr.write, operand.write_eq, subquery.write_eq, Expr.sqlText, String.append_assoc]
  | .existence subquery negated, b => by
    cases negated <;> simp [Expr.write, subquery.write_eq, Expr.sqlText, String.append_assoc]
  | .raw _, _ => rfl

theorem Call.write_eq : ∀ (c : Call) (b : Buffer), c.write b = b.push c.sqlText
  | ⟨name, args⟩, b => by
    simp [Call.write, name.write_eq, Expr.map_write args, Call.sqlText, String.append_assoc]

theorem Binary.write_eq : ∀ (o : Binary) (b : Buffer), o.write b = b.push o.sqlText
  | ⟨left, operator, right⟩, b => by
    simp [Binary.write, left.write_eq, right.write_eq, operator.symbol_eq, Binary.sqlText,
      String.append_assoc]

theorem Relation.write_eq : ∀ (r : Relation) (b : Buffer), r.write b = b.push r.sqlText
  | .table name aliasName args hints, b => by
    simp only [Relation.write, name.write_eq, Expr.writers_eq_map, Expr.map_write args,
      Expr.map_write hints, Ident.map_write?, Buffer.listed_ofText, Buffer.optional_ofText,
      Writer.ofText_apply, Buffer.push_push, Relation.sqlText]
  | .derived subquery aliasName, b => by
    simp only [Relation.write, subquery.write_eq, Ident.map_write?, Buffer.optional_ofText,
      Writer.ofText_apply, Buffer.push_push, Relation.sqlText]

theorem JoinCondition.write_eq : ∀ (c : JoinCondition) (b : Buffer), c.write b = b.push c.sqlText
  | .predicate e, b => by
    simp [JoinCondition.write, e.write_eq, JoinCondition.sqlText]
  | .columns names, b => by
    simp only [JoinCondition.write, Ident.map_write, Buffer.separated_ofText, Writer.ofText_apply,
      Buffer.push_push, JoinCondition.sqlText]
  | .natural, b => by
    simp [JoinCondition.write, JoinCondition.sqlText]
  | .absent, b => by
    simp [JoinCondition.write, JoinCondition.sqlText]

theorem Join.write_eq : ∀ (j : Join) (b : Buffer), j.write b = b.push j.sqlText
  | ⟨relation, .inner c⟩, b | ⟨relation, .left c⟩, b | ⟨relation, .right c⟩, b
  | ⟨relation, .full c⟩, b => by
    simp [Join.write, c.lead_eq, relation.write_eq, c.write_eq, Join.sqlText]
  | ⟨relation, .cross⟩, b | ⟨relation, .comma⟩, b => by
    simp [Join.write, relation.write_eq, Join.sqlText]

theorem FromClause.write_eq : ∀ (f : FromClause) (b : Buffer), f.write b = b.push f.sqlText
  | ⟨relation, joins⟩, b => by
    simp [FromClause.write, relation.write_eq, Join.writeAll_eq joins, FromClause.sqlText]

theorem SelectItem.write_eq : ∀ (i : SelectItem) (b : Buffer), i.write b = b.push i.sqlText
  | .expr e, b => by
    rw [SelectItem.write, e.write_eq, SelectItem.sqlText]
  | .aliased e aliasName, b => by
    simp [SelectItem.write, e.write_eq, aliasName.write_eq, SelectItem.sqlText]
  | .qualifiedWildcard qualifier, b => by
    simp [SelectItem.write, qualifier.write_eq, SelectItem.sqlText]
  | .wildcard, _ => rfl

theorem Projection.write_eq : ∀ (p : Projection) (b : Buffer), p.write b = b.push p.sqlText
  | ⟨first, rest⟩, b => by
    rw [Projection.write, SelectItem.writers_eq_map, Writer.eq_ofText first.write_eq,
      SelectItem.map_write rest, ← List.map_cons, Buffer.separated_ofText, Writer.ofText_apply,
      Projection.sqlText]

theorem Select.write_eq : ∀ (s : Select) (b : Buffer), s.write b = b.push s.sqlText
  | ⟨distinct, projection, source, condition, groupBy, having⟩, b => by
    cases distinct <;>
      simp [Select.write, projection.write_eq, FromClause.map_write? source,
        Expr.map_write? condition, Expr.map_write groupBy, Expr.map_write? having,
        Select.sqlText, String.append_assoc, -List.map_map, -Option.map_map]

theorem Body.write_eq : ∀ (body : Body) (b : Buffer), body.write b = b.push body.sqlText
  | .select s, b => by
    rw [Body.write, s.write_eq, Body.sqlText]
  | .query q, b => by
    simp [Body.write, q.write_eq, Body.sqlText]
  | .operation operator all left right, b => by
    cases all <;>
      simp [Body.write, operator.write_eq, left.write_eq, right.write_eq, Body.sqlText,
        String.append_assoc]

theorem OrderItem.write_eq : ∀ (o : OrderItem) (b : Buffer), o.write b = b.push o.sqlText
  | ⟨expr, direction⟩, b => by
    rw [OrderItem.write, expr.write_eq, Direction.map_write?, Buffer.optional_ofText]
    simp [OrderItem.sqlText]

theorem Cte.write_eq : ∀ (c : Cte) (b : Buffer), c.write b = b.push c.sqlText
  | ⟨name, query⟩, b => by
    simp [Cte.write, name.write_eq, query.write_eq, Cte.sqlText]

theorem Query.write_eq : ∀ (q : Query) (b : Buffer), q.write b = b.push q.sqlText
  | ⟨ctes, body, orderBy, limit, offset⟩, b => by
    simp [Query.write, Cte.map_write ctes, body.write_eq, OrderItem.map_write orderBy,
      Expr.map_write? limit, Expr.map_write? offset, Query.sqlText, -List.map_map, -Option.map_map]

theorem Expr.map_write : ∀ es : List Expr,
    es.map Expr.write = (Expr.sqlTexts es).map Writer.ofText
  | [] => rfl
  | e :: rest => by
    rw [List.map_cons, Writer.eq_ofText e.write_eq, Expr.map_write rest, Expr.sqlTexts,
      List.map_cons]

theorem Expr.map_write? : ∀ e : Option Expr,
    e.map Expr.write = (Expr.sqlText? e).map Writer.ofText
  | none => rfl
  | some e => by rw [Option.map_some, Writer.eq_ofText e.write_eq, Expr.sqlText?, Option.map_some]

theorem FromClause.map_write? : ∀ f : Option FromClause,
    f.map FromClause.write = (FromClause.sqlText? f).map Writer.ofText
  | none => rfl
  | some f => by
    rw [Option.map_some, Writer.eq_ofText f.write_eq, FromClause.sqlText?, Option.map_some]

theorem Join.writeAll_eq : ∀ (js : List Join) (b : Buffer),
    Join.writeAll js b = b.push (joined "" (Join.sqlTexts js))
  | [], b => by simp [Join.writeAll, Join.sqlTexts, joined]
  | [j], b => by simp [Join.writeAll, j.write_eq, Join.sqlTexts, joined]
  | j :: k :: rest, b => by
    rw [Join.writeAll, j.write_eq, Join.writeAll_eq (k :: rest)]
    simp [Join.sqlTexts, joined]

theorem SelectItem.map_write : ∀ items : List SelectItem,
    items.map SelectItem.write = (SelectItem.sqlTexts items).map Writer.ofText
  | [] => rfl
  | i :: rest => by
    rw [List.map_cons, Writer.eq_ofText i.write_eq, SelectItem.map_write rest,
      SelectItem.sqlTexts, List.map_cons]

theorem OrderItem.map_write : ∀ items : List OrderItem,
    items.map OrderItem.write = (OrderItem.sqlTexts items).map Writer.ofText
  | [] => rfl
  | o :: rest => by
    rw [List.map_cons, Writer.eq_ofText o.write_eq, OrderItem.map_write rest,
      OrderItem.sqlTexts, List.map_cons]

theorem Cte.map_write : ∀ ctes : List Cte,
    ctes.map Cte.write = (Cte.sqlTexts ctes).map Writer.ofText
  | [] => rfl
  | c :: rest => by
    rw [List.map_cons, Writer.eq_ofText c.write_eq, Cte.map_write rest, Cte.sqlTexts,
      List.map_cons]

end

/-! ## Lists of subtrees -/

theorem Expr.sqlTexts_eq (es : List Expr) : Expr.sqlTexts es = es.map Expr.sqlText :=
  eq_map rfl (fun _ _ => rfl) es

theorem Join.sqlTexts_eq (js : List Join) : Join.sqlTexts js = js.map Join.sqlText :=
  eq_map rfl (fun _ _ => rfl) js

theorem SelectItem.sqlTexts_eq (items : List SelectItem) :
    SelectItem.sqlTexts items = items.map SelectItem.sqlText := eq_map rfl (fun _ _ => rfl) items

theorem OrderItem.sqlTexts_eq (items : List OrderItem) :
    OrderItem.sqlTexts items = items.map OrderItem.sqlText := eq_map rfl (fun _ _ => rfl) items

theorem Cte.sqlTexts_eq (ctes : List Cte) : Cte.sqlTexts ctes = ctes.map Cte.sqlText :=
  eq_map rfl (fun _ _ => rfl) ctes

/-! ## Nodes -/

/-- The text of the trees of a kind, if they are written as SQL. -/
def Kind.sqlText? : (kind : Kind) → Option (kind.Carrier → String)
  | .ident => some Ident.sqlText
  | .qualifiedName => some QualifiedName.sqlText
  | .constant => some Constant.sqlText
  | .setOperator => some SetOperator.sqlText
  | .expr => some Expr.sqlText
  | .call => some Call.sqlText
  | .binary => some Binary.sqlText
  | .relation => some Relation.sqlText
  | .joinCondition => some JoinCondition.sqlText
  | .join => some Join.sqlText
  | .fromClause => some FromClause.sqlText
  | .selectItem => some SelectItem.sqlText
  | .select => some Select.sqlText
  | .body => some Body.sqlText
  | .orderItem => some OrderItem.sqlText
  | .cte => some Cte.sqlText
  | .query => some Query.sqlText
  | .text | .flag | .long | .double | .maybe _ | .many _ | .operator | .direction | .joinKind
  | .projection => none

namespace Node

/-- The text of a node that is written as SQL. -/
def sqlText? (n : Node) : Option String := n.kind.sqlText?.map fun sqlText => sqlText n.tree

/-- The text of a node; a node that has no SQL leaves none. -/
def sqlText (n : Node) : String := n.sqlText?.getD ""

theorem writer?_eq (n : Node) : n.writer? = n.sqlText?.map Writer.ofText := by
  obtain ⟨kind, tree⟩ := n
  cases kind with
  | ident => exact congrArg some (Writer.eq_ofText (Ident.write_eq tree))
  | qualifiedName => exact congrArg some (Writer.eq_ofText (QualifiedName.write_eq tree))
  | constant => exact congrArg some (Writer.eq_ofText (Constant.write_eq tree))
  | setOperator => exact congrArg some (Writer.eq_ofText (SetOperator.write_eq tree))
  | expr => exact congrArg some (Writer.eq_ofText (Expr.write_eq tree))
  | call => exact congrArg some (Writer.eq_ofText (Call.write_eq tree))
  | binary => exact congrArg some (Writer.eq_ofText (Binary.write_eq tree))
  | relation => exact congrArg some (Writer.eq_ofText (Relation.write_eq tree))
  | joinCondition => exact congrArg some (Writer.eq_ofText (JoinCondition.write_eq tree))
  | join => exact congrArg some (Writer.eq_ofText (Join.write_eq tree))
  | fromClause => exact congrArg some (Writer.eq_ofText (FromClause.write_eq tree))
  | selectItem => exact congrArg some (Writer.eq_ofText (SelectItem.write_eq tree))
  | select => exact congrArg some (Writer.eq_ofText (Select.write_eq tree))
  | body => exact congrArg some (Writer.eq_ofText (Body.write_eq tree))
  | orderItem => exact congrArg some (Writer.eq_ofText (OrderItem.write_eq tree))
  | cte => exact congrArg some (Writer.eq_ofText (Cte.write_eq tree))
  | query => exact congrArg some (Writer.eq_ofText (Query.write_eq tree))
  | text | flag | long | double | maybe | many | operator | direction | joinKind | projection => rfl

theorem write_eq (n : Node) (b : Buffer) : n.write b = b.push n.sqlText := by
  rw [write, writer?_eq, sqlText]
  cases n.sqlText? with
  | none => simp
  | some text => rfl

theorem map_write (ns : List Node) :
    ns.map Render.write = (ns.map sqlText).map Writer.ofText := by
  simp only [List.map_map]
  exact List.map_congr_left fun n _ => Writer.eq_ofText n.write_eq

theorem toSql?_value (n : Node) : n.toSql?.map Logged.value = n.sqlText? := by
  have hsql : Render.sql n = n.sqlText := by
    show (n.write {}).sql = _
    simp [write_eq]
  have hvalue : (toSql n).value = n.sqlText := hsql
  rw [toSql?, writer?_eq, Option.map_map, Option.map_map]
  cases h : n.sqlText? with
  | none => rfl
  | some text => simp [hvalue, sqlText, h]

end Node

/-! ## Runs -/

/-- The text that an action stands for. -/
def Action.sqlText : Action → String
  | .push text => text
  | .render n => n.sqlText
  | .commaSeparated ns => joined ", " (ns.map Node.sqlText)

namespace Buffer

theorem perform_eq (b : Buffer) : ∀ a : Action, b.perform a = b.push a.sqlText
  | .push _ => rfl
  | .render n => by rw [perform, n.write_eq, Action.sqlText]
  | .commaSeparated ns => by
    rw [perform, commaSeparated, Node.map_write, separated_ofText, Writer.ofText_apply,
      Action.sqlText]

theorem foldl_perform (actions : List Action) (b : Buffer) :
    actions.foldl perform b = b.push (String.join (actions.map Action.sqlText)) := by
  induction actions generalizing b with
  | nil => simp
  | cons a rest ih =>
    rw [List.foldl_cons, perform_eq, ih, push_push, List.map_cons, String.join_cons]

/-- **A run only appends.** After any actions on a shared buffer it holds what it held before,
followed by the texts of the actions in their order; and the SQL of a node on its own is its
text. -/
theorem sql_foldl_perform (b : Buffer) (actions : List Action) :
    (actions.foldl perform b).sql = b.sql ++ String.join (actions.map Action.sqlText)
      ∧ ∀ n : Node, n.toSql?.map Logged.value = n.sqlText? :=
  ⟨by rw [foldl_perform, sql_push], Node.toSql?_value⟩

end Buffer

end SqlTree
