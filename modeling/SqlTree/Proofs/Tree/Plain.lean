import SqlTree.Tree

/-!
# Plainly grouped trees

A tree is plain if its identifiers are lower-case words, it holds no raw text and no double, and its
grouping is what its text suggests: chains of operators and of set operations lean to the left, a
dotted name has at least two parts, `*` alone is a wildcard and not an expression, and a derived
table is a query in parentheses.
-/

namespace SqlTree

/-! ## Leaves -/

/-- Is the text a lower-case letter or an underscore, followed by such characters and digits? -/
def isName (text : String) : Bool :=
  match text.toList with
  | [] => false
  | c :: rest =>
    (c.isLower || c == '_') && rest.all fun c => c.isLower || c.isDigit || c == '_'

def Ident.IsPlain (i : Ident) : Prop := isName i.text = true

def QualifiedName.IsPlain (n : QualifiedName) : Prop := ∀ i ∈ n.parts, i.IsPlain

def Constant.IsPlain : Constant → Prop
  | .double _ => False
  | _ => True

/-- Does something follow the operand that the expression begins with? -/
def Expr.isChain : Expr → Bool
  | .binary _ | .inSubquery .. => true
  | _ => false

def Body.isOperation : Body → Bool
  | .operation .. => true
  | _ => false

/-! ## Trees -/

mutual

def Expr.IsPlain : Expr → Prop
  | .identifier name => name.IsPlain
  | .compound parts => 2 ≤ parts.length ∧ ∀ i ∈ parts, i.IsPlain
  | .wildcard => True
  | .constant value => value.IsPlain
  | .call c => c.IsPlain
  | .binary o => o.IsPlain
  | .nested inner => inner.IsPlain
  | .inSubquery operand subquery _ => operand.IsPlain ∧ subquery.IsPlain
  | .existence subquery _ => subquery.IsPlain
  | .raw _ => False

def Call.IsPlain : Call → Prop
  | ⟨name, args⟩ => name.IsPlain ∧ Expr.ArePlain args

def Binary.IsPlain : Binary → Prop
  | ⟨left, _, right⟩ => left.IsPlain ∧ right.IsPlain ∧ right.isChain = false

def Relation.IsPlain : Relation → Prop
  | .table name aliasName args hints =>
    name.IsPlain ∧ (∀ i ∈ aliasName, i.IsPlain) ∧ Expr.ArePlain args ∧ Expr.ArePlain hints
  | .derived subquery aliasName =>
    subquery.IsPlain ∧ (∃ inner, subquery = .ofBody (.query inner)) ∧ ∀ i ∈ aliasName, i.IsPlain

def JoinCondition.IsPlain : JoinCondition → Prop
  | .predicate e => e.IsPlain
  | .columns names => ∀ i ∈ names, i.IsPlain
  | .natural | .absent => True

def JoinKind.IsPlain : JoinKind → Prop
  | .inner c | .left c | .right c | .full c => c.IsPlain
  | .cross | .comma => True

def Join.IsPlain : Join → Prop
  | ⟨relation, kind⟩ => relation.IsPlain ∧ kind.IsPlain

def FromClause.IsPlain : FromClause → Prop
  | ⟨relation, joins⟩ => relation.IsPlain ∧ Join.ArePlain joins

def SelectItem.IsPlain : SelectItem → Prop
  | .expr e => e.IsPlain ∧ e ≠ .wildcard
  | .aliased e aliasName => e.IsPlain ∧ aliasName.IsPlain
  | .qualifiedWildcard qualifier => qualifier.IsPlain
  | .wildcard => True

def Projection.IsPlain : Projection → Prop
  | ⟨first, rest⟩ => first.IsPlain ∧ SelectItem.ArePlain rest

def Select.IsPlain : Select → Prop
  | ⟨_, projection, source, condition, groupBy, having⟩ =>
    projection.IsPlain ∧ FromClause.IsPlain? source ∧ Expr.IsPlain? condition
      ∧ Expr.ArePlain groupBy ∧ Expr.IsPlain? having

def Body.IsPlain : Body → Prop
  | .select s => s.IsPlain
  | .query q => q.IsPlain
  | .operation _ _ left right => left.IsPlain ∧ right.IsPlain ∧ right.isOperation = false

def OrderItem.IsPlain : OrderItem → Prop
  | ⟨expr, _⟩ => expr.IsPlain

def Cte.IsPlain : Cte → Prop
  | ⟨name, query⟩ => name.IsPlain ∧ query.IsPlain

/-- Is the query plainly grouped, at every depth? -/
def Query.IsPlain : Query → Prop
  | ⟨ctes, body, orderBy, limit, offset⟩ =>
    Cte.ArePlain ctes ∧ body.IsPlain ∧ OrderItem.ArePlain orderBy ∧ Expr.IsPlain? limit
      ∧ Expr.IsPlain? offset

def Expr.ArePlain : List Expr → Prop
  | [] => True
  | e :: rest => e.IsPlain ∧ Expr.ArePlain rest

def Expr.IsPlain? : Option Expr → Prop
  | none => True
  | some e => e.IsPlain

def FromClause.IsPlain? : Option FromClause → Prop
  | none => True
  | some f => f.IsPlain

def Join.ArePlain : List Join → Prop
  | [] => True
  | j :: rest => j.IsPlain ∧ Join.ArePlain rest

def SelectItem.ArePlain : List SelectItem → Prop
  | [] => True
  | i :: rest => i.IsPlain ∧ SelectItem.ArePlain rest

def OrderItem.ArePlain : List OrderItem → Prop
  | [] => True
  | o :: rest => o.IsPlain ∧ OrderItem.ArePlain rest

def Cte.ArePlain : List Cte → Prop
  | [] => True
  | c :: rest => c.IsPlain ∧ Cte.ArePlain rest

end

/-! ## Lists of subtrees -/

/-- A condition on the elements of a list one by one is a condition on each of them. -/
theorem iff_forall_mem {α : Type} {p : List α → Prop} {q : α → Prop} (hnil : p [])
    (hcons : ∀ a l, p (a :: l) ↔ q a ∧ p l) (l : List α) : p l ↔ ∀ a ∈ l, q a := by
  induction l with
  | nil => exact iff_of_true hnil fun _ h => absurd h List.not_mem_nil
  | cons a rest ih => rw [hcons, ih, List.forall_mem_cons]

theorem Expr.arePlain_iff (es : List Expr) : Expr.ArePlain es ↔ ∀ e ∈ es, e.IsPlain :=
  iff_forall_mem trivial (fun _ _ => Iff.rfl) es

theorem Join.arePlain_iff (js : List Join) : Join.ArePlain js ↔ ∀ j ∈ js, j.IsPlain :=
  iff_forall_mem trivial (fun _ _ => Iff.rfl) js

theorem SelectItem.arePlain_iff (items : List SelectItem) :
    SelectItem.ArePlain items ↔ ∀ i ∈ items, i.IsPlain :=
  iff_forall_mem trivial (fun _ _ => Iff.rfl) items

theorem OrderItem.arePlain_iff (items : List OrderItem) :
    OrderItem.ArePlain items ↔ ∀ o ∈ items, o.IsPlain :=
  iff_forall_mem trivial (fun _ _ => Iff.rfl) items

theorem Cte.arePlain_iff (ctes : List Cte) : Cte.ArePlain ctes ↔ ∀ c ∈ ctes, c.IsPlain :=
  iff_forall_mem trivial (fun _ _ => Iff.rfl) ctes

end SqlTree
