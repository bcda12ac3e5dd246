import SqlTree.Proofs.Json.Unique
import SqlTree.Proofs.Json.Depth
import SqlTree.Proofs.Sql.Same
import SqlTree.Storage.Query

/-!
# A stored text belongs to one query

Two queries whose doubles are finite are equal if they are stored as the same text, however deep they
are nested: also where no reader takes the text back, because it is too deep or because it rounds a
double on its own.

The texts determine the documents (`Document.eq_of_print_eq`). A document is the same as itself, so
the trees are alike (`Query.alike`) and differ at most in the signs of zeros; and these the document
shows, for it holds the doubles of the tree in their order (`Query.doubles_document`).
-/

namespace SqlTree

open Json Document

/-! ## A document is the same as itself -/

theorem Double.same_self {x : Double} (hx : x.isFinite = true) : x.same x = true := by
  have hnan : x.isNaN = false := by
    rw [isFinite_iff] at hx
    simpa [isNaN] using hx.le
  simp [same, hnan]

mutual

theorem Json.Document.same_self : ∀ {d : Document}, AllFinite d.doubles → d.same d = true
  | .null, _ => rfl
  | .boolean _, _ => by simp [same]
  | .integer _, _ => by simp [same]
  | .double x, h => Double.same_self (h x List.mem_cons_self)
  | .text _, _ => by simp [same]
  | .list _, h => sameItems_self h
  | .object _, h => sameMembers_self h

theorem Json.Document.sameItems_self : ∀ {ds : List Document}, AllFinite (doublesOfItems ds) →
    sameItems ds ds = true
  | [], _ => rfl
  | d :: rest, h => by
    obtain ⟨hd, hrest⟩ := allFinite_append.1 h
    rw [sameItems, same_self hd, sameItems_self hrest]
    rfl

theorem Json.Document.sameMembers_self : ∀ {ds : List (String × Document)},
    AllFinite (doublesOfMembers ds) → sameMembers ds ds = true
  | [], _ => rfl
  | (m, d) :: rest, h => by
    obtain ⟨hd, hrest⟩ := allFinite_append.1 h
    rw [sameMembers, same_self hd, sameMembers_self hrest]
    simp

end

/-! ## The doubles of a tree and of its document -/

@[simp] theorem Json.Document.doubles_tagged (name : String) (d : Document) :
    (tagged name d).doubles = d.doubles := by
  simp [tagged, doubles, doublesOfMembers]

theorem doubleValues_names (names : List Ident) : doubleValues (names.map .name) = [] := by
  rw [doubleValues, List.filterMap_map]
  exact List.filterMap_eq_nil_iff.2 fun _ _ => rfl

@[simp] theorem Ident.doubles_document (i : Ident) : i.document.doubles = [] := by
  simp [document, doubles]

theorem Ident.doublesOfItems (is : List Ident) :
    Document.doublesOfItems (is.map document) = doubleValues (is.map .name) := by
  rw [doubleValues_names]
  induction is with
  | nil => rfl
  | cons i rest ih => rw [List.map_cons, Document.doublesOfItems, doubles_document, ih]; rfl

theorem Ident.doubles_ofOption (i : Option Ident) :
    (ofOption (i.map document)).doubles = doubleValues (i.toList.map .name) := by
  rw [doubleValues_names]
  cases i <;> simp [ofOption, doubles]

theorem QualifiedName.doubles_document (n : QualifiedName) :
    n.document.doubles = doubleValues n.leaves := Ident.doublesOfItems n.parts

theorem Constant.doubles_document (c : Constant) :
    c.document.doubles = doubleValues [.constant c] := by
  cases c <;> simp [document, doubles, doubleValues]

theorem Operator.doubles_document (o : Operator) : o.document.doubles = [] := by
  cases o <;> simp [document, doubles]

theorem SetOperator.doubles_document (o : SetOperator) : o.document.doubles = [] := by
  cases o <;> simp [document, doubles]

theorem Direction.doubles_ofOption (d : Option Direction) :
    (ofOption (d.map document)).doubles = [] := by
  rcases d with _ | _ | _ <;> simp [document, ofOption, doubles]

mutual

theorem Expr.doubles_document : ∀ e : Expr, e.document.doubles = doubleValues e.leaves
  | .identifier name => by
    simp [Expr.document, Expr.leaves, doubleValues]
  | .compound parts => by
    rw [Expr.document, doubles_tagged, Document.doubles, Ident.doublesOfItems, Expr.leaves]
  | .wildcard => rfl
  | .constant value => by
    rw [Expr.document, doubles_tagged, value.doubles_document, Expr.leaves]
  | .call c => by
    rw [Expr.document, doubles_tagged, Call.doubles_document c, Expr.leaves]
  | .binary o => by
    rw [Expr.document, doubles_tagged, Binary.doubles_document o, Expr.leaves]
  | .nested inner => by
    rw [Expr.document, doubles_tagged, Expr.doubles_document inner, Expr.leaves]
  | .inSubquery operand subquery negated => by
    simp [Expr.document, Document.doubles, doublesOfMembers, Expr.doubles_document operand,
      Query.doubles_document subquery, Expr.leaves]
  | .existence subquery negated => by
    simp [Expr.document, Document.doubles, doublesOfMembers, Query.doubles_document subquery,
      Expr.leaves]
  | .raw sql => by
    simp [Expr.document, Document.doubles, Expr.leaves, doubleValues]

theorem Call.doubles_document : ∀ c : Call, c.document.doubles = doubleValues c.leaves
  | ⟨name, args⟩ => by
    simp [Call.document, Document.doubles, doublesOfMembers, name.doubles_document,
      Expr.doubles_documents args, Call.leaves, -Expr.leavesAll_eq]

theorem Binary.doubles_document : ∀ o : Binary, o.document.doubles = doubleValues o.leaves
  | ⟨left, operator, right⟩ => by
    simp [Binary.document, Document.doubles, doublesOfMembers, Expr.doubles_document left,
      operator.doubles_document, Expr.doubles_document right, Binary.leaves]

theorem Relation.doubles_document : ∀ r : Relation, r.document.doubles = doubleValues r.leaves
  | .table name aliasName args hints => by
    simp [Relation.document, Document.doubles, doublesOfMembers, name.doubles_document,
      Ident.doubles_ofOption, doubleValues_names, Expr.doubles_documents args,
      Expr.doubles_documents hints, Relation.leaves, -Expr.leavesAll_eq]
  | .derived subquery aliasName => by
    simp [Relation.document, Document.doubles, doublesOfMembers, Query.doubles_document subquery,
      Ident.doubles_ofOption, Relation.leaves]

theorem JoinCondition.doubles_document : ∀ c : JoinCondition,
    c.document.doubles = doubleValues c.leaves
  | .predicate e => by
    rw [JoinCondition.document, doubles_tagged, Expr.doubles_document e, JoinCondition.leaves]
  | .columns names => by
    rw [JoinCondition.document, doubles_tagged, Document.doubles, Ident.doublesOfItems,
      JoinCondition.leaves]
  | .natural | .absent => rfl

theorem JoinKind.doubles_document : ∀ k : JoinKind, k.document.doubles = doubleValues k.leaves
  | .inner c | .left c | .right c | .full c => by
    rw [JoinKind.document, doubles_tagged, JoinCondition.doubles_document c, JoinKind.leaves]
  | .cross | .comma => rfl

theorem Join.doubles_document : ∀ j : Join, j.document.doubles = doubleValues j.leaves
  | ⟨relation, kind⟩ => by
    simp [Join.document, Document.doubles, doublesOfMembers, Relation.doubles_document relation,
      JoinKind.doubles_document kind, Join.leaves]

theorem FromClause.doubles_document : ∀ f : FromClause,
    f.document.doubles = doubleValues f.leaves
  | ⟨relation, joins⟩ => by
    simp [FromClause.document, Document.doubles, doublesOfMembers,
      Relation.doubles_document relation, Join.doubles_documents joins, FromClause.leaves,
      -Join.leavesAll_eq]

theorem SelectItem.doubles_document : ∀ i : SelectItem,
    i.document.doubles = doubleValues i.leaves
  | .expr e => by
    rw [SelectItem.document, doubles_tagged, Expr.doubles_document e, SelectItem.leaves]
  | .aliased e aliasName => by
    simp [SelectItem.document, Document.doubles, doublesOfMembers, Expr.doubles_document e,
      SelectItem.leaves, doubleValues]
  | .qualifiedWildcard qualifier => by
    rw [SelectItem.document, doubles_tagged, qualifier.doubles_document, SelectItem.leaves]
  | .wildcard => rfl

theorem Projection.doubles_document : ∀ p : Projection,
    p.document.doubles = doubleValues p.leaves
  | ⟨first, rest⟩ => by
    simp [Projection.document, Document.doubles, Document.doublesOfItems,
      SelectItem.doubles_document first, SelectItem.doubles_documents rest, Projection.leaves,
      -SelectItem.leavesAll_eq]

theorem Select.doubles_document : ∀ s : Select, s.document.doubles = doubleValues s.leaves
  | ⟨distinct, projection, source, condition, groupBy, having⟩ => by
    simp [Select.document, Document.doubles, doublesOfMembers,
      Projection.doubles_document projection, FromClause.doubles_document? source,
      Expr.doubles_document? condition, Expr.doubles_documents groupBy,
      Expr.doubles_document? having, Select.leaves, -Expr.leavesAll_eq, -Expr.leaves?_eq,
      -FromClause.leaves?_eq]

theorem Body.doubles_document : ∀ b : Body, b.document.doubles = doubleValues b.leaves
  | .select s => by
    rw [Body.document, doubles_tagged, Select.doubles_document s, Body.leaves]
  | .query q => by
    rw [Body.document, doubles_tagged, Query.doubles_document q, Body.leaves]
  | .operation operator all left right => by
    simp [Body.document, Document.doubles, doublesOfMembers, operator.doubles_document,
      Body.doubles_document left, Body.doubles_document right, Body.leaves]

theorem OrderItem.doubles_document : ∀ o : OrderItem, o.document.doubles = doubleValues o.leaves
  | ⟨expr, direction⟩ => by
    simp [OrderItem.document, Document.doubles, doublesOfMembers, Expr.doubles_document expr,
      Direction.doubles_ofOption, OrderItem.leaves]

theorem Cte.doubles_document : ∀ c : Cte, c.document.doubles = doubleValues c.leaves
  | ⟨name, query⟩ => by
    simp [Cte.document, Document.doubles, doublesOfMembers, Query.doubles_document query,
      Cte.leaves, doubleValues]

theorem Query.doubles_document : ∀ q : Query, q.document.doubles = doubleValues q.leaves
  | ⟨ctes, body, orderBy, limit, offset⟩ => by
    simp [Query.document, Document.doubles, doublesOfMembers, Cte.doubles_documents ctes,
      Body.doubles_document body, OrderItem.doubles_documents orderBy,
      Expr.doubles_document? limit, Expr.doubles_document? offset, Query.leaves,
      -Cte.leavesAll_eq, -OrderItem.leavesAll_eq, -Expr.leaves?_eq]

theorem Expr.doubles_documents : ∀ es : List Expr,
    Document.doublesOfItems (Expr.documents es) = doubleValues (Expr.leavesAll es)
  | [] => rfl
  | e :: rest => by
    rw [Expr.documents, Document.doublesOfItems, Expr.doubles_document e,
      Expr.doubles_documents rest, Expr.leavesAll, doubleValues_append]

theorem Expr.doubles_document? : ∀ e : Option Expr,
    (ofOption (Expr.document? e)).doubles = doubleValues (Expr.leaves? e)
  | none => rfl
  | some e => Expr.doubles_document e

theorem FromClause.doubles_document? : ∀ f : Option FromClause,
    (ofOption (FromClause.document? f)).doubles = doubleValues (FromClause.leaves? f)
  | none => rfl
  | some f => FromClause.doubles_document f

theorem Join.doubles_documents : ∀ js : List Join,
    Document.doublesOfItems (Join.documents js) = doubleValues (Join.leavesAll js)
  | [] => rfl
  | j :: rest => by
    rw [Join.documents, Document.doublesOfItems, Join.doubles_document j,
      Join.doubles_documents rest, Join.leavesAll, doubleValues_append]

theorem SelectItem.doubles_documents : ∀ items : List SelectItem,
    Document.doublesOfItems (SelectItem.documents items)
      = doubleValues (SelectItem.leavesAll items)
  | [] => rfl
  | i :: rest => by
    rw [SelectItem.documents, Document.doublesOfItems, SelectItem.doubles_document i,
      SelectItem.doubles_documents rest, SelectItem.leavesAll, doubleValues_append]

theorem OrderItem.doubles_documents : ∀ items : List OrderItem,
    Document.doublesOfItems (OrderItem.documents items) = doubleValues (OrderItem.leavesAll items)
  | [] => rfl
  | o :: rest => by
    rw [OrderItem.documents, Document.doublesOfItems, OrderItem.doubles_document o,
      OrderItem.doubles_documents rest, OrderItem.leavesAll, doubleValues_append]

theorem Cte.doubles_documents : ∀ ctes : List Cte,
    Document.doublesOfItems (Cte.documents ctes) = doubleValues (Cte.leavesAll ctes)
  | [] => rfl
  | c :: rest => by
    rw [Cte.documents, Document.doublesOfItems, Cte.doubles_document c,
      Cte.doubles_documents rest, Cte.leavesAll, doubleValues_append]

end

/-! ## Queries -/

theorem mem_doubleValues {ls : List Leaf} {x : Double} :
    x ∈ doubleValues ls ↔ Leaf.constant (.double x) ∈ ls := by
  rw [doubleValues, List.mem_filterMap]
  constructor
  · rintro ⟨l, hl, hx⟩
    split at hx
    · cases hx
      exact hl
    · cases hx
  · exact fun hl => ⟨_, hl, rfl⟩

/-- The finite doubles of a tree are those of its document. -/
theorem Query.allFinite_doubles {q : Query}
    (hq : ∀ x, Leaf.constant (.double x) ∈ q.leaves → x.isFinite = true) :
    AllFinite q.document.doubles := by
  intro x hx
  rw [doubles_document, mem_doubleValues] at hx
  exact hq x hx

/-- **A stored text belongs to one query.** Queries of any depth whose doubles are finite are equal,
each double bit by bit, if they are stored as the same text. -/
theorem Query.eq_of_toJson_eq {a b : Query}
    (ha : ∀ x, Leaf.constant (.double x) ∈ a.leaves → x.isFinite = true)
    (hb : ∀ x, Leaf.constant (.double x) ∈ b.leaves → x.isFinite = true)
    (h : a.toJson = b.toJson) : a = b := by
  have ha := allFinite_doubles ha
  have hdocument : a.document = b.document :=
    eq_of_print_eq ha (allFinite_doubles hb) (String.ofList_injective h)
  have hsame : a.document.same b.document = true := hdocument ▸ Document.same_self ha
  have hsigns : zeroSigns a.leaves = zeroSigns b.leaves := by
    rw [zeroSigns, zeroSigns, ← doubles_document, ← doubles_document, hdocument]
  exact ((Query.alike a hsame).equal hsigns).1

/-- A double in so many parentheses. -/
def Expr.parenthesized (depth : Nat) (x : Double) : Expr :=
  Nat.rec (.constant (.double x)) (fun _ => .nested) depth

theorem Expr.leaves_parenthesized (depth : Nat) (x : Double) :
    (Expr.parenthesized depth x).leaves = [.constant (.double x)] := by
  induction depth with
  | zero => rfl
  | succ depth ih => exact ih

/-- Two hundred parentheses around minus zero, put there in two ways: one text, which no reader takes
back, and one query. -/
theorem Query.eq_of_toJson_eq_deep :
    128 ≤ bracketDepth (Query.ofExpr (.parenthesized 200 ⟨0x8000000000000000⟩)).toJson
      ∧ (Query.ofExpr (.parenthesized 200 ⟨0x8000000000000000⟩)).toJson
        = (Query.ofExpr (.nested (.parenthesized 199 ⟨0x8000000000000000⟩))).toJson
      ∧ Query.ofExpr (.parenthesized 200 ⟨0x8000000000000000⟩)
        = Query.ofExpr (.nested (.parenthesized 199 ⟨0x8000000000000000⟩)) := by
  have hfinite : ∀ x, Leaf.constant (.double x)
      ∈ (Query.ofExpr (.parenthesized 200 ⟨0x8000000000000000⟩)).leaves → x.isFinite = true := by
    intro x hx
    have hleaves : (Query.ofExpr (.parenthesized 200 ⟨0x8000000000000000⟩)).leaves
        = [.constant (.double ⟨0x8000000000000000⟩)] := Expr.leaves_parenthesized 200 _
    rw [hleaves, List.mem_singleton, Leaf.constant.injEq, Constant.double.injEq] at hx
    rw [hx]
    decide
  refine ⟨?_, rfl, Query.eq_of_toJson_eq hfinite hfinite rfl⟩
  rw [Query.toJson, Kind.stored, bracketDepth_print]
  decide +kernel

end SqlTree
