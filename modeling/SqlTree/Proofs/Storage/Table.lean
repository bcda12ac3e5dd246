import SqlTree.Proofs.Storage.ReadBack

/-!
# The tables of layouts and the documents

What is read and what is written is laid down twice: by the tables of fields and variants, and by
the documents of the trees. `Describes` says that a table and a function that gives documents agree
on names, order and contents. They do for every record and every choice of a tree.
-/

namespace SqlTree

open Json

variable {α : Type}

/-! ## Lists and values that may be absent -/

theorem Expr.documents_eq (es : List Expr) : Expr.documents es = es.map Expr.document :=
  eq_map rfl (fun _ _ => rfl) es

theorem Expr.document?_eq (e : Option Expr) : Expr.document? e = e.map Expr.document := by
  cases e <;> rfl

theorem FromClause.document?_eq (f : Option FromClause) :
    FromClause.document? f = f.map FromClause.document := by
  cases f <;> rfl

theorem Join.documents_eq (js : List Join) : Join.documents js = js.map Join.document :=
  eq_map rfl (fun _ _ => rfl) js

theorem SelectItem.documents_eq (items : List SelectItem) :
    SelectItem.documents items = items.map SelectItem.document :=
  eq_map rfl (fun _ _ => rfl) items

theorem OrderItem.documents_eq (items : List OrderItem) :
    OrderItem.documents items = items.map OrderItem.document :=
  eq_map rfl (fun _ _ => rfl) items

theorem Cte.documents_eq (ctes : List Cte) : Cte.documents ctes = ctes.map Cte.document :=
  eq_map rfl (fun _ _ => rfl) ctes

theorem QualifiedName.document_eq {n : QualifiedName} {parts : List Ident}
    (h : QualifiedName.ofParts parts = .ok n) :
    n.document = .list (parts.map Ident.document) := by
  rw [QualifiedName.document, parts_of_ofParts h]

theorem Projection.document_eq {p : Projection} {items : List SelectItem}
    (h : Projection.ofItems items = .ok p) :
    p.document = .list (items.map SelectItem.document) := by
  obtain rfl := Projection.items_of_ofItems h
  obtain ⟨first, rest⟩ := p
  show Document.list (first.document :: SelectItem.documents rest) = _
  rw [SelectItem.documents_eq]
  rfl

/-! ## Tables that describe documents -/

/-- The document of what is built of a row has the members of the row. -/
def Record.Describes (document : α → Document) (r : Record α) : Prop :=
  ∀ row, document (r.build row) = .object (Row.members r.fields row)

/-- The document of what is built of a variant's content is that content, under its name. -/
def Variant.Describes (document : α → Document) (v : Variant α) : Prop :=
  match v.content with
  | .bare a => document a = .text v.name
  | .value kind build => ∀ value, document (build value) = .tagged v.name (kind.document value)
  | .record r =>
    ∀ row, document (r.build row) = .tagged v.name (.object (Row.members r.fields row))

theorem Constant.describes : ∀ v ∈ Constant.variants, v.Describes Constant.document := by
  simp [variants, Variant.Describes, document, Kind.document]

theorem Operator.describes : ∀ v ∈ Operator.variants, v.Describes Operator.document := by
  simp [variants, Variant.Describes, document]

theorem SetOperator.describes : ∀ v ∈ SetOperator.variants, v.Describes SetOperator.document := by
  simp [variants, Variant.Describes, document]

theorem Direction.describes : ∀ v ∈ Direction.variants, v.Describes Direction.document := by
  simp [variants, Variant.Describes, document]

theorem Expr.describes : ∀ v ∈ Expr.variants, v.Describes Expr.document := by
  simp [variants, Variant.Describes, Variant.ofFields, document, Kind.document, Row.members]

theorem Call.describes : Call.record.Describes Call.document := by
  rintro ⟨name, args, ⟨⟩⟩
  simp [record, Record.named, document, Kind.document, Row.members, Expr.documents_eq]

theorem Binary.describes : Binary.record.Describes Binary.document := by
  rintro ⟨left, operator, right, ⟨⟩⟩
  rfl

theorem Relation.describes : ∀ v ∈ Relation.variants, v.Describes Relation.document := by
  simp [variants, Variant.Describes, Variant.ofFields, document, Kind.document, Row.members,
    Expr.documents_eq]

theorem JoinCondition.describes :
    ∀ v ∈ JoinCondition.variants, v.Describes JoinCondition.document := by
  simp [variants, Variant.Describes, document, Kind.document]

theorem JoinKind.describes : ∀ v ∈ JoinKind.variants, v.Describes JoinKind.document := by
  simp [variants, Variant.Describes, document, Kind.document]

theorem Join.describes : Join.record.Describes Join.document := by
  rintro ⟨relation, kind, ⟨⟩⟩
  rfl

theorem FromClause.describes : FromClause.record.Describes FromClause.document := by
  rintro ⟨relation, joins, ⟨⟩⟩
  simp [record, Record.named, document, Kind.document, Row.members, Join.documents_eq]

theorem SelectItem.describes : ∀ v ∈ SelectItem.variants, v.Describes SelectItem.document := by
  simp [variants, Variant.Describes, Variant.ofFields, document, Kind.document, Row.members]

theorem Select.describes : Select.record.Describes Select.document := by
  rintro ⟨distinct, projection, source, condition, groupBy, having, ⟨⟩⟩
  simp [record, Record.named, document, Kind.document, Row.members, Expr.documents_eq,
    Expr.document?_eq, FromClause.document?_eq]

theorem Body.describes : ∀ v ∈ Body.variants, v.Describes Body.document := by
  simp [variants, Variant.Describes, Variant.ofFields, document, Kind.document, Row.members]

theorem OrderItem.describes : OrderItem.record.Describes OrderItem.document := by
  rintro ⟨expr, direction, ⟨⟩⟩
  rfl

theorem Cte.describes : Cte.record.Describes Cte.document := by
  rintro ⟨name, query, ⟨⟩⟩
  rfl

theorem Query.describes : Query.record.Describes Query.document := by
  rintro ⟨ctes, body, orderBy, limit, offset, ⟨⟩⟩
  simp [record, Record.named, document, Kind.document, Row.members, Cte.documents_eq,
    OrderItem.documents_eq, Expr.document?_eq]

end SqlTree
