import SqlTree.Proofs.Storage.Table
import SqlTree.Storage.Query

/-!
# Stored queries come back

The document of every value of every type stores it (`Expr.keeps` and its siblings, one lemma for
each type, in mutual recursion like the types). So a query is read back from its own text just when
the text is not nested too deep and every double in it survives on its own; what is nested too deep
is refused.
-/

namespace SqlTree

open Json Document

/-! ## Leaves -/

theorem Kind.keeps_text (s : String) : Kind.text.Keeps s :=
  (stores_text s).congr (iff_of_true trivial survive_nil)

theorem Kind.keeps_flag (b : Bool) : Kind.flag.Keeps b :=
  (stores_flag b).congr (iff_of_true trivial survive_nil)

theorem Kind.keeps_long (n : Int64) : Kind.long.Keeps n :=
  (stores_long n).congr (iff_of_true trivial survive_nil)

theorem Ident.keeps (i : Ident) : Kind.ident.Keeps i := by
  have hmk : Function.Injective Ident.mk := fun _ _ => Ident.mk.inj
  exact ((stores_text i.text).map hmk).congr (iff_of_true trivial (survive_names [i]))

theorem Kind.keeps_idents (is : List Ident) : (Kind.many .ident).Keeps is :=
  stores_list (fun i _ => i.keeps) (by simp)

theorem QualifiedName.keeps (n : QualifiedName) : Kind.qualifiedName.Keeps n := by
  have hbuild (is : List Ident) : QualifiedName.ofParts is = .ok n ↔ is = n.parts := by
    constructor
    · intro h
      exact (parts_of_ofParts h).symm
    · rintro rfl
      exact ofParts_parts n
  have h := stores_nonempty .ident (fun i _ => i.keeps) hbuild
  have hleaves : n.parts.flatMap Kind.ident.leaves = n.leaves := by
    simp [Kind.leaves, QualifiedName.leaves, ← List.map_eq_flatMap]
  rw [hleaves] at h
  exact h

theorem Double.survives_iff (x : Double) : x.Survives ↔ Layout.double.token x.token = .ok x := by
  have hdouble : Function.Injective Constant.double := fun _ _ => Constant.double.inj
  have hname : Variant.find Constant.variants "Double" = .ok ⟨"Double", .value .double .double⟩ :=
    rfl
  have h := stores_tagged hname ((stores_double_token x).map hdouble)
  have hdepth : (tagged "Double" (.double x)).depth ≤ maxDepth :=
    show 1 ≤ maxDepth by decide
  rw [Survives, Kind.read_stored]
  exact h.eq_ok_iff hdepth

theorem Double.keeps (x : Double) : Kind.double.Keeps x :=
  (stores_double_token x).congr (x.survives_iff.symm.trans (survive_double x).symm)

theorem survive_constant {c : Constant} (hc : ∀ x, c ≠ .double x) : Survive [.constant c] := by
  intro x hx
  cases List.mem_singleton.1 hx
  exact absurd rfl (hc x)

theorem Constant.keeps : ∀ c : Constant, Kind.constant.Keeps c
  | .long n => by
    have h := stores_variant variants "Long" Constant.long rfl
      (fun _ _ => Constant.long.inj) (Kind.keeps_long n)
    exact h.congr (iff_of_true survive_nil (survive_constant (by simp)))
  | .double x => by
    have h := stores_variant variants "Double" Constant.double rfl
      (fun _ _ => Constant.double.inj) x.keeps
    exact h
  | .text s => by
    have h := stores_variant variants "SingleQuotedString" Constant.text rfl
      (fun _ _ => Constant.text.inj) (Kind.keeps_text s)
    exact h.congr (iff_of_true survive_nil (survive_constant (by simp)))
  | .boolean b => by
    have h := stores_variant variants "Boolean" Constant.boolean rfl
      (fun _ _ => Constant.boolean.inj) (Kind.keeps_flag b)
    exact h.congr (iff_of_true survive_nil (survive_constant (by simp)))
  | .null => by
    have hname : Variant.find variants "Null" = .ok ⟨"Null", .bare null⟩ := rfl
    exact (stores_bare hname).congr (iff_of_true survive_nil (survive_constant (by simp)))

theorem Operator.keeps (o : Operator) : Kind.operator.Keeps o := by
  cases o <;> exact stores_bare rfl

theorem SetOperator.keeps (o : SetOperator) : Kind.setOperator.Keeps o := by
  cases o <;> exact stores_bare rfl

theorem Direction.keeps (d : Direction) : Kind.direction.Keeps d := by
  cases d <;> exact stores_bare rfl

/-! ## Lists and values that may be absent -/

theorem Kind.keeps_many {kind : Kind} {values : List kind.Carrier}
    (h : ∀ v ∈ values, kind.Keeps v) : (Kind.many kind).Keeps values := stores_list h (by simp)

theorem Kind.keeps_none (kind : Kind) : (Kind.maybe kind).Keeps none :=
  (stores_none kind.layout).congr (iff_of_true trivial survive_nil)

theorem Kind.keeps_some {kind : Kind} {value : kind.Carrier}
    (hnull : (kind.document value).part.isNull = false) (h : kind.Keeps value) :
    (Kind.maybe kind).Keeps (some value) := stores_some hnull h

theorem Ident.keeps? : ∀ i : Option Ident, (Kind.maybe .ident).Keeps i
  | none => Kind.keeps_none .ident
  | some i => Kind.keeps_some rfl i.keeps

theorem Direction.keeps? : ∀ d : Option Direction, (Kind.maybe .direction).Keeps d
  | none => Kind.keeps_none .direction
  | some d => Kind.keeps_some (by cases d <;> rfl) d.keeps

theorem Expr.isNull_document (e : Expr) : e.document.part.isNull = false := by
  cases e <;> rfl

/-! ## Trees -/

mutual

theorem Expr.keeps : ∀ e : Expr, Kind.expr.Keeps e
  | .identifier name => by
    have h := stores_variant Expr.variants "Identifier" Expr.identifier rfl
      (fun _ _ => Expr.identifier.inj) name.keeps
    exact h
  | .compound parts => by
    have h := stores_variant Expr.variants "CompoundIdentifier" Expr.compound rfl
      (fun _ _ => Expr.compound.inj) (Kind.keeps_idents parts)
    exact h.congr (by simp [Kind.leaves, Expr.leaves, ← List.map_eq_flatMap])
  | .wildcard => stores_bare rfl
  | .constant value => by
    have h := stores_variant Expr.variants "Value" Expr.constant rfl
      (fun _ _ => Expr.constant.inj) value.keeps
    exact h
  | .call c => by
    have h := stores_variant Expr.variants "Function" Expr.call rfl
      (fun _ _ => Expr.call.inj) (Call.keeps c)
    exact h
  | .binary o => by
    have h := stores_variant Expr.variants "BinaryOp" Expr.binary rfl
      (fun _ _ => Expr.binary.inj) (Binary.keeps o)
    exact h
  | .nested inner => by
    have h := stores_variant Expr.variants "Nested" Expr.nested rfl
      (fun _ _ => Expr.nested.inj) (Expr.keeps inner)
    exact h
  | .inSubquery operand subquery negated => by
    refine stores_fields Expr.variants "InSubquery" rfl (operand, subquery, negated, ()) rfl
      (by decide) ?_
      ⟨Expr.keeps operand, Query.keeps subquery, Kind.keeps_flag negated, trivial⟩ ?_
    · rintro ⟨e, q, b, ⟨⟩⟩ ⟨e', q', b', ⟨⟩⟩ h
      cases h
      rfl
    · simp [Row.leaves, Expr.leaves, Kind.leaves]
  | .existence subquery negated => by
    refine stores_fields Expr.variants "Exists" rfl (subquery, negated, ()) rfl (by decide) ?_
      ⟨Query.keeps subquery, Kind.keeps_flag negated, trivial⟩ ?_
    · rintro ⟨q, b, ⟨⟩⟩ ⟨q', b', ⟨⟩⟩ h
      cases h
      rfl
    · simp [Row.leaves, Expr.leaves, Kind.leaves]
  | .raw sql => by
    have h := stores_variant Expr.variants "Literal" Expr.raw rfl
      (fun _ _ => Expr.raw.inj) (Kind.keeps_text sql)
    exact h.congr
      (iff_of_true survive_nil (survive_of_no_double (by simp [Kind.leaves, Expr.leaves])))

theorem Call.keeps : ∀ c : Call, Kind.call.Keeps c
  | ⟨name, args⟩ => by
    have hbuild : Function.Injective Call.record.build := by
      rintro ⟨name, args, ⟨⟩⟩ ⟨name', args', ⟨⟩⟩ h
      cases h
      rfl
    refine stores_record Call.record (name, args, ()) (Call.describes (name, args, ()))
      (by decide) hbuild ⟨name.keeps, Kind.keeps_many (Expr.keeps_of_mem args), trivial⟩ ?_
    simp [Row.leaves, Call.leaves, Kind.leaves, Call.record, Record.named]

theorem Binary.keeps : ∀ o : Binary, Kind.binary.Keeps o
  | ⟨left, operator, right⟩ => by
    have hbuild : Function.Injective Binary.record.build := by
      rintro ⟨l, o, r, ⟨⟩⟩ ⟨l', o', r', ⟨⟩⟩ h
      cases h
      rfl
    refine stores_record Binary.record (left, operator, right, ()) rfl (by decide) hbuild
      ⟨Expr.keeps left, operator.keeps, Expr.keeps right, trivial⟩ ?_
    simp [Row.leaves, Binary.leaves, Kind.leaves, Binary.record, Record.named]

theorem Relation.keeps : ∀ r : Relation, Kind.relation.Keeps r
  | .table name aliasName args hints => by
    refine stores_fields Relation.variants "Table" rfl (name, aliasName, args, hints, ()) ?_
      (by decide) ?_ ⟨name.keeps, Ident.keeps? aliasName, Kind.keeps_many (Expr.keeps_of_mem args),
        Kind.keeps_many (Expr.keeps_of_mem hints), trivial⟩ ?_
    · rw [Expr.documents_eq, Expr.documents_eq]
      rfl
    · rintro ⟨n, a, es, hs, ⟨⟩⟩ ⟨n', a', es', hs', ⟨⟩⟩ h
      cases h
      rfl
    · cases aliasName <;> simp [Row.leaves, Relation.leaves, Kind.leaves]
  | .derived subquery aliasName => by
    refine stores_fields Relation.variants "Derived" rfl (subquery, aliasName, ()) rfl
      (by decide) ?_ ⟨Query.keeps subquery, Ident.keeps? aliasName, trivial⟩ ?_
    · rintro ⟨q, a, ⟨⟩⟩ ⟨q', a', ⟨⟩⟩ h
      cases h
      rfl
    · cases aliasName <;> simp [Row.leaves, Relation.leaves, Kind.leaves]

theorem JoinCondition.keeps : ∀ c : JoinCondition, Kind.joinCondition.Keeps c
  | .predicate e => by
    have h := stores_variant JoinCondition.variants "On" JoinCondition.predicate rfl
      (fun _ _ => JoinCondition.predicate.inj) (Expr.keeps e)
    exact h
  | .columns names => by
    have h := stores_variant JoinCondition.variants "Using" JoinCondition.columns rfl
      (fun _ _ => JoinCondition.columns.inj) (Kind.keeps_idents names)
    exact h.congr (by simp [Kind.leaves, JoinCondition.leaves, ← List.map_eq_flatMap])
  | .natural => stores_bare rfl
  | .absent => stores_bare rfl

theorem JoinKind.keeps : ∀ k : JoinKind, Kind.joinKind.Keeps k
  | .inner condition => by
    have h := stores_variant JoinKind.variants "Inner" JoinKind.inner rfl
      (fun _ _ => JoinKind.inner.inj) (JoinCondition.keeps condition)
    exact h
  | .left condition => by
    have h := stores_variant JoinKind.variants "LeftOuter" JoinKind.left rfl
      (fun _ _ => JoinKind.left.inj) (JoinCondition.keeps condition)
    exact h
  | .right condition => by
    have h := stores_variant JoinKind.variants "RightOuter" JoinKind.right rfl
      (fun _ _ => JoinKind.right.inj) (JoinCondition.keeps condition)
    exact h
  | .full condition => by
    have h := stores_variant JoinKind.variants "FullOuter" JoinKind.full rfl
      (fun _ _ => JoinKind.full.inj) (JoinCondition.keeps condition)
    exact h
  | .cross => stores_bare rfl
  | .comma => stores_bare rfl

theorem Join.keeps : ∀ j : Join, Kind.join.Keeps j
  | ⟨relation, kind⟩ => by
    refine stores_record Join.record (relation, kind, ()) rfl (by decide) ?_
      ⟨Relation.keeps relation, JoinKind.keeps kind, trivial⟩ ?_
    · rintro ⟨r, k, ⟨⟩⟩ ⟨r', k', ⟨⟩⟩ h
      cases h
      rfl
    · simp [Row.leaves, Join.leaves, Kind.leaves, Join.record, Record.named]

theorem FromClause.keeps : ∀ f : FromClause, Kind.fromClause.Keeps f
  | ⟨relation, joins⟩ => by
    refine stores_record FromClause.record (relation, joins, ())
      (FromClause.describes (relation, joins, ())) (by decide) ?_
      ⟨Relation.keeps relation, Kind.keeps_many (Join.keeps_of_mem joins), trivial⟩ ?_
    · rintro ⟨r, js, ⟨⟩⟩ ⟨r', js', ⟨⟩⟩ h
      cases h
      rfl
    · simp [Row.leaves, FromClause.leaves, Kind.leaves, FromClause.record, Record.named]

theorem SelectItem.keeps : ∀ i : SelectItem, Kind.selectItem.Keeps i
  | .expr e => by
    have h := stores_variant SelectItem.variants "UnnamedExpr" SelectItem.expr rfl
      (fun _ _ => SelectItem.expr.inj) (Expr.keeps e)
    exact h
  | .aliased e aliasName => by
    refine stores_fields SelectItem.variants "ExprWithAlias" rfl (e, aliasName, ()) rfl
      (by decide) ?_ ⟨Expr.keeps e, aliasName.keeps, trivial⟩ ?_
    · rintro ⟨e, a, ⟨⟩⟩ ⟨e', a', ⟨⟩⟩ h
      cases h
      rfl
    · simp [Row.leaves, SelectItem.leaves, Kind.leaves]
  | .qualifiedWildcard qualifier => by
    have h := stores_variant SelectItem.variants "QualifiedWildcard" SelectItem.qualifiedWildcard
      rfl (fun _ _ => SelectItem.qualifiedWildcard.inj) qualifier.keeps
    exact h
  | .wildcard => stores_bare rfl

theorem Projection.keeps : ∀ p : Projection, Kind.projection.Keeps p
  | ⟨first, rest⟩ => by
    have hbuild (items : List SelectItem) :
        Projection.ofItems items = .ok ⟨first, rest⟩ ↔ items = first :: rest := by
      constructor
      · intro h
        exact (Projection.items_of_ofItems h).symm
      · rintro rfl
        rfl
    have hitems : ∀ i ∈ first :: rest, Kind.selectItem.Keeps i :=
      List.forall_mem_cons.2 ⟨SelectItem.keeps first, SelectItem.keeps_of_mem rest⟩
    have h := stores_nonempty .selectItem hitems hbuild
    have hdocument : Kind.projection.document ⟨first, rest⟩
        = .list ((first :: rest).map Kind.selectItem.document) := by
      show Document.list (first.document :: SelectItem.documents rest) = _
      rw [SelectItem.documents_eq]
      rfl
    rw [Kind.Keeps, hdocument]
    exact h.congr (by simp [Kind.leaves, Projection.leaves])

theorem Select.keeps : ∀ s : Select, Kind.select.Keeps s
  | ⟨distinct, projection, source, condition, groupBy, having⟩ => by
    let row : Row Select.record.fields :=
      (distinct, projection, source, condition, groupBy, having, ())
    refine stores_record Select.record row (Select.describes row) (by decide) ?_
      ⟨Kind.keeps_flag distinct, Projection.keeps projection, FromClause.keeps? source,
        Expr.keeps? condition, Kind.keeps_many (Expr.keeps_of_mem groupBy), Expr.keeps? having,
        trivial⟩ ?_
    · rintro ⟨d, p, f, c, g, h, ⟨⟩⟩ ⟨d', p', f', c', g', h', ⟨⟩⟩ heq
      cases heq
      rfl
    · simp [row, Row.leaves, Select.leaves, Kind.leaves, Select.record, Record.named]

theorem Body.keeps : ∀ b : Body, Kind.body.Keeps b
  | .select s => by
    have h := stores_variant Body.variants "Select" Body.select rfl
      (fun _ _ => Body.select.inj) (Select.keeps s)
    exact h
  | .query q => by
    have h := stores_variant Body.variants "Query" Body.query rfl
      (fun _ _ => Body.query.inj) (Query.keeps q)
    exact h
  | .operation operator all left right => by
    refine stores_fields Body.variants "SetOperation" rfl (operator, all, left, right, ()) rfl
      (by decide) ?_ ⟨operator.keeps, Kind.keeps_flag all, Body.keeps left, Body.keeps right,
        trivial⟩ ?_
    · rintro ⟨o, a, l, r, ⟨⟩⟩ ⟨o', a', l', r', ⟨⟩⟩ h
      cases h
      rfl
    · simp [Row.leaves, Body.leaves, Kind.leaves]

theorem OrderItem.keeps : ∀ o : OrderItem, Kind.orderItem.Keeps o
  | ⟨expr, direction⟩ => by
    refine stores_record OrderItem.record (expr, direction, ()) rfl (by decide) ?_
      ⟨Expr.keeps expr, Direction.keeps? direction, trivial⟩ ?_
    · rintro ⟨e, d, ⟨⟩⟩ ⟨e', d', ⟨⟩⟩ h
      cases h
      rfl
    · cases direction <;>
        simp [Row.leaves, OrderItem.leaves, Kind.leaves, OrderItem.record, Record.named]

theorem Cte.keeps : ∀ c : Cte, Kind.cte.Keeps c
  | ⟨name, query⟩ => by
    refine stores_record Cte.record (name, query, ()) rfl (by decide) ?_
      ⟨name.keeps, Query.keeps query, trivial⟩ ?_
    · rintro ⟨n, q, ⟨⟩⟩ ⟨n', q', ⟨⟩⟩ h
      cases h
      rfl
    · simp [Row.leaves, Cte.leaves, Kind.leaves, Cte.record, Record.named]

theorem Query.keeps : ∀ q : Query, Kind.query.Keeps q
  | ⟨ctes, body, orderBy, limit, offset⟩ => by
    let row : Row Query.record.fields := (ctes, body, orderBy, limit, offset, ())
    refine stores_record Query.record row (Query.describes row) (by decide) ?_
      ⟨Kind.keeps_many (Cte.keeps_of_mem ctes), Body.keeps body,
        Kind.keeps_many (OrderItem.keeps_of_mem orderBy), Expr.keeps? limit, Expr.keeps? offset,
        trivial⟩ ?_
    · rintro ⟨c, b, o, l, f, ⟨⟩⟩ ⟨c', b', o', l', f', ⟨⟩⟩ h
      cases h
      rfl
    · simp [row, Row.leaves, Query.leaves, Kind.leaves, Query.record, Record.named]

theorem Expr.keeps_of_mem : ∀ es : List Expr, ∀ e ∈ es, Kind.expr.Keeps e
  | [] => fun _ h => absurd h List.not_mem_nil
  | e :: rest => List.forall_mem_cons.2 ⟨Expr.keeps e, Expr.keeps_of_mem rest⟩

theorem Expr.keeps? : ∀ e : Option Expr, (Kind.maybe .expr).Keeps e
  | none => Kind.keeps_none .expr
  | some e => Kind.keeps_some (Expr.isNull_document e) (Expr.keeps e)

theorem FromClause.keeps? : ∀ f : Option FromClause, (Kind.maybe .fromClause).Keeps f
  | none => Kind.keeps_none .fromClause
  | some f => Kind.keeps_some (by cases f; rfl) (FromClause.keeps f)

theorem Join.keeps_of_mem : ∀ js : List Join, ∀ j ∈ js, Kind.join.Keeps j
  | [] => fun _ h => absurd h List.not_mem_nil
  | j :: rest => List.forall_mem_cons.2 ⟨Join.keeps j, Join.keeps_of_mem rest⟩

theorem SelectItem.keeps_of_mem : ∀ items : List SelectItem, ∀ i ∈ items, Kind.selectItem.Keeps i
  | [] => fun _ h => absurd h List.not_mem_nil
  | i :: rest => List.forall_mem_cons.2 ⟨SelectItem.keeps i, SelectItem.keeps_of_mem rest⟩

theorem OrderItem.keeps_of_mem : ∀ items : List OrderItem, ∀ o ∈ items, Kind.orderItem.Keeps o
  | [] => fun _ h => absurd h List.not_mem_nil
  | o :: rest => List.forall_mem_cons.2 ⟨OrderItem.keeps o, OrderItem.keeps_of_mem rest⟩

theorem Cte.keeps_of_mem : ∀ ctes : List Cte, ∀ c ∈ ctes, Kind.cte.Keeps c
  | [] => fun _ h => absurd h List.not_mem_nil
  | c :: rest => List.forall_mem_cons.2 ⟨Cte.keeps c, Cte.keeps_of_mem rest⟩

end

/-! ## Queries -/

theorem Query.value_ofJson (text : String) :
    (Query.ofJson text).value = (Kind.query.read text).mapError .undecodable := by
  unfold Query.ofJson
  cases Kind.query.read text <;> rfl

theorem Query.value_ofJson_eq_ok_iff {text : String} {q : Query} :
    (Query.ofJson text).value = .ok q ↔ Kind.query.read text = .ok q := by
  rw [Query.value_ofJson]
  cases Kind.query.read text <;> simp [Except.mapError]

/-- **The round trip of a query.** It comes back from its own text just when nowhere in the text
more than 127 brackets are open and each double in it comes back on its own. So a query without
doubles comes back from a text that is not nested deeper, and one that is nested deeper is refused.
-/
theorem Query.ofJson_toJson (q : Query) :
    ((Query.ofJson q.toJson).value = .ok q ↔
      bracketDepth q.toJson ≤ 127 ∧ ∀ x, Leaf.constant (.double x) ∈ q.leaves →
        Kind.constant.read (Kind.constant.stored (.double x)) = .ok (.double x))
    ∧ ((∀ x, Leaf.constant (.double x) ∉ q.leaves) → bracketDepth q.toJson ≤ 127 →
      (Query.ofJson q.toJson).value = .ok q)
    ∧ (128 ≤ bracketDepth q.toJson →
      ∃ fault, (Query.ofJson q.toJson).value = .error (.undecodable fault)) := by
  have hread := Kind.read_stored_eq_ok_iff (Query.keeps q)
  have hvalue : (Query.ofJson q.toJson).value = .ok q ↔ Kind.query.read q.toJson = .ok q :=
    Query.value_ofJson_eq_ok_iff
  refine ⟨hvalue.trans hread, ?_, ?_⟩
  · intro hdoubles hdepth
    exact hvalue.2 (hread.2 ⟨hdepth, survive_of_no_double hdoubles⟩)
  · intro hdepth
    rw [Query.value_ofJson]
    cases h : Kind.query.read q.toJson with
    | error fault => exact ⟨fault, rfl⟩
    | ok q' =>
      rw [Query.toJson, Kind.read_stored] at h
      have hle := (Query.keeps q).depth_le h
      rw [Query.toJson, Kind.stored, bracketDepth_print] at hdepth
      have : maxDepth = 127 := rfl
      omega

end SqlTree
