import SqlTree.Proofs.Sql.Writing
import SqlTree.Proofs.Tree.Contexts

/-!
# Rendering is compositional

A frame writes one text before what is in its hole and one behind it, and both depend on the frame
alone (`Frame.wraps`, a case for each place of the grammar). So does a context, for frames within one
another wrap what the innermost wraps (`Context.wraps`). Whatever is said of a subtree and its text
can so be carried to any depth: more parentheses around an operand are more parentheses and nothing
else, and operands regrouped under the same operators in the same order leave the text as it was.
-/

namespace SqlTree

open Template

/-! ## Texts around a text -/

/-- One text stands around another, the same whatever the other is. -/
def Wraps {α : Type} (outer inner : α → String) : Prop :=
  ∃ start stop, ∀ a, outer a = start ++ inner a ++ stop

namespace Wraps

variable {α β : Type} {f g : α → String} {text : α → String}

theorem refl (f : α → String) : Wraps f f := ⟨"", "", by simp⟩

theorem before (start : String) (h : Wraps f g) : Wraps (fun a => start ++ f a) g := by
  obtain ⟨s, t, h⟩ := h
  exact ⟨start ++ s, t, by simp [h, String.append_assoc]⟩

theorem behind (h : Wraps f g) (stop : String) : Wraps (fun a => f a ++ stop) g := by
  obtain ⟨s, t, h⟩ := h
  exact ⟨s, t ++ stop, by simp [h, String.append_assoc]⟩

/-- What wraps a text of something in which a hole is filled wraps what is in the hole. -/
theorem trans {outer middle : β → String} {fill : α → β} (h : Wraps outer middle)
    (h' : Wraps (fun a => middle (fill a)) g) : Wraps (fun a => outer (fill a)) g := by
  obtain ⟨s, t, h⟩ := h
  obtain ⟨s', t', h'⟩ := h'
  exact ⟨s ++ s', t' ++ t, by simp [h, h', String.append_assoc]⟩

end Wraps

theorem joined_cons (separator t : String) {ts : List String} (h : ts ≠ []) :
    joined separator (t :: ts) = t ++ separator ++ joined separator ts := by
  obtain ⟨u, rest, rfl⟩ := List.exists_cons_of_ne_nil h
  rfl

section

variable {α : Type} (text : α → String) (before after : List α)

/-- A list with a hole, a separator between neighbours. -/
theorem wraps_joined (separator : String) :
    Wraps (fun a => joined separator ((before ++ a :: after).map text)) text := by
  induction before with
  | nil =>
    cases after with
    | nil => exact .refl text
    | cons b rest =>
      have h := ((Wraps.refl text).behind separator).behind (joined separator ((b :: rest).map text))
      exact h
  | cons b rest ih =>
    have h := ih.before (text b ++ separator)
    have hne (a : α) : (rest ++ a :: after).map text ≠ [] := by simp
    simp only [List.cons_append, List.map_cons, joined_cons _ _ (hne _)]
    exact h

theorem wraps_listClause (opening closing : String) :
    Wraps (fun a => listClause opening closing ((before ++ a :: after).map text)) text := by
  have hclause (ts : List String) (h : ts ≠ []) :
      listClause opening closing ts = opening ++ joined ", " ts ++ closing := by
    obtain ⟨t, rest, rfl⟩ := List.exists_cons_of_ne_nil h
    rfl
  have hne (a : α) : (before ++ a :: after).map text ≠ [] := by simp
  simp only [hclause _ (hne _)]
  exact ((wraps_joined text before after ", ").before opening).behind closing

end

/-! ## Frames -/

theorem Projection.sqlText_eq (p : Projection) :
    p.sqlText = joined ", " (p.items.map SelectItem.sqlText) := by
  cases p
  rw [Projection.sqlText, SelectItem.sqlTexts_eq]
  rfl

/-- The keyword of a join with a condition. -/
def JoinSide.keyword : JoinSide → String
  | .inner => "JOIN "
  | .left => "LEFT JOIN "
  | .right => "RIGHT JOIN "
  | .full => "FULL JOIN "

theorem Join.wraps (kind : JoinKind) :
    Wraps (fun r => (⟨r, kind⟩ : Join).sqlText) Relation.sqlText := by
  cases kind with
  | inner c =>
    exact ((Wraps.refl Relation.sqlText).before (" " ++ c.adverb ++ "JOIN ")).behind c.sqlText
  | left c =>
    exact ((Wraps.refl Relation.sqlText).before (" " ++ c.adverb ++ "LEFT JOIN ")).behind c.sqlText
  | right c =>
    exact ((Wraps.refl Relation.sqlText).before (" " ++ c.adverb ++ "RIGHT JOIN ")).behind c.sqlText
  | full c =>
    exact ((Wraps.refl Relation.sqlText).before (" " ++ c.adverb ++ "FULL JOIN ")).behind c.sqlText
  | cross => exact (Wraps.refl Relation.sqlText).before " CROSS JOIN "
  | comma => exact (Wraps.refl Relation.sqlText).before ", "

/-- **A frame stands around its hole**, in SQL as in the tree. -/
theorem Frame.wraps {hole root : Kind} (frame : Frame hole root) :
    Wraps (fun v => (⟨root, frame.fill v⟩ : Node).sqlText)
      (fun v => (⟨hole, v⟩ : Node).sqlText) := by
  cases frame with
  | segment before after =>
    have h := wraps_joined Ident.sqlText before after "."
    simp only [← QualifiedName.parts_around] at h
    exact h
  | identifier | constant | call | binary | item | selectBody => exact .refl _
  | compound before after => exact wraps_joined Ident.sqlText before after "."
  | nested => exact ((Wraps.refl Expr.sqlText).before "(").behind ")"
  | operand subquery negated =>
    exact ((((Wraps.refl Expr.sqlText).behind (if negated then " NOT" else "")).behind
      " IN (").behind subquery.sqlText).behind ")"
  | inSubquery operand negated =>
    exact ((Wraps.refl Query.sqlText).before
      (operand.sqlText ++ (if negated then " NOT" else "") ++ " IN (")).behind ")"
  | existence negated =>
    exact ((Wraps.refl Query.sqlText).before
      ((if negated then "NOT " else "") ++ "EXISTS (")).behind ")"
  | callName args =>
    exact (((Wraps.refl QualifiedName.sqlText).behind "(").behind
      (Template.joined ", " (Expr.sqlTexts args))).behind ")"
  | callArg name before after =>
    have h := ((wraps_joined Expr.sqlText before after ", ").before (name.sqlText ++ "(")).behind ")"
    simp only [← Expr.sqlTexts_eq] at h
    exact h
  | left operator right =>
    exact ((((Wraps.refl Expr.sqlText).behind " ").behind operator.sqlText).behind " ").behind
      right.sqlText
  | right left operator =>
    exact (Wraps.refl Expr.sqlText).before (left.sqlText ++ " " ++ operator.sqlText ++ " ")
  | tableName aliasName args hints =>
    exact (((Wraps.refl QualifiedName.sqlText).behind
      (listClause "(" ")" (Expr.sqlTexts args))).behind
      (optionalClause " AS " (aliasName.map Ident.sqlText))).behind
      (listClause " WITH (" ")" (Expr.sqlTexts hints))
  | tableAlias name args hints =>
    exact ((Wraps.refl Ident.sqlText).before " AS ").before
      (name.sqlText ++ listClause "(" ")" (Expr.sqlTexts args)) |>.behind
      (listClause " WITH (" ")" (Expr.sqlTexts hints))
  | tableArg name aliasName before after hints =>
    have h := (((wraps_listClause Expr.sqlText before after "(" ")").before name.sqlText).behind
      (optionalClause " AS " (aliasName.map Ident.sqlText))).behind
      (listClause " WITH (" ")" (Expr.sqlTexts hints))
    simp only [← Expr.sqlTexts_eq] at h
    exact h
  | tableHint name aliasName args before after =>
    have h := (wraps_listClause Expr.sqlText before after " WITH (" ")").before
      (name.sqlText ++ listClause "(" ")" (Expr.sqlTexts args)
        ++ optionalClause " AS " (aliasName.map Ident.sqlText))
    simp only [← Expr.sqlTexts_eq] at h
    exact h
  | derived aliasName =>
    exact (Wraps.refl Query.sqlText).behind (optionalClause " AS " (aliasName.map Ident.sqlText))
  | derivedAlias subquery =>
    exact ((Wraps.refl Ident.sqlText).before " AS ").before subquery.sqlText
  | predicate => exact (Wraps.refl Expr.sqlText).before " ON "
  | column before after =>
    exact ((wraps_joined Ident.sqlText before after ", ").before " USING(").behind ")"
  | joined kind => exact Join.wraps kind
  | joinPredicate relation side =>
    have h := ((Wraps.refl Expr.sqlText).before " ON ").before
      (" " ++ "" ++ side.keyword ++ relation.sqlText)
    cases side <;> exact h
  | joinColumn relation side before after =>
    have h := (((wraps_joined Ident.sqlText before after ", ").before " USING(").behind ")").before
      (" " ++ "" ++ side.keyword ++ relation.sqlText)
    cases side <;> exact h
  | fromRelation joins =>
    exact (Wraps.refl Relation.sqlText).behind
      (Template.joined "" (Join.sqlTexts joins))
  | fromJoin relation before after =>
    have h := (wraps_joined Join.sqlText before after "").before relation.sqlText
    simp only [← Join.sqlTexts_eq] at h
    exact h
  | aliased aliasName =>
    exact ((Wraps.refl Expr.sqlText).behind " AS ").behind aliasName.sqlText
  | itemAlias e => exact (Wraps.refl Ident.sqlText).before (e.sqlText ++ " AS ")
  | qualifiedWildcard => exact (Wraps.refl QualifiedName.sqlText).behind ".*"
  | projection s before after =>
    obtain ⟨distinct, projection, source, condition, groupBy, having⟩ := s
    have h := ((((((wraps_joined SelectItem.sqlText before after ", ").before
      ("SELECT " ++ if distinct then "DISTINCT " else "")).behind
      (optionalClause " FROM " (FromClause.sqlText? source))).behind
      (optionalClause " WHERE " (Expr.sqlText? condition))).behind
      (listClause " GROUP BY " "" (Expr.sqlTexts groupBy))).behind
      (optionalClause " HAVING " (Expr.sqlText? having)))
    simp only [← Projection.items_around, ← Projection.sqlText_eq] at h
    exact h
  | source s =>
    obtain ⟨distinct, projection, source, condition, groupBy, having⟩ := s
    exact (((((Wraps.refl FromClause.sqlText).before " FROM ").before
      ("SELECT " ++ (if distinct then "DISTINCT " else "") ++ projection.sqlText)).behind
      (optionalClause " WHERE " (Expr.sqlText? condition))).behind
      (listClause " GROUP BY " "" (Expr.sqlTexts groupBy))).behind
      (optionalClause " HAVING " (Expr.sqlText? having))
  | condition s =>
    obtain ⟨distinct, projection, source, condition, groupBy, having⟩ := s
    exact ((((Wraps.refl Expr.sqlText).before " WHERE ").before
      ("SELECT " ++ (if distinct then "DISTINCT " else "") ++ projection.sqlText
        ++ optionalClause " FROM " (FromClause.sqlText? source))).behind
      (listClause " GROUP BY " "" (Expr.sqlTexts groupBy))).behind
      (optionalClause " HAVING " (Expr.sqlText? having))
  | groupBy s before after =>
    obtain ⟨distinct, projection, source, condition, groupBy, having⟩ := s
    have h := ((wraps_listClause Expr.sqlText before after " GROUP BY " "").before
      ("SELECT " ++ (if distinct then "DISTINCT " else "") ++ projection.sqlText
        ++ optionalClause " FROM " (FromClause.sqlText? source)
        ++ optionalClause " WHERE " (Expr.sqlText? condition))).behind
      (optionalClause " HAVING " (Expr.sqlText? having))
    simp only [← Expr.sqlTexts_eq] at h
    exact h
  | having s =>
    obtain ⟨distinct, projection, source, condition, groupBy, having⟩ := s
    exact ((Wraps.refl Expr.sqlText).before " HAVING ").before
      ("SELECT " ++ (if distinct then "DISTINCT " else "") ++ projection.sqlText
        ++ optionalClause " FROM " (FromClause.sqlText? source)
        ++ optionalClause " WHERE " (Expr.sqlText? condition)
        ++ listClause " GROUP BY " "" (Expr.sqlTexts groupBy))
  | queryBody => exact ((Wraps.refl Query.sqlText).before "(").behind ")"
  | leftBody operator all right =>
    exact (((((Wraps.refl Body.sqlText).behind " ").behind operator.sqlText).behind
      (if all then " ALL" else "")).behind " ").behind right.sqlText
  | rightBody operator all left =>
    exact (Wraps.refl Body.sqlText).before
      (left.sqlText ++ " " ++ operator.sqlText ++ (if all then " ALL" else "") ++ " ")
  | ordered direction =>
    exact (Wraps.refl Expr.sqlText).behind (optionalClause " " (direction.map Direction.sqlText))
  | cteName query =>
    exact (((Wraps.refl Ident.sqlText).behind " AS (").behind query.sqlText).behind ")"
  | cteQuery name =>
    exact ((Wraps.refl Query.sqlText).before (name.sqlText ++ " AS (")).behind ")"
  | cte q before after =>
    obtain ⟨ctes, body, orderBy, limit, offset⟩ := q
    have h := ((((wraps_listClause Cte.sqlText before after "WITH " " ").behind body.sqlText).behind
      (listClause " ORDER BY " "" (OrderItem.sqlTexts orderBy))).behind
      (optionalClause " LIMIT " (Expr.sqlText? limit))).behind
      (optionalClause " OFFSET " (Expr.sqlText? offset))
    simp only [← Cte.sqlTexts_eq] at h
    exact h
  | body q =>
    obtain ⟨ctes, body, orderBy, limit, offset⟩ := q
    exact ((((Wraps.refl Body.sqlText).before (listClause "WITH " " " (Cte.sqlTexts ctes))).behind
      (listClause " ORDER BY " "" (OrderItem.sqlTexts orderBy))).behind
      (optionalClause " LIMIT " (Expr.sqlText? limit))).behind
      (optionalClause " OFFSET " (Expr.sqlText? offset))
  | orderBy q before after =>
    obtain ⟨ctes, body, orderBy, limit, offset⟩ := q
    have h := (((wraps_listClause OrderItem.sqlText before after " ORDER BY " "").before
      (listClause "WITH " " " (Cte.sqlTexts ctes) ++ body.sqlText)).behind
      (optionalClause " LIMIT " (Expr.sqlText? limit))).behind
      (optionalClause " OFFSET " (Expr.sqlText? offset))
    simp only [← OrderItem.sqlTexts_eq] at h
    exact h
  | limit q =>
    obtain ⟨ctes, body, orderBy, limit, offset⟩ := q
    exact (((Wraps.refl Expr.sqlText).before " LIMIT ").before
      (listClause "WITH " " " (Cte.sqlTexts ctes) ++ body.sqlText
        ++ listClause " ORDER BY " "" (OrderItem.sqlTexts orderBy))).behind
      (optionalClause " OFFSET " (Expr.sqlText? offset))
  | offset q =>
    obtain ⟨ctes, body, orderBy, limit, offset⟩ := q
    exact ((Wraps.refl Expr.sqlText).before " OFFSET ").before
      (listClause "WITH " " " (Cte.sqlTexts ctes) ++ body.sqlText
        ++ listClause " ORDER BY " "" (OrderItem.sqlTexts orderBy)
        ++ optionalClause " LIMIT " (Expr.sqlText? limit))

/-- A context stands around its hole. -/
theorem Context.wraps {hole root : Kind} (K : Context hole root) :
    ∃ start stop, ∀ v,
      (⟨root, K.fill v⟩ : Node).sqlText = start ++ (⟨hole, v⟩ : Node).sqlText ++ stop := by
  show Wraps (fun v => (⟨root, K.fill v⟩ : Node).sqlText) (fun v => (⟨hole, v⟩ : Node).sqlText)
  induction K with
  | here => exact .refl _
  | within frame inner ih => exact frame.wraps.trans ih

/-! ## Rotations -/

/-- One step of regrouping, at any depth: of two operators of a chain that stand side by side, the
second is applied first. Operands and operators stay in their order. -/
inductive Rotates (root : Kind) : root.Carrier → root.Carrier → Prop where
  | bodies (K : Context .body root) (o o' : SetOperator) (all all' : Bool) (a b c : Body) :
    Rotates root (K.fill (.operation o' all' (.operation o all a b) c))
      (K.fill (.operation o all a (.operation o' all' b c)))
  | binaries (K : Context .binary root) (o o' : Operator) (a b c : Expr) :
    Rotates root (K.fill ⟨.binary ⟨a, o, b⟩, o', c⟩) (K.fill ⟨a, o, .binary ⟨b, o', c⟩⟩)

/-- Any number of steps, forwards and backwards. -/
def Regrouped (root : Kind) : root.Carrier → root.Carrier → Prop := Relation.EqvGen (Rotates root)

/-- The two ends of a context do not see which of two trees with one text stands between them. -/
theorem Context.sqlText_congr {hole root : Kind} (K : Context hole root) {v w : hole.Carrier}
    (h : (⟨hole, v⟩ : Node).sqlText = (⟨hole, w⟩ : Node).sqlText) :
    (⟨root, K.fill v⟩ : Node).sqlText = (⟨root, K.fill w⟩ : Node).sqlText := by
  obtain ⟨start, stop, hK⟩ := K.wraps
  rw [hK, hK, h]

/-- One step keeps the text. -/
theorem Rotates.sqlText_eq {root : Kind} {s t : root.Carrier} (h : Rotates root s t) :
    (⟨root, s⟩ : Node).sqlText = (⟨root, t⟩ : Node).sqlText := by
  cases h with
  | bodies K o o' all all' a b c =>
    refine K.sqlText_congr ?_
    show Body.sqlText _ = Body.sqlText _
    simp only [Body.sqlText, String.append_assoc]
  | binaries K o o' a b c =>
    refine K.sqlText_congr ?_
    show Binary.sqlText _ = Binary.sqlText _
    simp only [Binary.sqlText, Expr.sqlText, String.append_assoc]

/-- So do any number of steps. -/
theorem Regrouped.sqlText_eq {root : Kind} {s t : root.Carrier} (h : Regrouped root s t) :
    (⟨root, s⟩ : Node).sqlText = (⟨root, t⟩ : Node).sqlText := by
  induction h with
  | rel s t h => exact h.sqlText_eq
  | refl s => rfl
  | symm s t _ ih => exact ih.symm
  | trans s t u _ _ ih ih' => exact ih.trans ih'

/-! ## The text of a tree with a hole -/

theorem Node.value_toSql (n : Node) : (toSql n).value = n.sqlText := by
  show (n.write {}).sql = _
  simp [Node.write_eq]

theorem Expr.value_toSql (e : Expr) : (toSql e).value = e.sqlText := by
  show (e.write {}).sql = _
  simp [Expr.write_eq]

theorem Body.value_toSql (b : Body) : (toSql b).value = b.sqlText := by
  show (b.write {}).sql = _
  simp [Body.write_eq]

theorem Query.value_toSql (q : Query) : (toSql q).value = q.sqlText := by
  show (q.write {}).sql = _
  simp [Query.write_eq]

theorem Query.sqlText_ofBody (b : Body) : (Query.ofBody b).sqlText = b.sqlText := by
  simp [Query.ofBody, Query.sqlText, Cte.sqlTexts, OrderItem.sqlTexts, Expr.sqlText?, listClause,
    optionalClause]

/-- **Rendering is compositional.** Whatever stands within a tree, at any depth, fills a context; a
context writes one text before and one behind what is in its hole, whatever that is. So parentheses
around an expression, or around a body made a whole query, are written as just these two characters;
and regrouping chains of operators changes neither the SQL nor the fingerprint. -/
theorem Context.toSql_fill :
    (∀ u t : Node, u.Within t → ∃ K : Context u.kind t.kind, K.fill u.tree = t.tree)
    ∧ (∀ (hole root : Kind) (K : Context hole root), ∃ start stop, ∀ v,
      (toSql (⟨root, K.fill v⟩ : Node)).value
        = start ++ (toSql (⟨hole, v⟩ : Node)).value ++ stop)
    ∧ (∀ (root : Kind) (K : Context .expr root), ∃ start stop, ∀ e : Expr,
      (toSql (⟨root, K.fill e⟩ : Node)).value = start ++ (toSql e).value ++ stop
      ∧ (toSql (⟨root, K.fill (.nested e)⟩ : Node)).value
        = start ++ "(" ++ (toSql e).value ++ ")" ++ stop)
    ∧ (∀ (root : Kind) (K : Context .body root), ∃ start stop, ∀ b : Body,
      (toSql (⟨root, K.fill b⟩ : Node)).value = start ++ (toSql b).value ++ stop
      ∧ (toSql (⟨root, K.fill (.query (.ofBody b))⟩ : Node)).value
        = start ++ "(" ++ (toSql b).value ++ ")" ++ stop)
    ∧ (∀ (root : Kind) (s t : root.Carrier), Regrouped root s t →
      (toSql (⟨root, s⟩ : Node)).value = (toSql (⟨root, t⟩ : Node)).value)
    ∧ ∀ p q : Query, Regrouped .query p q → p.fingerprint.value = q.fingerprint.value := by
  refine ⟨fun u t => Node.Within.exists_context, fun hole root K => ?_, fun root K => ?nested,
    fun root K => ?query, fun root s t h => ?_, fun p q h => ?_⟩
  · simpa only [Node.value_toSql] using K.wraps
  case nested =>
    obtain ⟨start, stop, h⟩ := K.wraps
    have hnested (e : Expr) :
        (⟨.expr, .nested e⟩ : Node).sqlText = "(" ++ e.sqlText ++ ")" := rfl
    refine ⟨start, stop, fun e => ⟨?_, ?_⟩⟩
    · rw [Node.value_toSql, h, Expr.value_toSql]
      rfl
    · rw [Node.value_toSql, h, Expr.value_toSql, hnested]
      simp only [String.append_assoc]
  case query =>
    obtain ⟨start, stop, h⟩ := K.wraps
    have hquery (b : Body) :
        (⟨.body, .query (.ofBody b)⟩ : Node).sqlText = "(" ++ b.sqlText ++ ")" := by
      rw [← Query.sqlText_ofBody b]
      rfl
    refine ⟨start, stop, fun b => ⟨?_, ?_⟩⟩
    · rw [Node.value_toSql, h, Body.value_toSql]
      rfl
    · rw [Node.value_toSql, h, Body.value_toSql, hquery]
      simp only [String.append_assoc]
  · rw [Node.value_toSql, Node.value_toSql, h.sqlText_eq]
  · have hsql : p.sqlText = q.sqlText := h.sqlText_eq
    show Digest.ofText (toSql p).value = Digest.ofText (toSql q).value
    rw [Query.value_toSql, Query.value_toSql, hsql]

/-- `SELECT` of text that is SQL already -/
def Body.ofRaw (sql : String) : Body := .select (.ofProjection (.single (.expr (.raw sql))))

/-- `SELECT a UNION ALL SELECT b EXCEPT SELECT c`, grouped to the left -/
def Query.leftChain : Query :=
  .ofBody (((Body.ofRaw "a").union (.ofRaw "b") true).except (.ofRaw "c") false)

/-- The same, grouped to the right. -/
def Query.rightChain : Query :=
  .ofBody ((Body.ofRaw "a").union ((Body.ofRaw "b").except (.ofRaw "c") false) true)

/-- The chain of three selects holds its middle one, and is the same text either way. -/
theorem Context.toSql_fill_chains :
    Node.Within ⟨.body, Body.ofRaw "b"⟩ ⟨.query, Query.leftChain⟩
    ∧ (∃ K : Context .body .query, K.fill (Body.ofRaw "b") = Query.leftChain)
    ∧ Regrouped .query Query.leftChain Query.rightChain
    ∧ (toSql (⟨.query, Query.leftChain⟩ : Node)).value
      = (toSql (⟨.query, Query.rightChain⟩ : Node)).value
    ∧ Query.leftChain.fingerprint.value = Query.rightChain.fingerprint.value := by
  have hwithin : Node.Within ⟨.body, Body.ofRaw "b"⟩ ⟨.query, Query.leftChain⟩ :=
    .head (b := ⟨.body, (Body.ofRaw "a").union (.ofRaw "b") true⟩)
      (List.mem_cons_of_mem _ List.mem_cons_self)
      (.head (b := ⟨.body, ((Body.ofRaw "a").union (.ofRaw "b") true).except (.ofRaw "c") false⟩)
        List.mem_cons_self (.single List.mem_cons_self))
  have hregrouped : Regrouped .query Query.leftChain Query.rightChain :=
    .rel _ _ (.bodies (.within (.body (.ofBody (.ofRaw "a"))) .here) .union .except true false
      (.ofRaw "a") (.ofRaw "b") (.ofRaw "c"))
  exact ⟨hwithin, Context.toSql_fill.1 _ _ hwithin, hregrouped,
    Context.toSql_fill.2.2.2.2.1 .query _ _ hregrouped,
    Context.toSql_fill.2.2.2.2.2 _ _ hregrouped⟩

end SqlTree
