import SqlTree.Proofs.Double.Text
import SqlTree.Proofs.Sql.Scan
import SqlTree.Proofs.Sql.Writing
import SqlTree.Proofs.Tree.Emptied

/-!
# Text values stay in their literals

If no name and no raw text of a tree has a quote in it, then whatever its text values hold, the SQL
has one literal for each of them, in order and with just its contents, and is outside of these the
SQL of the emptied tree.
-/

namespace SqlTree

open Template

/-! ## Leaves -/

/-- A name or a raw text without a quote in it; a constant may hold anything. -/
def Leaf.IsUnquoted : Leaf → Prop
  | .name i => Unquoted i.text
  | .raw sql => Unquoted sql
  | .constant _ => True

/-- No name and no raw text has a quote in it. -/
def AllUnquoted (ls : List Leaf) : Prop := ∀ l ∈ ls, l.IsUnquoted

@[simp] theorem allUnquoted_append (ls ms : List Leaf) :
    AllUnquoted (ls ++ ms) ↔ AllUnquoted ls ∧ AllUnquoted ms := List.forall_mem_append

@[simp] theorem allUnquoted_cons (l : Leaf) (ls : List Leaf) :
    AllUnquoted (l :: ls) ↔ l.IsUnquoted ∧ AllUnquoted ls := List.forall_mem_cons

theorem AllUnquoted.of_mem {α : Type} {leaves : α → List Leaf} {as : List α}
    (h : AllUnquoted (as.flatMap leaves)) {a : α} (ha : a ∈ as) : AllUnquoted (leaves a) :=
  fun l hl => h l (List.mem_flatMap.2 ⟨a, ha, hl⟩)

/-- The text values, in order. -/
def textValues (ls : List Leaf) : List String :=
  ls.filterMap fun
    | .constant (.text s) => some s
    | _ => none

@[simp] theorem textValues_append (ls ms : List Leaf) :
    textValues (ls ++ ms) = textValues ls ++ textValues ms := List.filterMap_append

theorem textValues_flatMap {α : Type} (leaves : α → List Leaf) (as : List α) :
    textValues (as.flatMap leaves) = as.flatMap fun a => textValues (leaves a) := by
  induction as with
  | nil => rfl
  | cons a rest ih => rw [List.flatMap_cons, textValues_append, ih, List.flatMap_cons]

theorem textValues_names (names : List Ident) : textValues (names.map .name) = [] := by
  rw [textValues, List.filterMap_map]
  exact List.filterMap_eq_nil_iff.2 fun _ _ => rfl

/-! ## Texts without quotes -/

/-- A whole number is written in digits, with a sign if it is negative. -/
theorem mem_toString {n : Int} {c : Char} (h : c ∈ (toString n).toList) :
    c.isDigit = true ∨ c = '-' := by
  cases n with
  | ofNat k =>
    rw [Int.ofNat_eq_natCast, Json.Numeral.toList_toString_natCast] at h
    exact .inl (Json.Numeral.isDigit_of_mem h)
  | negSucc k =>
    rw [Json.Numeral.toList_toString_negSucc] at h
    rcases List.mem_cons.1 h with rfl | h
    · exact .inr rfl
    · exact .inl (Json.Numeral.isDigit_of_mem h)

theorem unquoted_toString (n : Int) : Unquoted (toString n) := by
  intro h
  rcases mem_toString h with hc | hc <;> exact absurd hc (by decide)

theorem Decimal.mem_positional {d : Decimal} {c : Char} (h : c ∈ d.positional) :
    c.isDigit = true ∨ c = '.' := by
  unfold positional at h
  split at h
  · rcases List.mem_append.1 h with h | h
    · exact .inl (isDigit_of_mem_digits h)
    · exact .inl (isDigit_of_mem_replicate h)
  · simp only at h
    split at h
    · rcases List.mem_append.1 h with h | h
      · exact .inl (isDigit_of_mem_digits (List.mem_of_mem_take h))
      · rcases List.mem_cons.1 h with rfl | h
        · exact .inr rfl
        · exact .inl (isDigit_of_mem_digits (List.mem_of_mem_drop h))
    · rcases List.mem_cons.1 h with rfl | h
      · exact .inl rfl
      rcases List.mem_cons.1 h with rfl | h
      · exact .inr rfl
      rcases List.mem_append.1 h with h | h
      · exact .inl (isDigit_of_mem_replicate h)
      · exact .inl (isDigit_of_mem_digits h)

theorem Double.mem_signText {x : Double} {c : Char} (h : c ∈ x.signText) : c = '-' := by
  unfold signText at h
  split at h
  · exact List.mem_singleton.1 h
  · cases h

/-- A double is written in digits, with a sign and a point; one that is not finite by its name. -/
theorem Double.mem_sql {x : Double} {c : Char} (h : c ∈ x.sql.toList) :
    c.isDigit = true ∨ c ∈ ['-', '.', 'N', 'a', 'i', 'n', 'f'] := by
  unfold sql at h
  split at h
  · rw [String.toList_ofList] at h
    rcases List.mem_append.1 h with h | h
    · obtain rfl := mem_signText h
      exact .inr (by decide)
    · rcases Decimal.mem_positional h with hdigit | rfl
      · exact .inl hdigit
      · exact .inr (by decide)
  split at h
  · have hmem : c = 'N' ∨ c = 'a' ∨ c = 'N' := by simpa using h
    rcases hmem with rfl | rfl | rfl <;> exact .inr (by decide)
  · rw [String.toList_ofList] at h
    rcases List.mem_append.1 h with h | h
    · obtain rfl := mem_signText h
      exact .inr (by decide)
    · exact .inr (List.mem_append_right ['-', '.', 'N', 'a'] h)

theorem Double.unquoted_sql (x : Double) : Unquoted x.sql := by
  intro h
  rcases mem_sql h with hc | hc <;> exact absurd hc (by decide)

theorem Operator.unquoted_sqlText (o : Operator) : Unquoted o.sqlText := by
  cases o <;> decide

theorem SetOperator.unquoted_sqlText (o : SetOperator) : Unquoted o.sqlText := by
  cases o <;> decide

theorem Direction.unquoted_sqlText (d : Direction) : Unquoted d.sqlText := by
  cases d <;> decide

theorem JoinCondition.unquoted_adverb (c : JoinCondition) : Unquoted c.adverb := by
  unfold JoinCondition.adverb
  split <;> decide

/-- Names with a separator between neighbours. -/
theorem unquoted_names (separator : String) (hseparator : Unquoted separator) {names : List Ident}
    (h : AllUnquoted (names.map .name)) :
    Unquoted (joined separator (names.map Ident.sqlText)) := by
  refine unquoted_joined separator hseparator fun t ht => ?_
  obtain ⟨i, hi, rfl⟩ := List.mem_map.1 ht
  exact h (.name i) (List.mem_map_of_mem hi)

theorem QualifiedName.unquoted_sqlText {n : QualifiedName} (h : AllUnquoted n.leaves) :
    Unquoted n.sqlText := unquoted_names "." (by decide) h

theorem QualifiedName.textValues_leaves (n : QualifiedName) : textValues n.leaves = [] :=
  textValues_names n.parts

theorem clause_alias {aliasName : Option Ident} (h : AllUnquoted (aliasName.toList.map .name)) :
    Clause (optionalClause " AS " (aliasName.map Ident.sqlText))
      (optionalClause " AS " (aliasName.map Ident.sqlText)) [] := by
  cases aliasName with
  | none => exact .empty
  | some i =>
    exact .behind _ (by decide)
      (Clause.plain (t := i.sqlText) (h (.name i) List.mem_cons_self)).filled

/-- A join with a condition, put together from relation and condition. -/
theorem clause_join (keyword : String) {relation relation' : String} {c : JoinCondition}
    {ss ss' : List String}
    (hkeyword : Unquoted keyword) (hrelation : Clause relation relation' ss)
    (hc : Clause c.sqlText c.emptied.sqlText ss') :
    Clause (" " ++ c.adverb ++ keyword ++ relation ++ c.sqlText)
      (" " ++ c.emptied.adverb ++ keyword ++ relation' ++ c.emptied.sqlText) (ss ++ ss') := by
  have hadverb : c.emptied.adverb = c.adverb := by
    cases c <;> rfl
  have hlead := ((Clause.plain (t := " ") (by decide)).append (.plain c.unquoted_adverb)).append
    (.plain hkeyword)
  rw [hadverb]
  exact (hlead.append hrelation).append hc

/-! ## Trees -/

theorem Constant.filled : ∀ c : Constant,
    Filled c.sqlText c.emptied.sqlText (textValues [.constant c])
  | .long n => (Clause.plain (unquoted_toString n.toInt)).filled
  | .double x => (Clause.plain x.unquoted_sql).filled
  | .text s => .literal s
  | .boolean true => (Clause.plain (t := "TRUE") (by decide)).filled
  | .boolean false => (Clause.plain (t := "FALSE") (by decide)).filled
  | .null => (Clause.plain (t := "NULL") (by decide)).filled

mutual

theorem Expr.filled : ∀ e : Expr, AllUnquoted e.leaves →
    Filled e.sqlText e.emptied.sqlText (textValues e.leaves)
  | .identifier name, h => (Clause.plain (h _ List.mem_cons_self)).filled
  | .compound parts, h => by
    rw [Expr.leaves, textValues_names]
    exact (Clause.plain (unquoted_names "." (by decide) h)).filled
  | .wildcard, _ => (Clause.plain (t := "*") (by decide)).filled
  | .constant value, _ => value.filled
  | .call c, h => Call.filled c h
  | .binary o, h => Binary.filled o h
  | .nested inner, h => by
    have hinner := Clause.behind "(" (by decide) (Expr.filled inner h)
    have hclosed := hinner.append (.plain (t := ")") (by decide))
    rw [List.append_nil] at hclosed
    exact hclosed.filled
  | .inSubquery operand subquery negated, h => by
    obtain ⟨hoperand, hsubquery⟩ := (allUnquoted_append _ _).1 h
    have hnot : Clause (if negated then " NOT" else "") (if negated then " NOT" else "") [] :=
      .plain (by cases negated <;> decide)
    have hin := ((Expr.filled operand hoperand).append hnot).append
      (.plain (t := " IN (") (by decide))
    have hclosed := (hin.append (Query.clause subquery hsubquery)).append
      (.plain (t := ")") (by decide))
    simp only [List.append_nil] at hclosed
    rw [Expr.leaves, textValues_append]
    exact hclosed
  | .existence subquery negated, h => by
    have hnot : Clause (if negated then "NOT " else "") (if negated then "NOT " else "") [] :=
      .plain (by cases negated <;> decide)
    have hexists := hnot.append (.plain (t := "EXISTS (") (by decide))
    have hclosed := (hexists.append (Query.clause subquery h)).append
      (.plain (t := ")") (by decide))
    simp only [List.append_nil, List.nil_append] at hclosed
    exact hclosed.filled
  | .raw sql, h => (Clause.plain (h _ List.mem_cons_self)).filled

theorem Call.filled : ∀ c : Call, AllUnquoted c.leaves →
    Filled c.sqlText c.emptied.sqlText (textValues c.leaves)
  | ⟨name, args⟩, h => by
    obtain ⟨hname, hargs⟩ := (allUnquoted_append _ _).1 h
    rw [Expr.leavesAll_eq] at hargs
    have hjoined := Filled.joined ", " (by decide)
      fun e he => Expr.filled_of_mem args e he (hargs.of_mem he)
    have hcall := (Clause.plain (name.unquoted_sqlText hname)).filled.around "(" (by decide) hjoined
    have hclosed := hcall.append (.plain (t := ")") (by decide))
    simp only [List.append_nil, List.nil_append] at hclosed
    rw [Call.leaves, textValues_append, name.textValues_leaves, Expr.leavesAll_eq,
      textValues_flatMap, Call.emptied, Call.sqlText, Call.sqlText, Expr.sqlTexts_eq,
      Expr.sqlTexts_eq, Expr.emptiedAll_eq, List.map_map]
    exact hclosed

theorem Binary.filled : ∀ o : Binary, AllUnquoted o.leaves →
    Filled o.sqlText o.emptied.sqlText (textValues o.leaves)
  | ⟨left, operator, right⟩, h => by
    obtain ⟨hleft, hright⟩ := (allUnquoted_append _ _).1 h
    have hsymbol := (Expr.filled left hleft).append
      ((Clause.plain (t := " ") (by decide)).append (.plain operator.unquoted_sqlText))
    have hboth := hsymbol.around " " (by decide) (Expr.filled right hright)
    rw [Binary.leaves, textValues_append, Binary.emptied, Binary.sqlText, Binary.sqlText]
    simp only [List.append_nil, ← String.append_assoc] at hboth
    exact hboth

theorem Relation.clause : ∀ r : Relation, AllUnquoted r.leaves →
    Clause r.sqlText r.emptied.sqlText (textValues r.leaves)
  | .table name aliasName args hints, h => by
    rw [Relation.leaves, allUnquoted_append, allUnquoted_append, allUnquoted_append] at h
    obtain ⟨⟨⟨hname, hargs⟩, halias⟩, hhints⟩ := h
    rw [Expr.leavesAll_eq] at hargs hhints
    have hlist := Clause.list "(" ")" (by decide) (by decide)
      fun e he => Expr.filled_of_mem args e he (hargs.of_mem he)
    have hwith := Clause.list " WITH (" ")" (by decide) (by decide)
      fun e he => Expr.filled_of_mem hints e he (hhints.of_mem he)
    have htable := (((Clause.plain (name.unquoted_sqlText hname)).append hlist).append
      (clause_alias halias)).append hwith
    simp only [List.append_nil, List.nil_append] at htable
    rw [Relation.leaves, textValues_append, textValues_append, textValues_append,
      name.textValues_leaves, textValues_names, List.nil_append, List.append_nil,
      Expr.leavesAll_eq, Expr.leavesAll_eq, textValues_flatMap, textValues_flatMap,
      Relation.emptied, Relation.sqlText, Relation.sqlText, Expr.sqlTexts_eq, Expr.sqlTexts_eq,
      Expr.sqlTexts_eq, Expr.sqlTexts_eq, Expr.emptiedAll_eq, Expr.emptiedAll_eq, List.map_map,
      List.map_map]
    exact htable
  | .derived subquery aliasName, h => by
    obtain ⟨hsubquery, halias⟩ := (allUnquoted_append _ _).1 h
    have hderived := (Query.clause subquery hsubquery).append (clause_alias halias)
    rw [Relation.leaves, textValues_append, textValues_names]
    exact hderived

theorem JoinCondition.clause : ∀ c : JoinCondition, AllUnquoted c.leaves →
    Clause c.sqlText c.emptied.sqlText (textValues c.leaves)
  | .predicate e, h => .behind " ON " (by decide) (Expr.filled e h)
  | .columns names, h => by
    have hnames := Clause.plain (unquoted_names ", " (by decide) h)
    have husing := (Clause.behind " USING(" (by decide) hnames.filled).append
      (.plain (t := ")") (by decide))
    rw [JoinCondition.leaves, textValues_names]
    exact husing
  | .natural, _ => .empty
  | .absent, _ => .empty

theorem Join.clause : ∀ j : Join, AllUnquoted j.leaves →
    Clause j.sqlText j.emptied.sqlText (textValues j.leaves)
  | ⟨relation, .inner c⟩, h => by
    obtain ⟨hrelation, hc⟩ := (allUnquoted_append _ _).1 h
    rw [Join.leaves, textValues_append]
    exact clause_join "JOIN " (by decide) (Relation.clause relation hrelation)
      (JoinCondition.clause c hc)
  | ⟨relation, .left c⟩, h => by
    obtain ⟨hrelation, hc⟩ := (allUnquoted_append _ _).1 h
    rw [Join.leaves, textValues_append]
    exact clause_join "LEFT JOIN " (by decide) (Relation.clause relation hrelation)
      (JoinCondition.clause c hc)
  | ⟨relation, .right c⟩, h => by
    obtain ⟨hrelation, hc⟩ := (allUnquoted_append _ _).1 h
    rw [Join.leaves, textValues_append]
    exact clause_join "RIGHT JOIN " (by decide) (Relation.clause relation hrelation)
      (JoinCondition.clause c hc)
  | ⟨relation, .full c⟩, h => by
    obtain ⟨hrelation, hc⟩ := (allUnquoted_append _ _).1 h
    rw [Join.leaves, textValues_append]
    exact clause_join "FULL JOIN " (by decide) (Relation.clause relation hrelation)
      (JoinCondition.clause c hc)
  | ⟨relation, .cross⟩, h => by
    rw [Join.leaves, JoinKind.leaves, List.append_nil] at h ⊢
    exact .behind " CROSS JOIN " (by decide) (Relation.clause relation h).filled
  | ⟨relation, .comma⟩, h => by
    rw [Join.leaves, JoinKind.leaves, List.append_nil] at h ⊢
    exact .behind ", " (by decide) (Relation.clause relation h).filled

theorem FromClause.clause : ∀ f : FromClause, AllUnquoted f.leaves →
    Clause f.sqlText f.emptied.sqlText (textValues f.leaves)
  | ⟨relation, joins⟩, h => by
    obtain ⟨hrelation, hjoins⟩ := (allUnquoted_append _ _).1 h
    rw [Join.leavesAll_eq] at hjoins
    have hjoined := Clause.joined fun j hj => Join.clause_of_mem joins j hj (hjoins.of_mem hj)
    have hsource := (Relation.clause relation hrelation).append hjoined
    rw [FromClause.leaves, textValues_append, Join.leavesAll_eq, textValues_flatMap,
      FromClause.emptied, FromClause.sqlText, FromClause.sqlText, Join.sqlTexts_eq,
      Join.sqlTexts_eq, Join.emptiedAll_eq, List.map_map]
    exact hsource

theorem SelectItem.filled : ∀ i : SelectItem, AllUnquoted i.leaves →
    Filled i.sqlText i.emptied.sqlText (textValues i.leaves)
  | .expr e, h => Expr.filled e h
  | .aliased e aliasName, h => by
    obtain ⟨he, halias⟩ := (allUnquoted_append _ _).1 h
    have hname := Clause.plain (halias _ List.mem_cons_self)
    have hitem := (Expr.filled e he).around " AS " (by decide) hname.filled
    rw [SelectItem.leaves, textValues_append]
    exact hitem
  | .qualifiedWildcard qualifier, h => by
    have hitem := (Clause.plain (qualifier.unquoted_sqlText h)).append
      (.plain (t := ".*") (by decide))
    rw [SelectItem.leaves, qualifier.textValues_leaves]
    exact hitem.filled
  | .wildcard, _ => (Clause.plain (t := "*") (by decide)).filled

theorem Projection.filled : ∀ p : Projection, AllUnquoted p.leaves →
    Filled p.sqlText p.emptied.sqlText (textValues p.leaves)
  | ⟨first, rest⟩, h => by
    obtain ⟨hfirst, hrest⟩ := (allUnquoted_append _ _).1 h
    rw [SelectItem.leavesAll_eq] at hrest
    have hitems : ∀ i ∈ first :: rest, Filled i.sqlText i.emptied.sqlText (textValues i.leaves) :=
      List.forall_mem_cons.2 ⟨SelectItem.filled first hfirst,
        fun i hi => SelectItem.filled_of_mem rest i hi (hrest.of_mem hi)⟩
    have hjoined := Filled.joined ", " (by decide) hitems
    rw [Projection.leaves, textValues_append, SelectItem.leavesAll_eq, textValues_flatMap,
      Projection.emptied, Projection.sqlText, Projection.sqlText, SelectItem.sqlTexts_eq,
      SelectItem.sqlTexts_eq, SelectItem.emptiedAll_eq, List.map_map]
    exact hjoined

theorem Select.clause : ∀ s : Select, AllUnquoted s.leaves →
    Clause s.sqlText s.emptied.sqlText (textValues s.leaves)
  | ⟨distinct, projection, source, condition, groupBy, having⟩, h => by
    rw [Select.leaves, allUnquoted_append, allUnquoted_append, allUnquoted_append,
      allUnquoted_append, FromClause.leaves?_eq, Expr.leaves?_eq, Expr.leaves?_eq,
      Expr.leavesAll_eq] at h
    obtain ⟨⟨⟨⟨hprojection, hsource⟩, hcondition⟩, hgroupBy⟩, hhaving⟩ := h
    have hselect := Clause.behind ("SELECT " ++ if distinct then "DISTINCT " else "")
      (by cases distinct <;> decide)
      (Projection.filled projection hprojection)
    have hgroups := Clause.list " GROUP BY " "" (by decide) (by decide)
      fun e he => Expr.filled_of_mem groupBy e he (hgroupBy.of_mem he)
    have hall := (((hselect.append (FromClause.clause? source hsource)).append
      (Expr.clause? " WHERE " (by decide) condition hcondition)).append
      hgroups).append (Expr.clause? " HAVING " (by decide) having hhaving)
    simp only [Select.leaves, textValues_append, FromClause.leaves?_eq, Expr.leaves?_eq,
      Expr.leavesAll_eq, textValues_flatMap, Select.emptied, Select.sqlText, Expr.sqlTexts_eq,
      Expr.emptiedAll_eq, List.map_map]
    exact hall

theorem Body.clause : ∀ b : Body, AllUnquoted b.leaves →
    Clause b.sqlText b.emptied.sqlText (textValues b.leaves)
  | .select s, h => Select.clause s h
  | .query q, h => by
    have hclosed := (Clause.behind "(" (by decide)
      (Query.clause q h).filled).append (.plain (t := ")") (by decide))
    rw [List.append_nil] at hclosed
    exact hclosed
  | .operation operator all left right, h => by
    obtain ⟨hleft, hright⟩ := (allUnquoted_append _ _).1 h
    have hall : Clause (if all then " ALL" else "") (if all then " ALL" else "") [] :=
      .plain (by cases all <;> decide)
    have hoperator := ((Body.clause left hleft).append (.plain (t := " ") (by decide))).append
      (.plain operator.unquoted_sqlText)
    have hboth := ((hoperator.append hall).append (.plain (t := " ") (by decide))).append
      (Body.clause right hright)
    simp only [List.append_nil] at hboth
    rw [Body.leaves, textValues_append]
    exact hboth

theorem OrderItem.filled : ∀ o : OrderItem, AllUnquoted o.leaves →
    Filled o.sqlText o.emptied.sqlText (textValues o.leaves)
  | ⟨expr, direction⟩, h => by
    have hdirection : Clause (optionalClause " " (direction.map Direction.sqlText))
        (optionalClause " " (direction.map Direction.sqlText)) [] := by
      cases direction with
      | none => exact .empty
      | some d => exact .behind _ (by decide) (Clause.plain d.unquoted_sqlText).filled
    have hitem := (Expr.filled expr h).append hdirection
    rw [List.append_nil] at hitem
    exact hitem

theorem Cte.filled : ∀ c : Cte, AllUnquoted c.leaves →
    Filled c.sqlText c.emptied.sqlText (textValues c.leaves)
  | ⟨name, query⟩, h => by
    obtain ⟨hname, hquery⟩ := (allUnquoted_cons _ _).1 h
    have haround := (Clause.plain (t := name.sqlText) hname).filled.around " AS (" (by decide)
      (Query.clause query hquery).filled
    have hcte := haround.append (.plain (t := ")") (by decide))
    rw [List.append_nil] at hcte
    exact hcte

theorem Query.clause : ∀ q : Query, AllUnquoted q.leaves →
    Clause q.sqlText q.emptied.sqlText (textValues q.leaves)
  | ⟨ctes, body, orderBy, limit, offset⟩, h => by
    rw [Query.leaves, allUnquoted_append, allUnquoted_append, allUnquoted_append,
      allUnquoted_append, Cte.leavesAll_eq, OrderItem.leavesAll_eq, Expr.leaves?_eq,
      Expr.leaves?_eq] at h
    obtain ⟨⟨⟨⟨hctes, hbody⟩, horderBy⟩, hlimit⟩, hoffset⟩ := h
    have hwith := Clause.list "WITH " " " (by decide) (by decide)
      fun c hc => Cte.filled_of_mem ctes c hc (hctes.of_mem hc)
    have horder := Clause.list " ORDER BY " "" (by decide) (by decide)
      fun o ho => OrderItem.filled_of_mem orderBy o ho (horderBy.of_mem ho)
    have hall := (((hwith.append (Body.clause body hbody)).append horder).append
      (Expr.clause? " LIMIT " (by decide) limit hlimit)).append
      (Expr.clause? " OFFSET " (by decide) offset hoffset)
    simp only [Query.leaves, textValues_append, Cte.leavesAll_eq, OrderItem.leavesAll_eq,
      Expr.leaves?_eq, textValues_flatMap, Query.emptied, Query.sqlText, Cte.sqlTexts_eq,
      Cte.emptiedAll_eq, OrderItem.sqlTexts_eq, OrderItem.emptiedAll_eq, List.map_map]
    exact hall

theorem Expr.filled_of_mem : ∀ es : List Expr, ∀ e ∈ es, AllUnquoted e.leaves →
    Filled e.sqlText e.emptied.sqlText (textValues e.leaves)
  | [] => fun _ h => absurd h List.not_mem_nil
  | e :: rest => List.forall_mem_cons.2 ⟨Expr.filled e, Expr.filled_of_mem rest⟩

theorem Expr.clause? (keyword : String) (hkeyword : IsKeyword keyword) :
    ∀ e : Option Expr, AllUnquoted (e.elim [] Expr.leaves) →
      Clause (optionalClause keyword (Expr.sqlText? e))
        (optionalClause keyword (Expr.sqlText? (Expr.emptied? e)))
        (textValues (e.elim [] Expr.leaves))
  | none, _ => .empty
  | some e, h => .behind keyword hkeyword (Expr.filled e h)

theorem FromClause.clause? : ∀ f : Option FromClause, AllUnquoted (f.elim [] FromClause.leaves) →
    Clause (optionalClause " FROM " (FromClause.sqlText? f))
      (optionalClause " FROM " (FromClause.sqlText? (FromClause.emptied? f)))
      (textValues (f.elim [] FromClause.leaves))
  | none, _ => .empty
  | some f, h => .behind _ (by decide) (FromClause.clause f h).filled

theorem Join.clause_of_mem : ∀ js : List Join, ∀ j ∈ js, AllUnquoted j.leaves →
    Clause j.sqlText j.emptied.sqlText (textValues j.leaves)
  | [] => fun _ h => absurd h List.not_mem_nil
  | j :: rest => List.forall_mem_cons.2 ⟨Join.clause j, Join.clause_of_mem rest⟩

theorem SelectItem.filled_of_mem : ∀ items : List SelectItem, ∀ i ∈ items, AllUnquoted i.leaves →
    Filled i.sqlText i.emptied.sqlText (textValues i.leaves)
  | [] => fun _ h => absurd h List.not_mem_nil
  | i :: rest => List.forall_mem_cons.2 ⟨SelectItem.filled i, SelectItem.filled_of_mem rest⟩

theorem OrderItem.filled_of_mem : ∀ items : List OrderItem, ∀ o ∈ items, AllUnquoted o.leaves →
    Filled o.sqlText o.emptied.sqlText (textValues o.leaves)
  | [] => fun _ h => absurd h List.not_mem_nil
  | o :: rest => List.forall_mem_cons.2 ⟨OrderItem.filled o, OrderItem.filled_of_mem rest⟩

theorem Cte.filled_of_mem : ∀ ctes : List Cte, ∀ c ∈ ctes, AllUnquoted c.leaves →
    Filled c.sqlText c.emptied.sqlText (textValues c.leaves)
  | [] => fun _ h => absurd h List.not_mem_nil
  | c :: rest => List.forall_mem_cons.2 ⟨Cte.filled c, Cte.filled_of_mem rest⟩

end

/-! ## Nodes -/

theorem Kind.filled : ∀ {kind : Kind} {sqlText : kind.Carrier → String},
    kind.sqlText? = some sqlText → ∀ tree, AllUnquoted (kind.leaves tree) →
      Filled (sqlText tree) (sqlText (kind.emptied tree)) (textValues (kind.leaves tree))
  | .ident, _, rfl, i, h => (Clause.plain (h (.name i) List.mem_cons_self)).filled
  | .qualifiedName, _, rfl, n, h => by
    rw [Kind.leaves, n.textValues_leaves]
    exact (Clause.plain (n.unquoted_sqlText h)).filled
  | .constant, _, rfl, c, _ => c.filled
  | .setOperator, _, rfl, o, _ => (Clause.plain o.unquoted_sqlText).filled
  | .expr, _, rfl, e, h => e.filled h
  | .call, _, rfl, c, h => c.filled h
  | .binary, _, rfl, o, h => o.filled h
  | .relation, _, rfl, r, h => (r.clause h).filled
  | .joinCondition, _, rfl, c, h => (c.clause h).filled
  | .join, _, rfl, j, h => (j.clause h).filled
  | .fromClause, _, rfl, f, h => (f.clause h).filled
  | .selectItem, _, rfl, i, h => i.filled h
  | .select, _, rfl, s, h => (s.clause h).filled
  | .body, _, rfl, b, h => (b.clause h).filled
  | .orderItem, _, rfl, o, h => o.filled h
  | .cte, _, rfl, c, h => c.filled h
  | .query, _, rfl, q, h => (q.clause h).filled

namespace Node

open Piece

def leaves (n : Node) : List Leaf := n.kind.leaves n.tree

def emptied (n : Node) : Node := ⟨n.kind, n.kind.emptied n.tree⟩

theorem filled {n : Node} {text : String} (h : n.sqlText? = some text) (hq : AllUnquoted n.leaves) :
    ∃ empty, n.emptied.sqlText? = some empty ∧ Filled text empty (textValues n.leaves) := by
  obtain ⟨sqlText, hkind, rfl⟩ := Option.map_eq_some_iff.1 h
  refine ⟨sqlText (n.kind.emptied n.tree), ?_, Kind.filled hkind n.tree hq⟩
  show n.kind.sqlText?.map _ = _
  rw [hkind]
  rfl

theorem sqlText?_of_toSql? {n : Node} {sql : Logged String} (h : n.toSql? = some sql) :
    n.sqlText? = some sql.value := by
  rw [← n.toSql?_value, h]
  rfl

/-- **No text value escapes its literal.** Where no name and no raw text has a quote in it, the SQL
of a node closes every literal, the literals are the text values in their order, and outside of them
the SQL is that of the emptied node. So nodes that differ only in text values have the same SQL
outside of their literals. -/
theorem literals_toSql {n : Node} {sql : Logged String} (h : n.toSql? = some sql)
    (hq : AllUnquoted n.leaves) :
    Closed (pieces sql.value) ∧ literals (pieces sql.value) = textValues n.leaves
      ∧ (∃ empty, n.emptied.toSql? = some empty ∧
        outside (pieces sql.value) = outside (pieces empty.value))
      ∧ ∀ (m : Node) (sql' : Logged String), m.toSql? = some sql' → AllUnquoted m.leaves →
        m.emptied = n.emptied → outside (pieces sql'.value) = outside (pieces sql.value) := by
  obtain ⟨e, he, ps, qs, hps, hqs, hclosed, hliterals, houtside⟩ := filled (sqlText?_of_toSql? h) hq
  rw [hps.pieces_eq]
  refine ⟨hclosed, hliterals, ?_, ?_⟩
  · rw [← toSql?_value] at he
    obtain ⟨empty, hempty, rfl⟩ := Option.map_eq_some_iff.1 he
    exact ⟨empty, hempty, by rw [hqs.pieces_eq, houtside]⟩
  · intro m sql' hm hqm heq
    obtain ⟨e', he', ps', qs', hps', hqs', -, -, houtside'⟩ := filled (sqlText?_of_toSql? hm) hqm
    rw [heq, he] at he'
    cases he'
    rw [hps'.pieces_eq, houtside', houtside, ← hqs.pieces_eq, ← hqs'.pieces_eq]

/-- The call `f` of two text values. -/
def callOfTexts (s t : String) : Node :=
  ⟨.call, ⟨.single ⟨"f"⟩, [.constant (.text s), .constant (.text t)]⟩⟩

/-- Text values that begin and end with quotes stay apart, next to each other as they are. -/
theorem literals_callOfTexts :
    ∃ sql sql', (callOfTexts "a\x27" "\x27\x27b").toSql? = some sql
      ∧ (callOfTexts "" "\x27, \x27").toSql? = some sql'
      ∧ literals (pieces sql.value) = ["a\x27", "\x27\x27b"]
      ∧ outside (pieces sql'.value) = outside (pieces sql.value) := by
  have hq (s t : String) : AllUnquoted (callOfTexts s t).leaves := by
    simp [callOfTexts, leaves, Kind.leaves, Call.leaves, QualifiedName.leaves, QualifiedName.parts,
      QualifiedName.single, Expr.leaves, AllUnquoted, Leaf.IsUnquoted]
    decide
  have h := literals_toSql (n := callOfTexts "a\x27" "\x27\x27b") rfl (hq _ _)
  exact ⟨_, _, rfl, rfl, h.2.1, h.2.2.2 (callOfTexts "" "\x27, \x27") _ rfl (hq _ _) rfl⟩

end Node

end SqlTree
