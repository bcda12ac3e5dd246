import SqlTree.Proofs.Sql.Signs
import SqlTree.Proofs.Sql.Writing
import SqlTree.Sql.Text

/-!
# Trees that are the same

Sameness compares doubles as numbers, so the two zeros are the same, and SQL shows the sign of a
zero. Nothing else comes between sameness and equality: trees that are the same are `Alike`, for
each type of tree (`Expr.alike`, …, `Query.alike`, by recursion on both trees at once). So they have
one text just when their zeros have the same signs, and then they are equal.
-/

namespace SqlTree

open Json Document Template

/-! ## Sameness of documents -/

@[simp] theorem Json.Document.same_tagged (m n : String) (d e : Document) :
    (tagged m d).same (tagged n e) = (m == n && d.same e) := by
  simp [tagged, same, sameMembers]

/-- A variant with content is not the same as one without. -/
@[simp] theorem Json.Document.same_tagged_text (m s : String) (d : Document) :
    (tagged m d).same (.text s) = false := by
  simp [tagged, same]

@[simp] theorem Json.Document.same_text_tagged (m s : String) (d : Document) :
    (text s).same (tagged m d) = false := by
  simp [tagged, same]

theorem Json.Document.eq_null_of_same : ∀ {d : Document}, d.same .null = true → d = .null
  | .null, _ => rfl

theorem Json.Document.eq_null_of_null_same : ∀ {d : Document}, null.same d = true → d = .null
  | .null, _ => rfl

section

variable {α : Type} {document : α → Document} {R : α → α → Prop}

/-- Lists are the same one by one. -/
theorem forall₂_of_sameItems : ∀ {as bs : List α},
    (∀ a ∈ as, ∀ {b}, (document a).same (document b) = true → R a b) →
    sameItems (as.map document) (bs.map document) = true → List.Forall₂ R as bs
  | [], [], _, _ => .nil
  | [], _ :: _, _, h => by simp [sameItems] at h
  | _ :: _, [], _, h => by simp [sameItems] at h
  | a :: as, b :: bs, hR, h => by
    rw [List.map_cons, List.map_cons, sameItems, Bool.and_eq_true] at h
    exact .cons (hR a List.mem_cons_self h.1)
      (forall₂_of_sameItems (fun c hc => hR c (List.mem_cons_of_mem a hc)) h.2)

/-- Nothing is the same as nothing only. -/
theorem rel_of_same_ofOption (hnull : ∀ a, document a ≠ .null) {a b : Option α}
    (hR : ∀ x ∈ a, ∀ {y}, (document x).same (document y) = true → R x y)
    (h : (ofOption (a.map document)).same (ofOption (b.map document)) = true) :
    Option.Rel R a b := by
  cases a with
  | none =>
    cases b with
    | none => exact .none
    | some b => exact absurd (eq_null_of_null_same h) (hnull b)
  | some a =>
    cases b with
    | none => exact absurd (eq_null_of_same h) (hnull a)
    | some b => exact .some (hR a rfl h)

end

/-! ## Trees without doubles -/

theorem Ident.eq_of_same {i j : Ident} (h : i.document.same j.document = true) : i = j := by
  cases i
  cases j
  simpa [document, same] using h

theorem Ident.eq_of_sameItems {is js : List Ident}
    (h : sameItems (is.map document) (js.map document) = true) : is = js := by
  have hforall := forall₂_of_sameItems (R := Eq) (fun _ _ _ hsame => Ident.eq_of_same hsame) h
  rwa [List.forall₂_eq_eq_eq] at hforall

theorem Ident.eq_of_same_ofOption {i j : Option Ident}
    (h : (ofOption (i.map document)).same (ofOption (j.map document)) = true) : i = j := by
  have hrel := rel_of_same_ofOption (R := Eq) (fun _ => by simp [document])
    (fun _ _ _ hsame => Ident.eq_of_same hsame) h
  cases hrel with
  | none => rfl
  | some hij => rw [hij]

theorem QualifiedName.eq_of_same {m n : QualifiedName} (h : m.document.same n.document = true) :
    m = n := by
  obtain ⟨first, rest⟩ := m
  obtain ⟨first', rest'⟩ := n
  have hparts : first :: rest = first' :: rest' := Ident.eq_of_sameItems h
  rw [List.cons.injEq] at hparts
  rw [hparts.1, hparts.2]

theorem Operator.eq_of_same {o o' : Operator} (h : o.document.same o'.document = true) :
    o = o' := by
  cases o <;> cases o' <;> first | rfl | simp [document, same] at h

theorem SetOperator.eq_of_same {o o' : SetOperator} (h : o.document.same o'.document = true) :
    o = o' := by
  cases o <;> cases o' <;> first | rfl | simp [document, same] at h

theorem Direction.eq_of_same_ofOption {d d' : Option Direction}
    (h : (ofOption (d.map document)).same (ofOption (d'.map document)) = true) : d = d' := by
  rcases d with _ | _ | _ <;> rcases d' with _ | _ | _ <;>
    first | rfl | simp [document, ofOption, same] at h

/-! ## Constants -/

theorem Double.alike {x y : Double} (h : x.same y = true) :
    Alike (fun x => [.constant (.double x)]) sql x y := by
  simp only [same, Bool.and_eq_true, Bool.or_eq_true, beq_iff_eq] at h
  rcases h.2 with rfl | ⟨hx, hy⟩
  · exact .of_eq rfl
  by_cases hsign : x.negative = y.negative
  · exact .of_eq (eq_of_rank_eq hsign (hx.trans hy.symm))
  have hsigns {z : Double} (hz : z.rank = 0) :
      zeroSigns [.constant (.double z)] = [z.negative] := by
    simp [zeroSigns, doubleValues, hz]
  exact
    { length := by rw [hsigns hx, hsigns hy]; rfl
      equal := fun heq => by
        rw [hsigns hx, hsigns hy] at heq
        exact absurd (List.singleton_inj.1 heq) hsign
      diverge := fun _ => diverge_of_signs_ne hx hy hsign }

theorem Constant.alike : ∀ {c d : Constant}, c.document.same d.document = true →
    Alike (fun c => [.constant c]) sqlText c d
  | .double x, d, h => by
    cases d with
    | double y =>
      have hsame : x.same y = true := by simpa [document, same] using h
      exact Agrees.imp (Double.alike hsame) (congrArg Constant.double)
    | _ => simp [document, same] at h
  | .long m, d, h => by
    cases d with
    | long n =>
      have hsame : m.toInt = n.toInt := by simpa [document, same] using h
      exact .of_eq (congrArg Constant.long (Int64.toInt_inj.1 hsame))
    | _ => simp [document, same] at h
  | .text s, d, h => by
    cases d with
    | text t => exact .of_eq (by simpa [document, same] using h)
    | _ => simp [document, same] at h
  | .boolean a, d, h => by
    cases d with
    | boolean b => exact .of_eq (by simpa [document, same] using h)
    | _ => simp [document, same] at h
  | .null, d, h => by
    cases d with
    | null => exact .of_eq rfl
    | _ => simp [document] at h

/-! ## Trees -/

theorem Expr.sqlText?_eq (e : Option Expr) : Expr.sqlText? e = e.map Expr.sqlText := by
  cases e <;> rfl

theorem FromClause.sqlText?_eq (f : Option FromClause) :
    FromClause.sqlText? f = f.map FromClause.sqlText := by
  cases f <;> rfl

theorem Expr.document_ne_null (e : Expr) : e.document ≠ .null := by
  cases e <;> simp [document, tagged]

theorem FromClause.document_ne_null (f : FromClause) : f.document ≠ .null := by
  cases f
  simp [document]

/-- A join with a condition, put together from relation and condition. -/
theorem Join.alike_conditioned {kind : JoinCondition → JoinKind} (keyword : String)
    {r r' : Relation} {c c' : JoinCondition} (hadverb : c.adverb = c'.adverb)
    (hr : Alike Relation.leaves Relation.sqlText r r')
    (hc : Alike JoinCondition.leaves JoinCondition.sqlText c c') :
    Agrees (r.leaves ++ c.leaves) (r'.leaves ++ c'.leaves)
      ((⟨r, kind c⟩ : Join) = ⟨r', kind c'⟩)
      (" " ++ c.adverb ++ keyword ++ r.sqlText ++ c.sqlText)
      (" " ++ c'.adverb ++ keyword ++ r'.sqlText ++ c'.sqlText) := by
  rw [hadverb]
  refine ((Agrees.before _ hr).append hc).imp ?_
  rintro ⟨rfl, rfl⟩
  rfl

/-- A join without a condition. -/
theorem Join.alike_unconditioned {kind : JoinKind} (separator : String) {r r' : Relation}
    (hr : Alike Relation.leaves Relation.sqlText r r') :
    Agrees (r.leaves ++ []) (r'.leaves ++ []) ((⟨r, kind⟩ : Join) = ⟨r', kind⟩)
      (separator ++ r.sqlText) (separator ++ r'.sqlText) := by
  rw [List.append_nil, List.append_nil]
  exact (Agrees.before separator hr).imp fun heq => by rw [heq]

theorem JoinCondition.adverb_eq_of_same : ∀ {c c' : JoinCondition},
    c.document.same c'.document = true → c.adverb = c'.adverb
  | .predicate _, c', h | .columns _, c', h | .natural, c', h | .absent, c', h => by
    cases c' <;> first | rfl | simp [document, same] at h

mutual

theorem Expr.alike : ∀ (a : Expr) {b : Expr}, a.document.same b.document = true →
    Alike Expr.leaves Expr.sqlText a b
  | .identifier name, b, h => by
    cases b with
    | identifier name' =>
      have hname : name = name' := Ident.eq_of_same (by simpa [Expr.document] using h)
      exact .of_eq (congrArg Expr.identifier hname)
    | _ => simp [Expr.document, Ident.document, same] at h
  | .compound parts, b, h => by
    cases b with
    | compound parts' =>
      have hparts : parts = parts' :=
        Ident.eq_of_sameItems (by simpa [Expr.document, same] using h)
      exact .of_eq (congrArg Expr.compound hparts)
    | _ => simp [Expr.document, same] at h
  | .wildcard, b, h => by
    cases b with
    | wildcard => exact .of_eq rfl
    | _ => simp [Expr.document] at h
  | .constant value, b, h => by
    cases b with
    | constant value' =>
      have hvalue := Constant.alike (c := value) (d := value') (by simpa [Expr.document] using h)
      exact Agrees.imp hvalue (congrArg Expr.constant)
    | _ => simp [Expr.document] at h
  | .call c, b, h => by
    cases b with
    | call c' =>
      have hc := Call.alike c (b := c') (by simpa [Expr.document] using h)
      exact Agrees.imp hc (congrArg Expr.call)
    | _ => simp [Expr.document] at h
  | .binary o, b, h => by
    cases b with
    | binary o' =>
      have ho := Binary.alike o (b := o') (by simpa [Expr.document] using h)
      exact Agrees.imp ho (congrArg Expr.binary)
    | _ => simp [Expr.document] at h
  | .nested inner, b, h => by
    cases b with
    | nested inner' =>
      have hinner := Expr.alike inner (b := inner') (by simpa [Expr.document] using h)
      exact ((Agrees.before "(" hinner).behind ")").imp (congrArg Expr.nested)
    | _ => simp [Expr.document] at h
  | .inSubquery operand subquery negated, b, h => by
    cases b with
    | inSubquery operand' subquery' negated' =>
      simp only [Expr.document, same_tagged, same, sameMembers, beq_self_eq_true, Bool.true_and,
        Bool.and_true, Bool.and_eq_true, beq_iff_eq] at h
      obtain ⟨hoperand, hsubquery, rfl⟩ := h
      have hboth := (((Agrees.behind (Expr.alike operand hoperand)
        (if negated then " NOT" else "")).behind " IN (").append
        (Query.alike subquery hsubquery)).behind ")"
      refine hboth.imp ?_
      rintro ⟨rfl, rfl⟩
      rfl
    | _ => simp [Expr.document, same] at h
  | .existence subquery negated, b, h => by
    cases b with
    | existence subquery' negated' =>
      simp only [Expr.document, same_tagged, same, sameMembers, beq_self_eq_true, Bool.true_and,
        Bool.and_true, Bool.and_eq_true, beq_iff_eq] at h
      obtain ⟨hsubquery, rfl⟩ := h
      have hexists := (Agrees.before ((if negated then "NOT " else "") ++ "EXISTS (")
        (Query.alike subquery hsubquery)).behind ")"
      exact hexists.imp fun heq => by rw [heq]
    | _ => simp [Expr.document, same] at h
  | .raw sql, b, h => by
    cases b with
    | raw sql' => exact .of_eq (by simpa [Expr.document, same] using h)
    | _ => simp [Expr.document, same] at h

theorem Call.alike : ∀ (a : Call) {b : Call}, a.document.same b.document = true →
    Alike Call.leaves Call.sqlText a b
  | ⟨name, args⟩, ⟨name', args'⟩, h => by
    simp only [Call.document, same, sameMembers, beq_self_eq_true, Bool.true_and, Bool.and_true,
      Bool.and_eq_true, Expr.documents_eq] at h
    obtain rfl := QualifiedName.eq_of_same h.1
    have hargs := Agrees.joined ", " (forall₂_of_sameItems (Expr.alike_of_mem args) h.2)
    have hcall := ((Agrees.refl trivial name.leaves (name.sqlText ++ "(")).append hargs).behind ")"
    rw [Alike, Call.leaves, Call.leaves, Expr.leavesAll_eq, Expr.leavesAll_eq, Call.sqlText,
      Call.sqlText, Expr.sqlTexts_eq, Expr.sqlTexts_eq]
    exact hcall.imp fun heq => by rw [heq.2]

theorem Binary.alike : ∀ (a : Binary) {b : Binary}, a.document.same b.document = true →
    Alike Binary.leaves Binary.sqlText a b
  | ⟨left, operator, right⟩, ⟨left', operator', right'⟩, h => by
    simp only [Binary.document, same, sameMembers, beq_self_eq_true, Bool.true_and, Bool.and_true,
      Bool.and_eq_true] at h
    obtain ⟨hleft, hoperator, hright⟩ := h
    obtain rfl := Operator.eq_of_same hoperator
    have hboth := (((Agrees.behind (Expr.alike left hleft) " ").behind operator.sqlText).behind
      " ").append (Expr.alike right hright)
    refine hboth.imp ?_
    rintro ⟨rfl, rfl⟩
    rfl

theorem Relation.alike : ∀ (a : Relation) {b : Relation}, a.document.same b.document = true →
    Alike Relation.leaves Relation.sqlText a b
  | .table name aliasName args hints, b, h => by
    cases b with
    | table name' aliasName' args' hints' =>
      simp only [Relation.document, same_tagged, same, sameMembers, beq_self_eq_true,
        Bool.true_and, Bool.and_true, Bool.and_eq_true, Expr.documents_eq] at h
      obtain ⟨hname, halias, hargs, hhints⟩ := h
      obtain rfl := QualifiedName.eq_of_same hname
      obtain rfl := Ident.eq_of_same_ofOption halias
      have hargs := Agrees.listClause "(" ")" (forall₂_of_sameItems (Expr.alike_of_mem args) hargs)
      have hhints := Agrees.listClause " WITH (" ")"
        (forall₂_of_sameItems (Expr.alike_of_mem hints) hhints)
      have halias := Agrees.refl trivial (aliasName.toList.map Leaf.name)
        (optionalClause " AS " (aliasName.map Ident.sqlText))
      have htable := (((Agrees.refl trivial name.leaves name.sqlText).append hargs).append
        halias).append hhints
      rw [Alike, Relation.leaves, Relation.leaves, Expr.leavesAll_eq, Expr.leavesAll_eq,
        Expr.leavesAll_eq, Expr.leavesAll_eq, Relation.sqlText, Relation.sqlText, Expr.sqlTexts_eq,
        Expr.sqlTexts_eq, Expr.sqlTexts_eq, Expr.sqlTexts_eq]
      refine htable.imp ?_
      rintro ⟨⟨⟨-, rfl⟩, -⟩, rfl⟩
      rfl
    | derived => simp [Relation.document, same] at h
  | .derived subquery aliasName, b, h => by
    cases b with
    | table => simp [Relation.document, same] at h
    | derived subquery' aliasName' =>
      simp only [Relation.document, same_tagged, same, sameMembers, beq_self_eq_true,
        Bool.true_and, Bool.and_true, Bool.and_eq_true] at h
      obtain rfl := Ident.eq_of_same_ofOption h.2
      have hderived := Agrees.append (Query.alike subquery h.1)
        (.refl trivial (aliasName.toList.map Leaf.name)
          (optionalClause " AS " (aliasName.map Ident.sqlText)))
      exact hderived.imp fun heq => by rw [heq.1]

theorem JoinCondition.alike : ∀ (a : JoinCondition) {b : JoinCondition},
    a.document.same b.document = true → Alike JoinCondition.leaves JoinCondition.sqlText a b
  | .predicate e, b, h => by
    cases b with
    | predicate e' =>
      have he := Expr.alike e (b := e') (by simpa [JoinCondition.document] using h)
      exact (Agrees.before " ON " he).imp (congrArg JoinCondition.predicate)
    | _ => simp [JoinCondition.document] at h
  | .columns names, b, h => by
    cases b with
    | columns names' =>
      have hnames : names = names' :=
        Ident.eq_of_sameItems (by simpa [JoinCondition.document, same] using h)
      exact .of_eq (congrArg JoinCondition.columns hnames)
    | _ => simp [JoinCondition.document, same] at h
  | .natural, b, h => by
    cases b with
    | natural => exact .of_eq rfl
    | _ => simp [JoinCondition.document, same] at h
  | .absent, b, h => by
    cases b with
    | absent => exact .of_eq rfl
    | _ => simp [JoinCondition.document, same] at h

theorem Join.alike : ∀ (a : Join) {b : Join}, a.document.same b.document = true →
    Alike Join.leaves Join.sqlText a b
  | ⟨relation, kind⟩, ⟨relation', kind'⟩, h => by
    simp only [Join.document, same, sameMembers, beq_self_eq_true, Bool.true_and, Bool.and_true,
      Bool.and_eq_true] at h
    obtain ⟨hrelation, hkind⟩ := h
    have hrelation := Relation.alike relation hrelation
    cases kind with
    | inner c =>
      cases kind' with
      | inner c' =>
        have hc : c.document.same c'.document = true := by simpa [JoinKind.document] using hkind
        exact Join.alike_conditioned "JOIN " (JoinCondition.adverb_eq_of_same hc) hrelation
          (JoinCondition.alike c hc)
      | _ => simp [JoinKind.document] at hkind
    | left c =>
      cases kind' with
      | left c' =>
        have hc : c.document.same c'.document = true := by simpa [JoinKind.document] using hkind
        exact Join.alike_conditioned "LEFT JOIN " (JoinCondition.adverb_eq_of_same hc) hrelation
          (JoinCondition.alike c hc)
      | _ => simp [JoinKind.document] at hkind
    | right c =>
      cases kind' with
      | right c' =>
        have hc : c.document.same c'.document = true := by simpa [JoinKind.document] using hkind
        exact Join.alike_conditioned "RIGHT JOIN " (JoinCondition.adverb_eq_of_same hc) hrelation
          (JoinCondition.alike c hc)
      | _ => simp [JoinKind.document] at hkind
    | full c =>
      cases kind' with
      | full c' =>
        have hc : c.document.same c'.document = true := by simpa [JoinKind.document] using hkind
        exact Join.alike_conditioned "FULL JOIN " (JoinCondition.adverb_eq_of_same hc) hrelation
          (JoinCondition.alike c hc)
      | _ => simp [JoinKind.document] at hkind
    | cross =>
      cases kind' with
      | cross => exact Join.alike_unconditioned " CROSS JOIN " hrelation
      | _ => simp [JoinKind.document, same] at hkind
    | comma =>
      cases kind' with
      | comma => exact Join.alike_unconditioned ", " hrelation
      | _ => simp [JoinKind.document, same] at hkind

theorem FromClause.alike : ∀ (a : FromClause) {b : FromClause},
    a.document.same b.document = true → Alike FromClause.leaves FromClause.sqlText a b
  | ⟨relation, joins⟩, ⟨relation', joins'⟩, h => by
    simp only [FromClause.document, same, sameMembers, beq_self_eq_true, Bool.true_and,
      Bool.and_true, Bool.and_eq_true, Join.documents_eq] at h
    have hjoins := Agrees.joined "" (forall₂_of_sameItems (Join.alike_of_mem joins) h.2)
    have hclause := Agrees.append (Relation.alike relation h.1) hjoins
    rw [Alike, FromClause.leaves, FromClause.leaves, Join.leavesAll_eq, Join.leavesAll_eq,
      FromClause.sqlText, FromClause.sqlText, Join.sqlTexts_eq, Join.sqlTexts_eq]
    refine hclause.imp ?_
    rintro ⟨rfl, rfl⟩
    rfl

theorem SelectItem.alike : ∀ (a : SelectItem) {b : SelectItem},
    a.document.same b.document = true → Alike SelectItem.leaves SelectItem.sqlText a b
  | .expr e, b, h => by
    cases b with
    | expr e' =>
      have he := Expr.alike e (b := e') (by simpa [SelectItem.document] using h)
      exact Agrees.imp he (congrArg SelectItem.expr)
    | _ => simp [SelectItem.document] at h
  | .aliased e aliasName, b, h => by
    cases b with
    | aliased e' aliasName' =>
      simp only [SelectItem.document, same_tagged, same, sameMembers, beq_self_eq_true,
        Bool.true_and, Bool.and_true, Bool.and_eq_true] at h
      obtain rfl := Ident.eq_of_same h.2
      have haliased := Agrees.append ((Agrees.behind (Expr.alike e h.1) " AS "))
        (.refl trivial [.name aliasName] aliasName.sqlText)
      exact haliased.imp fun heq => by rw [heq.1]
    | _ => simp [SelectItem.document, same] at h
  | .qualifiedWildcard qualifier, b, h => by
    cases b with
    | qualifiedWildcard qualifier' =>
      have hqualifier : qualifier = qualifier' :=
        QualifiedName.eq_of_same (by simpa [SelectItem.document] using h)
      exact .of_eq (congrArg SelectItem.qualifiedWildcard hqualifier)
    | _ => simp [SelectItem.document] at h
  | .wildcard, b, h => by
    cases b with
    | wildcard => exact .of_eq rfl
    | _ => simp [SelectItem.document] at h

theorem Projection.alike : ∀ (a : Projection) {b : Projection},
    a.document.same b.document = true → Alike Projection.leaves Projection.sqlText a b
  | ⟨first, rest⟩, ⟨first', rest'⟩, h => by
    simp only [Projection.document, same, sameItems, Bool.and_eq_true,
      SelectItem.documents_eq] at h
    have hitems := Agrees.joined ", " (.cons (SelectItem.alike first h.1)
      (forall₂_of_sameItems (SelectItem.alike_of_mem rest) h.2))
    rw [Alike, Projection.leaves, Projection.leaves, SelectItem.leavesAll_eq,
      SelectItem.leavesAll_eq, Projection.sqlText, Projection.sqlText, SelectItem.sqlTexts_eq,
      SelectItem.sqlTexts_eq]
    refine hitems.imp fun heq => ?_
    rw [List.cons.injEq] at heq
    rw [heq.1, heq.2]

theorem Select.alike : ∀ (a : Select) {b : Select}, a.document.same b.document = true →
    Alike Select.leaves Select.sqlText a b
  | ⟨distinct, projection, source, condition, groupBy, having⟩,
      ⟨distinct', projection', source', condition', groupBy', having'⟩, h => by
    simp only [Select.document, same, sameMembers, beq_self_eq_true, Bool.true_and, Bool.and_true,
      Bool.and_eq_true, beq_iff_eq, Expr.documents_eq, Expr.document?_eq,
      FromClause.document?_eq] at h
    obtain ⟨rfl, hprojection, hsource, hcondition, hgroup, hhaving⟩ := h
    have hsource := Agrees.optionalClause " FROM "
      (rel_of_same_ofOption FromClause.document_ne_null (FromClause.alike? source) hsource)
    have hcondition := Agrees.optionalClause " WHERE "
      (rel_of_same_ofOption Expr.document_ne_null (Expr.alike? condition) hcondition)
    have hgroup := Agrees.listClause " GROUP BY " ""
      (forall₂_of_sameItems (Expr.alike_of_mem groupBy) hgroup)
    have hhaving := Agrees.optionalClause " HAVING "
      (rel_of_same_ofOption Expr.document_ne_null (Expr.alike? having) hhaving)
    have hselect := ((((Agrees.before ("SELECT " ++ if distinct then "DISTINCT " else "")
      (Projection.alike projection hprojection)).append hsource).append hcondition).append
      hgroup).append hhaving
    simp only [Alike, Select.leaves, Select.sqlText, Expr.leavesAll_eq, Expr.leaves?_eq,
      FromClause.leaves?_eq, Expr.sqlTexts_eq, Expr.sqlText?_eq, FromClause.sqlText?_eq]
    refine hselect.imp ?_
    rintro ⟨⟨⟨⟨rfl, rfl⟩, rfl⟩, rfl⟩, rfl⟩
    rfl

theorem Body.alike : ∀ (a : Body) {b : Body}, a.document.same b.document = true →
    Alike Body.leaves Body.sqlText a b
  | .select s, b, h => by
    cases b with
    | select s' =>
      have hs := Select.alike s (b := s') (by simpa [Body.document] using h)
      exact Agrees.imp hs (congrArg Body.select)
    | _ => simp [Body.document] at h
  | .query q, b, h => by
    cases b with
    | query q' =>
      have hq := Query.alike q (b := q') (by simpa [Body.document] using h)
      exact ((Agrees.before "(" hq).behind ")").imp (congrArg Body.query)
    | _ => simp [Body.document] at h
  | .operation operator all left right, b, h => by
    cases b with
    | operation operator' all' left' right' =>
      simp only [Body.document, same_tagged, same, sameMembers, beq_self_eq_true, Bool.true_and,
        Bool.and_true, Bool.and_eq_true, beq_iff_eq] at h
      obtain ⟨hoperator, rfl, hleft, hright⟩ := h
      obtain rfl := SetOperator.eq_of_same hoperator
      have hboth := ((((Agrees.behind (Body.alike left hleft) " ").behind
        operator.sqlText).behind (if all then " ALL" else "")).behind " ").append
        (Body.alike right hright)
      refine hboth.imp ?_
      rintro ⟨rfl, rfl⟩
      rfl
    | _ => simp [Body.document, same] at h

theorem OrderItem.alike : ∀ (a : OrderItem) {b : OrderItem},
    a.document.same b.document = true → Alike OrderItem.leaves OrderItem.sqlText a b
  | ⟨expr, direction⟩, ⟨expr', direction'⟩, h => by
    simp only [OrderItem.document, same, sameMembers, beq_self_eq_true, Bool.true_and,
      Bool.and_true, Bool.and_eq_true] at h
    obtain rfl := Direction.eq_of_same_ofOption h.2
    have hitem := Agrees.behind (Expr.alike expr h.1)
      (optionalClause " " (direction.map Direction.sqlText))
    exact hitem.imp fun heq => by rw [heq]

theorem Cte.alike : ∀ (a : Cte) {b : Cte}, a.document.same b.document = true →
    Alike Cte.leaves Cte.sqlText a b
  | ⟨name, query⟩, ⟨name', query'⟩, h => by
    simp only [Cte.document, same, sameMembers, beq_self_eq_true, Bool.true_and, Bool.and_true,
      Bool.and_eq_true] at h
    obtain rfl := Ident.eq_of_same h.1
    have hcte := ((Agrees.refl trivial [.name name] (name.sqlText ++ " AS (")).append
      (Query.alike query h.2)).behind ")"
    exact hcte.imp fun heq => by rw [heq.2]

theorem Query.alike : ∀ (a : Query) {b : Query}, a.document.same b.document = true →
    Alike Query.leaves Query.sqlText a b
  | ⟨ctes, body, orderBy, limit, offset⟩, ⟨ctes', body', orderBy', limit', offset'⟩, h => by
    simp only [Query.document, same, sameMembers, beq_self_eq_true, Bool.true_and, Bool.and_true,
      Bool.and_eq_true, Cte.documents_eq, OrderItem.documents_eq, Expr.document?_eq] at h
    obtain ⟨hctes, hbody, horder, hlimit, hoffset⟩ := h
    have hctes := Agrees.listClause "WITH " " "
      (forall₂_of_sameItems (Cte.alike_of_mem ctes) hctes)
    have horder := Agrees.listClause " ORDER BY " ""
      (forall₂_of_sameItems (OrderItem.alike_of_mem orderBy) horder)
    have hlimit := Agrees.optionalClause " LIMIT "
      (rel_of_same_ofOption Expr.document_ne_null (Expr.alike? limit) hlimit)
    have hoffset := Agrees.optionalClause " OFFSET "
      (rel_of_same_ofOption Expr.document_ne_null (Expr.alike? offset) hoffset)
    have hquery := (((hctes.append (Body.alike body hbody)).append horder).append hlimit).append
      hoffset
    simp only [Alike, Query.leaves, Query.sqlText, Cte.leavesAll_eq, OrderItem.leavesAll_eq,
      Expr.leaves?_eq, Cte.sqlTexts_eq, OrderItem.sqlTexts_eq, Expr.sqlText?_eq]
    refine hquery.imp ?_
    rintro ⟨⟨⟨⟨rfl, rfl⟩, rfl⟩, rfl⟩, rfl⟩
    rfl

theorem Expr.alike_of_mem : ∀ (es : List Expr), ∀ e ∈ es, ∀ {b : Expr},
    e.document.same b.document = true → Alike Expr.leaves Expr.sqlText e b
  | [] => fun _ h => absurd h List.not_mem_nil
  | e :: rest => List.forall_mem_cons.2 ⟨Expr.alike e, Expr.alike_of_mem rest⟩

theorem Expr.alike? : ∀ (a : Option Expr), ∀ e ∈ a, ∀ {b : Expr},
    e.document.same b.document = true → Alike Expr.leaves Expr.sqlText e b
  | none => fun _ h => by cases h
  | some e => fun _ h => Option.some.inj h ▸ Expr.alike e

theorem FromClause.alike? : ∀ (a : Option FromClause), ∀ f ∈ a, ∀ {b : FromClause},
    f.document.same b.document = true → Alike FromClause.leaves FromClause.sqlText f b
  | none => fun _ h => by cases h
  | some f => fun _ h => Option.some.inj h ▸ FromClause.alike f

theorem Join.alike_of_mem : ∀ (js : List Join), ∀ j ∈ js, ∀ {b : Join},
    j.document.same b.document = true → Alike Join.leaves Join.sqlText j b
  | [] => fun _ h => absurd h List.not_mem_nil
  | j :: rest => List.forall_mem_cons.2 ⟨Join.alike j, Join.alike_of_mem rest⟩

theorem SelectItem.alike_of_mem : ∀ (items : List SelectItem), ∀ i ∈ items, ∀ {b : SelectItem},
    i.document.same b.document = true → Alike SelectItem.leaves SelectItem.sqlText i b
  | [] => fun _ h => absurd h List.not_mem_nil
  | i :: rest => List.forall_mem_cons.2 ⟨SelectItem.alike i, SelectItem.alike_of_mem rest⟩

theorem OrderItem.alike_of_mem : ∀ (items : List OrderItem), ∀ o ∈ items, ∀ {b : OrderItem},
    o.document.same b.document = true → Alike OrderItem.leaves OrderItem.sqlText o b
  | [] => fun _ h => absurd h List.not_mem_nil
  | o :: rest => List.forall_mem_cons.2 ⟨OrderItem.alike o, OrderItem.alike_of_mem rest⟩

theorem Cte.alike_of_mem : ∀ (ctes : List Cte), ∀ c ∈ ctes, ∀ {b : Cte},
    c.document.same b.document = true → Alike Cte.leaves Cte.sqlText c b
  | [] => fun _ h => absurd h List.not_mem_nil
  | c :: rest => List.forall_mem_cons.2 ⟨Cte.alike c, Cte.alike_of_mem rest⟩

end

/-! ## Nodes -/

/-- What is the same is alike, for every kind that is written as SQL. -/
theorem Kind.alike (kind : Kind) {sqlText : kind.Carrier → String}
    (hkind : kind.sqlText? = some sqlText) {a b : kind.Carrier} (h : kind.same a b = true) :
    Alike kind.leaves sqlText a b := by
  cases kind <;> cases hkind
  case ident => exact .of_eq (Ident.eq_of_same h)
  case qualifiedName => exact .of_eq (QualifiedName.eq_of_same h)
  case setOperator => exact .of_eq (SetOperator.eq_of_same h)
  case constant => exact Constant.alike h
  case expr => exact Expr.alike a h
  case call => exact Call.alike a h
  case binary => exact Binary.alike a h
  case relation => exact Relation.alike a h
  case joinCondition => exact JoinCondition.alike a h
  case join => exact Join.alike a h
  case fromClause => exact FromClause.alike a h
  case selectItem => exact SelectItem.alike a h
  case select => exact Select.alike a h
  case body => exact Body.alike a h
  case orderItem => exact OrderItem.alike a h
  case cte => exact Cte.alike a h
  case query => exact Query.alike a h

/-- **The same trees have one text just when their zeros have the same signs.** The trees are then
equal, and so are the fingerprints of queries. -/
theorem Node.toSql?_eq_iff_of_same :
    (∀ (kind : Kind) (a b : kind.Carrier), kind.writer?.isSome = true → kind.same a b = true →
      ((⟨kind, a⟩ : Node).toSql?.map Logged.value = (⟨kind, b⟩ : Node).toSql?.map Logged.value ↔
        zeroSigns (kind.leaves a) = zeroSigns (kind.leaves b))
      ∧ (zeroSigns (kind.leaves a) = zeroSigns (kind.leaves b) → a = b))
    ∧ ∀ p q : Query, Kind.query.same p q = true → zeroSigns p.leaves = zeroSigns q.leaves →
      p.fingerprint.value = q.fingerprint.value := by
  refine ⟨fun kind a b hkind h => ?_, fun p q h hsigns => ?_⟩
  · obtain ⟨sqlText, hsqlText⟩ : ∃ sqlText, kind.sqlText? = some sqlText := by
      cases kind <;> first | exact ⟨_, rfl⟩ | cases hkind
    have halike := kind.alike hsqlText h
    have htext (tree : kind.Carrier) :
        (⟨kind, tree⟩ : Node).toSql?.map Logged.value = some (sqlText tree) := by
      rw [toSql?_value, Node.sqlText?, hsqlText, Option.map_some]
    rw [htext, htext, Option.some.injEq]
    refine ⟨⟨fun heq => ?_, fun hsigns => (halike.equal hsigns).2⟩,
      fun hsigns => (halike.equal hsigns).1⟩
    by_contra hsigns
    exact (halike.diverge hsigns).ne heq
  · rw [((Query.alike p h).equal hsigns).1]

/-- `SELECT e` -/
def Query.ofExpr (e : Expr) : Query := .ofBody (.select (.ofProjection (.single (.expr e))))

/-- `SELECT x` for a double `x` -/
def Query.ofDouble (x : Double) : Query := .ofExpr (.constant (.double x))

/-- The two zeros are the same and have different signs, so they have different texts; minus zero is
the same as itself, with one sign, one text and one fingerprint. -/
theorem Query.toSql?_zeros :
    Kind.query.same (.ofDouble ⟨0⟩) (.ofDouble ⟨0x8000000000000000⟩) = true
      ∧ zeroSigns (Query.ofDouble ⟨0⟩).leaves = [false]
      ∧ zeroSigns (Query.ofDouble ⟨0x8000000000000000⟩).leaves = [true]
      ∧ ((⟨.query, .ofDouble ⟨0⟩⟩ : Node).toSql?.map Logged.value
          = (⟨.query, .ofDouble ⟨0x8000000000000000⟩⟩ : Node).toSql?.map Logged.value ↔
        zeroSigns (Query.ofDouble ⟨0⟩).leaves
          = zeroSigns (Query.ofDouble ⟨0x8000000000000000⟩).leaves)
      ∧ (Query.ofDouble ⟨0x8000000000000000⟩).fingerprint.value
          = (Query.ofDouble ⟨0x8000000000000000⟩).fingerprint.value := by
  refine ⟨by decide +kernel, by decide +kernel, by decide +kernel, ?_, ?_⟩
  · exact (Node.toSql?_eq_iff_of_same.1 .query (.ofDouble ⟨0⟩)
      (.ofDouble ⟨0x8000000000000000⟩) rfl (by decide +kernel)).1
  · exact Node.toSql?_eq_iff_of_same.2 _ _ (by decide +kernel) rfl

/-- The two zeros are the same, but one is written with a minus. -/
theorem Query.toSql_zeros_ne :
    Kind.query.same (.ofDouble ⟨0⟩) (.ofDouble ⟨0x8000000000000000⟩) = true
      ∧ (toSql (Query.ofDouble ⟨0⟩)).value
        ≠ (toSql (Query.ofDouble ⟨0x8000000000000000⟩)).value
      ∧ (Query.ofDouble ⟨0⟩).fingerprint.value
        ≠ (Query.ofDouble ⟨0x8000000000000000⟩).fingerprint.value := by
  decide +kernel

end SqlTree
