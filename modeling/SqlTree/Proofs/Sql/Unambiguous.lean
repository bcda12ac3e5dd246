import SqlTree.Builder.Query
import SqlTree.Proofs.Sql.Reading

/-!
# Plain trees are read back

The readers of the grammar give every plain tree back from its lexemes, before whatever may follow
a tree of its type. So no two plain queries have the same text (`Query.eq_of_toSql_eq`).

A chain leans to the left, and so its lexemes are those of its first operand and then of one link
after the other (`Readers.chain_append`, `Readers.body_append`).
-/

namespace SqlTree

open Lexeme Reader

/-- Do the readers give plain trees back, up to some size? -/
structure Readers.Correct (L : Readers) (k : Nat) : Prop where
  expr : ∀ e : Expr, e.IsPlain → sizeOf e ≤ k → Reads L.expr e.lexemes e (ends 12)
  query : ∀ q : Query, q.IsPlain → sizeOf q ≤ k → Reads L.query q.lexemes q (ends 0)

namespace Readers

variable {L : Readers} {k : Nat}

/-! ## Expressions -/

theorem Correct.exprs (hL : L.Correct k) {es : List Expr} (h : Expr.ArePlain es)
    (hk : sizeOf es ≤ k + 1) : ∀ e ∈ es, Reads L.expr e.lexemes e (ends 12) := by
  intro e he
  have hlt := List.sizeOf_lt_of_mem he
  exact hL.expr e ((Expr.arePlain_iff es).1 h e he) (by omega)

/-- A query in parentheses, behind whatever opens them. -/
theorem Correct.closedQuery (hL : L.Correct k) {q : Query} (h : q.IsPlain) (hk : sizeOf q ≤ k)
    (stop : Lexeme → Bool) : Reads (closed L.query) (q.lexemes ++ [.mark ')']) q stop :=
  (hL.query q h hk).closed rfl

theorem reads_operand_of_leaf {ts : List Lexeme} {e : Expr} {stop : Lexeme → Bool}
    (hts : Opens isLeaf ts) (h : Reads L.leaf ts e stop) : Reads L.operand ts e stop :=
  h.otherwise rfl fun rest _ => (hts.append rest).before

theorem reads_operand_of_named {n : QualifiedName} (hn : n.IsPlain) {us : List Lexeme} {e : Expr}
    {stop : Lexeme → Bool} (h : Reads L.named (n.lexemes ++ us) e stop) :
    Reads L.operand (n.lexemes ++ us) e stop := by
  refine reads_operand_of_leaf ((QualifiedName.opens hn).append us) fun rest hrest => ?_
  have hnumber : startsNumber n.first.text = false :=
    not_startsNumber (Ident.startsName_lexeme hn.first)
  show (if startsNumber n.first.text then _ else L.named (n.lexemes ++ us ++ rest)) = _
  rw [hnumber, if_neg Bool.false_ne_true, h rest hrest]

theorem reads_named (n : QualifiedName) : Reads L.named n.lexemes (.ofNames n) (ends 13) := by
  have hname : Reads (L.callOrName n) [] (.ofNames n) (ends 13) :=
    (Reads.pure _).otherwise rfl fun _ hrest => hrest
  have hall := n.reads.bind hname fun _ hrest => hrest.mono (ends_mono (by omega))
  rwa [List.append_nil] at hall

theorem reads_operand_name {n : QualifiedName} (hn : n.IsPlain) :
    Reads L.operand n.lexemes (.ofNames n) (ends 13) := by
  have hname : Reads L.named (n.lexemes ++ []) (.ofNames n) (ends 13) := by
    rw [List.append_nil]
    exact reads_named n
  have hoperand := reads_operand_of_named hn hname
  rwa [List.append_nil] at hoperand

theorem reads_call (hL : L.Correct k) {n : QualifiedName} {args : List Expr}
    (hargs : Expr.ArePlain args) (hk : sizeOf args ≤ k + 1) {stop : Lexeme → Bool} :
    Reads L.named (Call.lexemes ⟨n, args⟩) (.call ⟨n, args⟩) stop := by
  have henclosed : Reads (enclosed L.expr)
      (Json.between (.mark ',') (args.map Expr.lexemes) ++ [.mark ')']) args stop := by
    refine Reads.enclosed (hL.exprs hargs hk) rfl rfl fun e he => ?_
    have hopens := Expr.opens ((Expr.arePlain_iff args).1 hargs e he)
    exact hopens.mono fun t ht => (Bool.and_eq_true_iff.1 ht).2
  have hcall : Reads (L.callOrName n) _ (.call ⟨n, args⟩) stop :=
    (henclosed.map fun args => Expr.call ⟨n, args⟩).opening [.mark '('] fun _ => rfl
  rw [Call.lexemes, Expr.lexemesAll_eq]
  exact n.reads.bind hcall fun _ _ => .cons rfl _

theorem reads_operand (hL : L.Correct k) {e : Expr} (h : e.IsPlain) (hchain : e.isChain = false)
    (hk : sizeOf e ≤ k + 1) : Reads L.operand e.lexemes e (ends 13) := by
  cases e with
  | identifier name =>
    refine reads_operand_name (n := ⟨name, []⟩) ?_
    rintro i (_ | ⟨_, hi⟩)
    · exact h
    · cases hi
  | compound parts =>
    obtain ⟨hlen, hparts⟩ := h
    rcases parts with _ | ⟨first, _ | ⟨second, rest⟩⟩
    · cases hlen
    · simp at hlen
    · exact reads_operand_name (n := ⟨first, second :: rest⟩) hparts
  | wildcard => exact (Reads.pure _).opening [.word "*"] fun _ => rfl
  | constant value =>
    cases value with
    | long n =>
      refine reads_operand_of_leaf (isLeaf_number n) fun rest _ => ?_
      show (if startsNumber (toString n.toInt) then _ else _) = _
      rw [startsNumber_toString, if_pos rfl, numberOf_toString]
      rfl
    | double x => exact h.elim
    | text s => exact reads_operand_of_leaf rfl fun _ _ => rfl
    | boolean b =>
      cases b with
      | true => exact (Reads.pure _).opening [.word "TRUE"] fun _ => rfl
      | false => exact (Reads.pure _).opening [.word "FALSE"] fun _ => rfl
    | null => exact (Reads.pure _).opening [.word "NULL"] fun _ => rfl
  | call c =>
    obtain ⟨name, args⟩ := c
    simp only [Expr.call.sizeOf_spec, Call.mk.sizeOf_spec] at hk
    exact reads_operand_of_named h.1 (reads_call hL h.2 (by omega))
  | nested inner =>
    simp only [Expr.nested.sizeOf_spec] at hk
    have hinner : Reads (closed L.expr) (inner.lexemes ++ [.mark ')']) inner (ends 13) :=
      (hL.expr inner h (by omega)).closed rfl
    exact (hinner.map Expr.nested).opening [.mark '('] fun _ => rfl
  | existence subquery negated =>
    simp only [Expr.existence.sizeOf_spec] at hk
    have hexistence := (hL.closedQuery h (by omega) (ends 13)).map fun q => Expr.existence q negated
    cases negated with
    | true => exact hexistence.opening (existsLexemes true) fun _ => rfl
    | false => exact hexistence.opening (existsLexemes false) fun _ => rfl
  | binary o => cases hchain
  | inSubquery operand subquery negated => cases hchain
  | raw sql => exact h.elim

/-- The lexemes of an expression are read as the expression, and then the links that follow. -/
theorem chain_append (hL : L.Correct k) : ∀ e : Expr, e.IsPlain → sizeOf e ≤ k + 1 →
    ∀ {ts rest : List Lexeme} {b : Expr}, Before (ends 13) ts → Ends L.link e ts b rest →
      L.chain (e.lexemes ++ ts) = some (b, rest)
  | .binary ⟨left, operator, right⟩, ⟨hleft, hright, hchain⟩, hk, ts, rest, b, hts, hends => by
    simp only [Expr.binary.sizeOf_spec, Binary.mk.sizeOf_spec] at hk
    have hlink : Reads (L.link left) (operator.lexemes ++ right.lexemes)
        (some (.binary ⟨left, operator, right⟩)) (ends 13) := by
      have hoperand := (reads_operand hL hright hchain (by omega)).map
        fun right => some (Expr.binary ⟨left, operator, right⟩)
      cases operator <;> exact hoperand.opening _ fun _ => rfl
    have hne := (operator.opens.append right.lexemes).ne_nil
    rw [Expr.lexemes, Binary.lexemes, List.append_assoc]
    refine chain_append hL left hleft (by omega) ?_ (Ends.more hne (hlink ts hts) hends)
    rw [List.append_assoc]
    exact (operator.opens.append _).before
  | .inSubquery operand subquery negated, ⟨hoperand, hsubquery⟩, hk, ts, rest, b, hts, hends => by
    simp only [Expr.inSubquery.sizeOf_spec] at hk
    have hlink : Reads (L.link operand) (inLexemes negated ++ (subquery.lexemes ++ [.mark ')']))
        (some (.inSubquery operand subquery negated)) (ends 13) := by
      have hin := (hL.closedQuery hsubquery (by omega) (ends 13)).map
        fun q => some (Expr.inSubquery operand q negated)
      cases negated <;> exact hin.opening _ fun _ => rfl
    have hne := ((inLexemes_opens negated).append (subquery.lexemes ++ [.mark ')'])).ne_nil
    rw [Expr.lexemes, List.append_assoc]
    refine chain_append hL operand hoperand (by omega) ?_ (Ends.more hne (hlink ts hts) hends)
    rw [List.append_assoc]
    exact ((inLexemes_opens negated).append _).before
  | .identifier _, h, hk, _, _, _, hts, hends | .compound _, h, hk, _, _, _, hts, hends
  | .wildcard, h, hk, _, _, _, hts, hends | .constant _, h, hk, _, _, _, hts, hends
  | .call _, h, hk, _, _, _, hts, hends | .nested _, h, hk, _, _, _, hts, hends
  | .existence .., h, hk, _, _, _, hts, hends =>
    bind_repeatedly (reads_operand hL h rfl hk _ hts) hends

theorem reads_chain (hL : L.Correct k) (e : Expr) (h : e.IsPlain) (hk : sizeOf e ≤ k + 1) :
    Reads L.chain e.lexemes e (ends 12) := by
  intro rest hrest
  have hlast : L.link e rest = some (none, rest) := choose_otherwise rfl hrest
  exact chain_append hL e h hk (hrest.mono (ends_mono (by omega))) (Ends.last hlast)

/-! ## Clauses of expressions -/

/-- A list of expressions in parentheses, if it is not empty. -/
theorem Correct.closedClause (hL : L.Correct k) {es : List Expr} (h : Expr.ArePlain es)
    (hk : sizeOf es ≤ k + 1) {o : Lexeme} {os : List Lexeme} (stop : Lexeme → Bool)
    (ho : stop o = false) :
    Reads (Reader.clause (o :: os) [.mark ')'] L.expr)
      (Lexeme.clause (o :: os) [.mark ')'] (Expr.lexemesAll es)) es stop := by
  have hclosing : ∀ t, ends 0 t = true → ends 12 t = true := ends_mono (by omega)
  rw [Expr.lexemesAll_eq]
  exact Reads.clause ho (hL.exprs h hk) rfl hclosing rfl fun _ _ => .cons rfl _

/-- A list of expressions that nothing closes. -/
theorem Correct.openClause (hL : L.Correct k) {es : List Expr} (h : Expr.ArePlain es)
    (hk : sizeOf es ≤ k + 1) {o : Lexeme} {os : List Lexeme} {n : Nat} (ho : ends n o = false)
    (hn : n ≤ 8) :
    Reads (Reader.clause (o :: os) [] L.expr) (Lexeme.clause (o :: os) [] (Expr.lexemesAll es)) es
      (ends n) := by
  have hrank : (Lexeme.mark ',').rank = 9 := by decide
  have hcomma : ends n (.mark ',') = false := decide_eq_false (by omega)
  rw [Expr.lexemesAll_eq]
  exact Reads.clause ho (hL.exprs h hk) rfl (ends_mono (by omega)) hcomma fun _ h => h

theorem Correct.opened (hL : L.Correct k) {e : Option Expr} (h : Expr.IsPlain? e)
    (hk : sizeOf e ≤ k + 1) {o : Lexeme} {os : List Lexeme} {n : Nat} (ho : ends n o = false)
    (hn : n ≤ 12) :
    Reads (Reader.opened (o :: os) L.expr) (clause? (o :: os) (Expr.lexemes? e)) e (ends n) := by
  have hexpr : ∀ e' ∈ e, Reads L.expr e'.lexemes e' (ends 12) := by
    rintro e' he
    cases he
    simp only [Option.some.sizeOf_spec] at hk
    exact hL.expr e' h (by omega)
  rw [Expr.lexemes?_eq]
  exact Reads.opened ho hexpr (ends_mono hn)

theorem reads_alias (aliasName : Option Ident) (stop : Lexeme → Bool)
    (hstop : stop (.word "AS") = false) :
    Reads (Reader.opened [.word "AS"] Ident.reader) (Ident.alias? aliasName) aliasName stop :=
  Reads.opened hstop (fun i _ => i.reads) fun _ h => h

/-! ## Relations and joins -/

theorem reads_table (hL : L.Correct k) {name : QualifiedName} {aliasName : Option Ident}
    {args hints : List Expr} (hargs : Expr.ArePlain args) (hhints : Expr.ArePlain hints)
    (hkargs : sizeOf args ≤ k + 1) (hkhints : sizeOf hints ≤ k + 1) :
    Reads L.table (Relation.table name aliasName args hints).lexemes
      (.table name aliasName args hints) (ends 10) := by
  rw [Relation.lexemes]
  refine name.reads.bind ?_ (Before.follows (.append (before_clause rfl _ _ _)
    (.append (before_clause? rfl _ _) (before_clause rfl _ _ _))) (by omega))
  refine (hL.closedClause hargs hkargs (ends 12) rfl).bind ?_
    (Before.follows (.append (before_clause? rfl _ _) (before_clause rfl _ _ _)) (by omega))
  refine (reads_alias aliasName (ends 11) rfl).bind ?_
    (Before.follows (before_clause rfl _ _ _) (by omega))
  exact (hL.closedClause hhints hkhints (ends 10) rfl).bind_pure _

theorem reads_relation (hL : L.Correct k) (r : Relation) (h : r.IsPlain) (hk : sizeOf r ≤ k + 1) :
    Reads L.relation r.lexemes r (ends 10) := by
  cases r with
  | table name aliasName args hints =>
    obtain ⟨hname, _, hargs, hhints⟩ := h
    simp only [Relation.table.sizeOf_spec] at hk
    have htable : Reads L.table (Relation.table name aliasName args hints).lexemes
        (.table name aliasName args hints) (ends 10) :=
      reads_table hL hargs hhints (by omega) (by omega)
    refine htable.otherwise (p := isLeaf) rfl fun rest _ => ?_
    exact (((QualifiedName.opens hname).append _).append rest).before
  | derived subquery aliasName =>
    obtain ⟨hsubquery, ⟨inner, rfl⟩, _⟩ := h
    have hinner : inner.IsPlain := hsubquery.2.1
    simp only [Relation.derived.sizeOf_spec, Query.ofBody, Query.mk.sizeOf_spec,
      Body.query.sizeOf_spec] at hk
    have hderived : Reads L.derived _ (.derived (.ofBody (.query inner)) aliasName) (ends 10) :=
      (hL.closedQuery hinner (by omega) (ends 12)).bind
        ((reads_alias aliasName (ends 10) rfl).bind_pure _)
        (Before.follows (before_clause? rfl _ _) (by omega))
    have hlexemes : (Relation.derived (.ofBody (.query inner)) aliasName).lexemes
        = [.mark '('] ++ (inner.lexemes ++ [.mark ')'] ++ Ident.alias? aliasName) := by
      simp [Relation.lexemes, Query.ofBody, Query.lexemes, Body.lexemes, Lexeme.clause, clause?,
        Cte.lexemesAll, OrderItem.lexemesAll, Expr.lexemes?]
    rw [hlexemes]
    exact hderived.opening [.mark '('] fun _ => rfl

theorem reads_condition (hL : L.Correct k) (c : JoinCondition) (h : c.IsPlain)
    (hk : sizeOf c ≤ k + 1) (hnatural : c ≠ .natural) :
    Reads L.condition c.lexemes c (ends 9) := by
  cases c with
  | predicate e =>
    simp only [JoinCondition.predicate.sizeOf_spec] at hk
    have hexpr : Reads L.expr e.lexemes e (ends 9) :=
      (hL.expr e h (by omega)).mono (ends_mono (by omega))
    exact (hexpr.map JoinCondition.predicate).opening [.word "ON"] fun _ => rfl
  | columns names =>
    have hname : ∀ i ∈ names, Reads Ident.reader [i.lexeme] i (ends 9) := fun i _ => i.reads
    have hnames : Reads (enclosed Ident.reader) (Ident.listed names ++ [.mark ')']) names
        (ends 9) := Reads.enclosed hname rfl rfl fun i _ => rfl
    exact (hnames.map JoinCondition.columns).opening [.word "USING", .mark '('] fun _ => rfl
  | natural => exact absurd rfl hnatural
  | absent => exact (Reads.pure _).otherwise (p := ends 9) rfl fun _ h => h

theorem reads_unconditional (hL : L.Correct k) {relation : Relation} (h : relation.IsPlain)
    (hk : sizeOf relation ≤ k + 1) (kind : JoinKind) :
    Reads (L.unconditional kind) relation.lexemes ⟨relation, kind⟩ (ends 9) := by
  have hread : Reads L.relation relation.lexemes relation (ends 9) :=
    (reads_relation hL relation h hk).mono (ends_mono (by omega))
  exact hread.map fun r => Join.mk r kind

/-- A join of a kind that can take a condition. -/
theorem reads_join_of (hL : L.Correct k) {kind : JoinCondition → JoinKind} {ks : List Lexeme}
    (hplain : ∀ rest, L.join (ks ++ rest) = (some <$> L.conditional kind) rest)
    (hnatural : ∀ rest, L.join (.word "NATURAL" :: ks ++ rest)
      = (some <$> L.unconditional (kind .natural)) rest)
    {relation : Relation} {c : JoinCondition} (hrelation : relation.IsPlain) (hc : c.IsPlain)
    (hkrelation : sizeOf relation ≤ k + 1) (hkc : sizeOf c ≤ k + 1) :
    Reads L.join (c.adverbLexemes ++ ks ++ (relation.lexemes ++ c.lexemes))
      (some ⟨relation, kind c⟩) (ends 9) := by
  have hread := reads_relation hL relation hrelation hkrelation
  by_cases h : c = .natural
  · subst h
    have hjoin := reads_unconditional hL hrelation hkrelation (kind .natural)
    rw [JoinCondition.lexemes, List.append_nil]
    exact (hjoin.map some).opening (.word "NATURAL" :: ks) hnatural
  · have hconditional : Reads (L.conditional kind) (relation.lexemes ++ c.lexemes)
        ⟨relation, kind c⟩ (ends 9) := by
      refine hread.bind ((reads_condition hL c hc hkc h).bind_pure _)
        (Before.follows ?_ (by omega))
      cases c with
      | predicate e => exact .cons rfl _
      | columns names => exact .cons rfl _
      | natural => exact .nil
      | absent => exact .nil
    have hadverb : c.adverbLexemes = [] := by
      cases c with
      | natural => exact absurd rfl h
      | _ => rfl
    rw [hadverb, List.nil_append]
    exact (hconditional.map some).opening ks hplain

theorem reads_join (hL : L.Correct k) (j : Join) (h : j.IsPlain) (hk : sizeOf j ≤ k + 1) :
    Reads L.join j.lexemes (some j) (ends 9) := by
  obtain ⟨relation, kind⟩ := j
  obtain ⟨hrelation, hkind⟩ := h
  simp only [Join.mk.sizeOf_spec] at hk
  have hunconditional := reads_unconditional hL hrelation (by omega)
  cases kind with
  | inner c =>
    simp only [JoinKind.inner.sizeOf_spec] at hk
    exact reads_join_of hL (fun _ => rfl) (fun _ => rfl) hrelation hkind (by omega) (by omega)
  | left c =>
    simp only [JoinKind.left.sizeOf_spec] at hk
    exact reads_join_of hL (fun _ => rfl) (fun _ => rfl) hrelation hkind (by omega) (by omega)
  | right c =>
    simp only [JoinKind.right.sizeOf_spec] at hk
    exact reads_join_of hL (fun _ => rfl) (fun _ => rfl) hrelation hkind (by omega) (by omega)
  | full c =>
    simp only [JoinKind.full.sizeOf_spec] at hk
    exact reads_join_of hL (fun _ => rfl) (fun _ => rfl) hrelation hkind (by omega) (by omega)
  | cross =>
    exact ((hunconditional .cross).map some).opening [.word "CROSS", .word "JOIN"] fun _ => rfl
  | comma => exact ((hunconditional .comma).map some).opening [.mark ','] fun _ => rfl

theorem reads_fromClause (hL : L.Correct k) (f : FromClause) (h : f.IsPlain)
    (hk : sizeOf f ≤ k + 1) : Reads L.fromClause f.lexemes f (ends 8) := by
  obtain ⟨relation, joins⟩ := f
  obtain ⟨hrelation, hjoins⟩ := h
  simp only [FromClause.mk.sizeOf_spec] at hk
  have hread : ∀ j ∈ joins, Reads L.join j.lexemes (some j) (ends 9) := by
    intro j hj
    have hlt := List.sizeOf_lt_of_mem hj
    exact reads_join hL j ((Join.arePlain_iff joins).1 hjoins j hj) (by omega)
  have hmany : Reads (many L.join) (joins.flatMap Join.lexemes) joins (ends 8) :=
    Reads.many hread (fun j _ => j.opens) (ends_mono (by omega))
      fun rest hrest => choose_otherwise rfl hrest
  have hfollows : Before (ends 10) (joins.flatMap Join.lexemes) := by
    cases joins with
    | nil => exact .nil
    | cons j joins => exact (j.opens.append _).before.mono (ends_mono (by omega))
  rw [FromClause.lexemes, Join.lexemesAll_eq, ← List.flatMap_def]
  exact (reads_relation hL relation hrelation (by omega)).bind (hmany.bind_pure _)
    (hfollows.follows (by omega))

/-! ## Selects -/

theorem itemOf_of_ne {e : Expr} (h : e ≠ .wildcard) : itemOf e = .expr e := by
  cases e with
  | wildcard => exact absurd rfl h
  | _ => rfl

/-- An expression with or without an alias is read as an item. -/
theorem reads_expression (hL : L.Correct k) {e : Expr} (h : e.IsPlain) (hk : sizeOf e ≤ k)
    (aliasName : Option Ident) :
    Reads L.selectItem (e.lexemes ++ Ident.alias? aliasName)
      (aliasName.elim (itemOf e) (.aliased e)) (ends 9) := by
  have hfollows {rest : List Lexeme} (hrest : Before (ends 9) rest) :
      Before (ends 12) (Ident.alias? aliasName ++ rest) :=
    Before.follows (before_clause? rfl _ _) (by omega) rest hrest
  refine Reads.orElse_right (fun rest hrest => ?_) ?_
  · have hstarred : Ident.starredReader (e.lexemes ++ (Ident.alias? aliasName ++ rest)) = none :=
      Expr.starred h ((hfollows hrest).mono fun t ht =>
        ne_point_of_ends (ends_mono (by omega) t ht))
    show ((Ident.starredReader _).bind _).bind _ = none
    rw [List.append_assoc, hstarred]
    rfl
  · exact (hL.expr e h hk).bind ((reads_alias aliasName (ends 9) rfl).bind_pure _)
      fun _ => hfollows

theorem reads_selectItem (hL : L.Correct k) (i : SelectItem) (h : i.IsPlain) (hk : sizeOf i ≤ k) :
    Reads L.selectItem i.lexemes i (ends 9) := by
  cases i with
  | expr e =>
    simp only [SelectItem.expr.sizeOf_spec] at hk
    have hitem : Reads L.selectItem (e.lexemes ++ []) (itemOf e) (ends 9) :=
      reads_expression hL h.1 (by omega) none
    rw [List.append_nil, itemOf_of_ne h.2] at hitem
    exact hitem
  | aliased e aliasName =>
    simp only [SelectItem.aliased.sizeOf_spec] at hk
    exact reads_expression hL h.1 (by omega) (some aliasName)
  | qualifiedWildcard qualifier =>
    have hstarred : Reads Ident.starredReader _ qualifier.parts (ends 9) :=
      Ident.reads_starred qualifier.parts (List.cons_ne_nil _ _) h
    have hname := hstarred.bind (f := QualifiedName.ofNames) (Reads.pure qualifier) fun _ h => h
    rw [List.append_nil] at hname
    exact (hname.map SelectItem.qualifiedWildcard).orElse_left
  | wildcard =>
    simp only [SelectItem.wildcard.sizeOf_spec] at hk
    exact reads_expression hL (e := .wildcard) trivial hk none

theorem reads_projection (hL : L.Correct k) (p : Projection) (h : p.IsPlain)
    (hk : sizeOf p ≤ k + 1) : Reads L.projection p.lexemes p (ends 8) := by
  obtain ⟨first, rest⟩ := p
  obtain ⟨hfirst, hrest⟩ := h
  simp only [Projection.mk.sizeOf_spec] at hk
  have hread : ∀ i ∈ first :: rest, Reads L.selectItem i.lexemes i (ends 9) := by
    refine List.forall_mem_cons.2 ⟨reads_selectItem hL first hfirst (by omega), fun i hi => ?_⟩
    have hlt := List.sizeOf_lt_of_mem hi
    exact reads_selectItem hL i ((SelectItem.arePlain_iff rest).1 hrest i hi) (by omega)
  have hlist : Reads (commaSeparated L.selectItem)
      (Json.between (.mark ',') ((first :: rest).map SelectItem.lexemes)) (first :: rest)
      (ends 8) := Reads.commaSeparated hread rfl (ends_mono (by omega)) rfl
  have hall := hlist.bind (f := itemsOf) (b := ⟨first, rest⟩) (Reads.pure _) fun _ h => h
  rw [List.append_nil] at hall
  rw [Projection.lexemes, SelectItem.lexemesAll_eq]
  exact hall

theorem reads_source (hL : L.Correct k) {f : Option FromClause} (h : FromClause.IsPlain? f)
    (hk : sizeOf f ≤ k + 1) :
    Reads (Reader.opened [.word "FROM"] L.fromClause)
      (clause? [.word "FROM"] (FromClause.lexemes? f)) f (ends 7) := by
  have hread : ∀ f' ∈ f, Reads L.fromClause f'.lexemes f' (ends 8) := by
    rintro f' hf
    cases hf
    simp only [Option.some.sizeOf_spec] at hk
    exact reads_fromClause hL f' h (by omega)
  rw [FromClause.lexemes?_eq]
  exact Reads.opened rfl hread (ends_mono (by omega))

theorem reads_select (hL : L.Correct k) (s : Select) (h : s.IsPlain) (hk : sizeOf s ≤ k + 1) :
    Reads L.select s.lexemes s (ends 4) := by
  obtain ⟨distinct, projection, source, condition, groupBy, having⟩ := s
  obtain ⟨hprojection, hsource, hcondition, hgroupBy, hhaving⟩ := h
  simp only [Select.mk.sizeOf_spec] at hk
  rw [Select.lexemes]
  refine Reads.exactly_bind ?_ [.word "SELECT"]
  refine (Reads.flag opensExpr rfl distinct).bind ?_ fun rest _ => ?_
  refine (reads_projection hL projection hprojection (by omega)).bind ?_
    (Before.follows (.append (before_clause? rfl _ _) (.append (before_clause? rfl _ _)
      (.append (before_clause rfl _ _ _) (before_clause? rfl _ _)))) (by omega))
  refine (reads_source hL hsource (by omega)).bind ?_
    (Before.follows (.append (before_clause? rfl _ _) (.append (before_clause rfl _ _ _)
      (before_clause? rfl _ _))) (by omega))
  refine (hL.opened (n := 6) hcondition (by omega) rfl (by omega)).bind ?_
    (Before.follows (.append (before_clause rfl _ _ _) (before_clause? rfl _ _)) (by omega))
  refine (hL.openClause (n := 5) hgroupBy (by omega) rfl (by omega)).bind ?_
    (Before.follows (before_clause? rfl _ _) (by omega))
  · exact (hL.opened hhaving (by omega) rfl (by omega)).bind_pure _
  · rw [List.append_assoc]
    exact ((Projection.opens hprojection).append _).before

/-! ## Bodies -/

theorem reads_bodyOperand (hL : L.Correct k) {b : Body} (h : b.IsPlain)
    (hchain : b.isOperation = false) (hk : sizeOf b ≤ k + 1) :
    Reads L.bodyOperand b.lexemes b (ends 4) := by
  cases b with
  | select s =>
    simp only [Body.select.sizeOf_spec] at hk
    have hselect := (reads_select hL s h (by omega)).map Body.select
    refine hselect.otherwise (p := (· != .mark '(')) rfl fun rest _ => ?_
    obtain ⟨_, _, _, _, _, _⟩ := s
    exact .cons rfl _
  | query q =>
    simp only [Body.query.sizeOf_spec] at hk
    have hquery := (hL.closedQuery h (by omega) (ends 4)).map Body.query
    exact hquery.opening [.mark '('] fun _ => rfl
  | operation o all left right => cases hchain

theorem reads_operation (hL : L.Correct k) (left : Body) (o : SetOperator) (all : Bool)
    {right : Body} (h : right.IsPlain) (hchain : right.isOperation = false)
    (hk : sizeOf right ≤ k + 1) :
    Reads (L.operation left o) ((if all then [.word "ALL"] else []) ++ right.lexemes)
      (some (.operation o all left right)) (ends 4) :=
  (Reads.flag opensBody rfl all).bind ((reads_bodyOperand hL h hchain hk).bind_pure _)
    fun rest _ => (right.opens.append rest).before

/-- The lexemes of a body are read as the body, and then the links that follow. -/
theorem body_append (hL : L.Correct k) : ∀ b : Body, b.IsPlain → sizeOf b ≤ k + 1 →
    ∀ {ts rest : List Lexeme} {c : Body}, Before (ends 4) ts → Ends L.bodyLink b ts c rest →
      L.body (b.lexemes ++ ts) = some (c, rest)
  | .operation o all left right, ⟨hleft, hright, hchain⟩, hk, ts, rest, c, hts, hends => by
    simp only [Body.operation.sizeOf_spec] at hk
    have hlink : Reads (L.bodyLink left)
        ([.word o.sqlText] ++ ((if all then [.word "ALL"] else []) ++ right.lexemes))
        (some (.operation o all left right)) (ends 4) := by
      have hoperation := reads_operation hL left o all hright hchain (by omega)
      cases o <;> exact hoperation.opening _ fun _ => rfl
    rw [Body.lexemes, List.append_assoc]
    refine body_append hL left hleft (by omega) ?_ (Ends.more (List.cons_ne_nil _ _)
      (hlink ts hts) hends)
    cases o <;> exact .cons rfl _
  | .select _, h, hk, _, _, _, hts, hends | .query _, h, hk, _, _, _, hts, hends =>
    bind_repeatedly (reads_bodyOperand hL h rfl hk _ hts) hends

theorem reads_body (hL : L.Correct k) (b : Body) (h : b.IsPlain) (hk : sizeOf b ≤ k + 1) :
    Reads L.body b.lexemes b (ends 3) := by
  intro rest hrest
  have hlast : L.bodyLink b rest = some (none, rest) := choose_otherwise rfl hrest
  exact body_append hL b h hk (hrest.mono (ends_mono (by omega))) (Ends.last hlast)

/-! ## Queries -/

theorem reads_orderItem (hL : L.Correct k) (o : OrderItem) (h : o.IsPlain) (hk : sizeOf o ≤ k + 1) :
    Reads L.orderItem o.lexemes o (ends 11) := by
  obtain ⟨expr, direction⟩ := o
  simp only [OrderItem.mk.sizeOf_spec] at hk
  have hdirection : Reads (choose [([.word "ASC"], pure (some .ascending)),
      ([.word "DESC"], pure (some .descending))] (pure none))
      (direction.map fun d => Lexeme.word d.sqlText).toList direction (ends 11) := by
    rcases direction with _ | d
    · exact (Reads.pure none).otherwise rfl fun _ hrest => hrest
    · cases d with
      | ascending => exact (Reads.pure _).opening [.word "ASC"] fun _ => rfl
      | descending => exact (Reads.pure _).opening [.word "DESC"] fun _ => rfl
  refine (hL.expr expr h (by omega)).bind (hdirection.bind_pure _) ?_
  refine Before.follows ?_ (by omega)
  rcases direction with _ | d
  · exact .nil
  · cases d <;> exact .cons rfl _

theorem reads_cte (hL : L.Correct k) (c : Cte) (h : c.IsPlain) (hk : sizeOf c ≤ k + 1)
    {stop : Lexeme → Bool} : Reads L.cte c.lexemes c stop := by
  obtain ⟨name, query⟩ := c
  simp only [Cte.mk.sizeOf_spec] at hk
  have hquery := hL.closedQuery h.2 (by omega) stop
  have hname : Reads Ident.reader [name.lexeme] name fun _ => true := name.reads
  exact hname.bind (Reads.exactly_bind (hquery.bind_pure _) [.word "AS", .mark '('])
    fun _ _ _ _ => rfl

theorem reads_ctes (hL : L.Correct k) {ctes : List Cte} (h : Cte.ArePlain ctes)
    (hk : sizeOf ctes ≤ k + 1) :
    Reads (Reader.clause [.word "WITH"] [] L.cte)
      (Lexeme.clause [.word "WITH"] [] (Cte.lexemesAll ctes)) ctes opensBody := by
  have hread : ∀ c ∈ ctes, Reads L.cte c.lexemes c fun _ => true := by
    intro c hc
    have hlt := List.sizeOf_lt_of_mem hc
    exact reads_cte hL c ((Cte.arePlain_iff ctes).1 h c hc) (by omega)
  rw [Cte.lexemesAll_eq]
  exact Reads.clause rfl hread rfl (fun _ _ => rfl) rfl fun _ h => h

theorem reads_orderBy (hL : L.Correct k) {items : List OrderItem} (h : OrderItem.ArePlain items)
    (hk : sizeOf items ≤ k + 1) :
    Reads (Reader.clause [.word "ORDER", .word "BY"] [] L.orderItem)
      (Lexeme.clause [.word "ORDER", .word "BY"] [] (OrderItem.lexemesAll items)) items
      (ends 2) := by
  have hread : ∀ o ∈ items, Reads L.orderItem o.lexemes o (ends 11) := by
    intro o ho
    have hlt := List.sizeOf_lt_of_mem ho
    exact reads_orderItem hL o ((OrderItem.arePlain_iff items).1 h o ho) (by omega)
  rw [OrderItem.lexemesAll_eq]
  exact Reads.clause rfl hread rfl (ends_mono (by omega)) rfl fun _ h => h

theorem reads_whole (hL : L.Correct k) (q : Query) (h : q.IsPlain) (hk : sizeOf q ≤ k + 1) :
    Reads L.whole q.lexemes q (ends 0) := by
  obtain ⟨ctes, body, orderBy, limit, offset⟩ := q
  obtain ⟨hctes, hbody, horderBy, hlimit, hoffset⟩ := h
  simp only [Query.mk.sizeOf_spec] at hk
  rw [Query.lexemes]
  refine (reads_ctes hL hctes (by omega)).bind ?_ fun rest _ => ?_
  refine (reads_body hL body hbody (by omega)).bind ?_
    (Before.follows (.append (before_clause rfl _ _ _) (.append (before_clause? rfl _ _)
      (before_clause? rfl _ _))) (by omega))
  refine (reads_orderBy hL horderBy (by omega)).bind ?_
    (Before.follows (.append (before_clause? rfl _ _) (before_clause? rfl _ _)) (by omega))
  refine (hL.opened (n := 1) hlimit (by omega) rfl (by omega)).bind ?_
    (Before.follows (before_clause? rfl _ _) (by omega))
  · exact (hL.opened hoffset (by omega) rfl (by omega)).bind_pure _
  · rw [List.append_assoc]
    exact (body.opens.append _).before

end Readers

/-! ## All trees -/

/-- The readers give back all plain trees up to their depth. -/
theorem readers_correct (n : Nat) : (readers n).Correct n := by
  induction n with
  | zero =>
    refine ⟨fun e _ hk => ?_, fun q _ hk => ?_⟩
    · cases e <;> simp at hk
    · cases q
      simp at hk
  | succ n ih => exact ⟨Readers.reads_chain ih, Readers.reads_whole ih⟩

/-- **A plain query is determined by its lexemes.** -/
theorem Query.eq_of_lexemes_eq {a b : Query} (ha : a.IsPlain) (hb : b.IsPlain)
    (h : a.lexemes = b.lexemes) : a = b := by
  have hread (q : Query) (hq : q.IsPlain) (hk : sizeOf q ≤ max (sizeOf a) (sizeOf b)) :
      (readers (max (sizeOf a) (sizeOf b))).query q.lexemes = some (q, []) := by
    have hq' := (readers_correct _).query q hq hk [] .nil
    rwa [List.append_nil] at hq'
  have hreada := hread a ha (le_max_left _ _)
  have hreadb := hread b hb (le_max_right _ _)
  rw [h, hreadb] at hreada
  cases hreada
  rfl

theorem Query.toSql_value (q : Query) : (toSql q).value = q.sqlText := by
  show (q.write {}).sql = _
  rw [Query.write_eq, Buffer.sql_push, String.empty_append]

/-- **The text of a plain query identifies it.** -/
theorem Query.eq_of_toSql_eq {a b : Query} (ha : a.IsPlain) (hb : b.IsPlain)
    (h : (toSql a).value = (toSql b).value) : a = b := by
  rw [Query.toSql_value, Query.toSql_value] at h
  have hlexemes : a.lexemes = b.lexemes := by
    rw [← (Query.lexes a ha).lex_eq, ← (Query.lexes b hb).lex_eq, h]
  exact Query.eq_of_lexemes_eq ha hb hlexemes

/-- The body `SELECT * FROM t WHERE a NOT IN (SELECT * FROM u) AND b = 'it''s'`, with any text. -/
def Body.ofText (text : String) : Body :=
  let source (name : String) : Select :=
    { Select.ofProjection (.single .wildcard) with
      source := some (.ofRelation (.named (.single ⟨name⟩))) }
  let notIn : Expr := .inSubquery (.identifier ⟨"a"⟩) (.ofBody (.select (source "u"))) true
  let both : Expr := .apply (.apply notIn .and (.identifier ⟨"b"⟩)) .equal (.constant (.text text))
  .select { source "t" with condition := some both }

/-- A query that was built clause by clause is the one with its text. -/
theorem Query.build_ofText :
    (toSql (QueryBuilder.ofBody (.ofText "it\x27s")).build).value
        = "SELECT * FROM t WHERE a NOT IN (SELECT * FROM u) AND b = \x27it\x27\x27s\x27"
      ∧ (QueryBuilder.ofBody (.ofText "it\x27s")).build
        = ⟨[], .ofText "it\x27s", [], none, none⟩ := by
  have ha : Ident.IsPlain ⟨"a"⟩ := rfl
  have hb : Ident.IsPlain ⟨"b"⟩ := rfl
  have hsource (name : String) (h : isName name = true) :
      (FromClause.ofRelation (.named (.single ⟨name⟩))).IsPlain :=
    ⟨⟨fun i hi => by rwa [List.mem_singleton.1 hi], by simp, trivial, trivial⟩, trivial⟩
  have hplain : Query.IsPlain ⟨[], .ofText "it\x27s", [], none, none⟩ := by
    simp [Body.ofText, Query.IsPlain, Query.ofBody, Body.IsPlain, Select.IsPlain, Cte.ArePlain,
      OrderItem.ArePlain, Expr.ArePlain, Expr.IsPlain?, Select.ofProjection, Projection.single,
      Projection.IsPlain, SelectItem.IsPlain, SelectItem.ArePlain, FromClause.IsPlain?, Expr.apply,
      Expr.IsPlain, Binary.IsPlain, Constant.IsPlain, Expr.isChain, ha, hb]
    exact ⟨hsource "t" rfl, hsource "u" rfl⟩
  exact ⟨rfl, Query.eq_of_toSql_eq hplain hplain rfl⟩

end SqlTree
