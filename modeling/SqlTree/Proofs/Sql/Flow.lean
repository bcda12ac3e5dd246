import Mathlib.Data.List.Chain
import SqlTree.Proofs.Sql.Literals
import SqlTree.Proofs.Tree.Subnodes

/-!
# How the pieces of SQL follow each other

Each clause brings its own blanks, in front of a keyword or behind it. `Flow` is a grammar of the
pieces that says how they fit together: a piece leads from one place to another, where a place is
before an operand or behind one. A keyword begins with a blank just if it stands behind an operand,
and ends with one just if an operand is to come.

The grammar also says where a comma may stand: between parentheses anywhere, and outside of them
only where `commas` allows it. So `Node.Worded.flows` says once for every kind of tree what its SQL
is made of, and what holds of SQL outside of literals is then an induction over `Flow`.
-/

namespace SqlTree

open Template

/-! ## Characters -/

/-- A character that is white space. -/
def isWhite (c : Char) : Bool :=
  (9 ≤ c.toNat && c.toNat ≤ 13) || (0x2000 ≤ c.toNat && c.toNat ≤ 0x200a)
    || [0x20, 0x85, 0xa0, 0x1680, 0x2028, 0x2029, 0x202f, 0x205f, 0x3000].contains c.toNat

/-- A character that neither separates nor encloses anything. -/
def IsSolid (c : Char) : Prop := isWhite c = false ∧ c ∉ ['(', ')', ',', ';', '\x27']

instance (c : Char) : Decidable (IsSolid c) := inferInstanceAs (Decidable (_ ∧ _))

theorem IsSolid.ne_blank {c : Char} (h : IsSolid c) : c ≠ ' ' := by
  rintro rfl
  exact absurd h.1 (by decide)

theorem isSolid_of_isDigit {c : Char} (h : c.isDigit = true) : IsSolid c := by
  have hrange : 48 ≤ c.toNat ∧ c.toNat ≤ 57 := by
    simpa [Char.isDigit, UInt32.le_iff_toNat_le] using h
  refine ⟨?_, ?_⟩
  · simp [isWhite]
    omega
  · intro hmem
    simp only [List.mem_cons, List.not_mem_nil, or_false] at hmem
    rcases hmem with rfl | rfl | rfl | rfl | rfl <;> revert h <;> decide

/-! ## The grammar -/

/-- Where a piece of SQL begins or ends. -/
inductive Flow.Place where
  /-- before an operand -/
  | before
  /-- behind an operand -/
  | behind
  deriving DecidableEq

/-- A piece of solid characters and single blanks, with a blank at its beginning just if it stands
behind an operand, and at its end just if it stands before one. -/
def Flow.Keyword (p q : Flow.Place) (text : String) : Prop :=
  text ≠ "" ∧ (∀ c ∈ text.toList, c = ' ' ∨ IsSolid c)
    ∧ text.toList.IsChain (fun c d => c = ' ' → d ≠ ' ')
    ∧ (text.toList.head? = some ' ' ↔ p = .behind)
    ∧ (text.toList.getLast? = some ' ' ↔ q = .before)

instance (p q : Flow.Place) (text : String) : Decidable (Flow.Keyword p q text) :=
  -- goes through the characters of the text, not through all characters
  letI : Decidable (∀ c ∈ text.toList, c = ' ' ∨ IsSolid c) := List.decidableBAll _ _
  inferInstanceAs (Decidable (_ ∧ _))

/-- The SQL that leads from one place to another, made of these words. A comma stands in
parentheses, or anywhere if `commas` is set. -/
inductive Flow (word : String → Prop) : Bool → Flow.Place → Flow.Place → String → Prop where
  | nothing {commas : Bool} {p : Flow.Place} : Flow word commas p p ""
  | append {commas : Bool} {p q r : Flow.Place} {s t : String} (hs : Flow word commas p q s)
    (ht : Flow word commas q r t) : Flow word commas p r (s ++ t)
  | keyword {commas : Bool} {p q : Flow.Place} {k : String} (hk : Flow.Keyword p q k) :
    Flow word commas p q k
  | word {commas : Bool} {t : String} (ht : word t) : Flow word commas .before .behind t
  | literal {commas : Bool} (s : String) : Flow word commas .before .behind (quoted s)
  | point {commas : Bool} : Flow word commas .behind .before "."
  | comma : Flow word true .behind .before ", "
  | parens {commas : Bool} {p : Flow.Place} {t : String} (ht : Flow word true .before .behind t) :
    Flow word commas p .behind ("(" ++ t ++ ")")
  | noParens {commas : Bool} {p : Flow.Place} : Flow word commas p .behind "()"

namespace Flow

variable {word : String → Prop} {commas : Bool} {p q r : Place} {s t keyword : String}

/-- What needs no comma outside of parentheses may stand where there are some. -/
theorem weaken (h : Flow word commas p q t) : Flow word true p q t := by
  induction h with
  | nothing => exact .nothing
  | append _ _ ihs iht => exact .append ihs iht
  | keyword hk => exact .keyword hk
  | word ht => exact .word ht
  | literal s => exact .literal s
  | point => exact .point
  | comma => exact .comma
  | parens ht _ => exact .parens ht
  | noParens => exact .noParens

theorem of_false (h : Flow word false p q t) : Flow word commas p q t := by
  cases commas with
  | false => exact h
  | true => exact h.weaken

/-- A text of solid characters is an operand. -/
theorem Keyword.of_solid (hne : t ≠ "") (h : ∀ c ∈ t.toList, IsSolid c) :
    Keyword .before .behind t := by
  have hpairs : t.toList.Pairwise fun c d => c = ' ' → d ≠ ' ' :=
    List.pairwise_of_forall_mem_list fun _ _ d hd _ => (h d hd).ne_blank
  refine ⟨hne, fun c hc => .inr (h c hc), hpairs.isChain, ?_, ?_⟩
  · simp only [reduceCtorEq, iff_false]
    exact fun hhead => (h _ (List.mem_of_mem_head? hhead)).ne_blank rfl
  · simp only [reduceCtorEq, iff_false]
    exact fun hlast => (h _ (List.mem_of_mem_getLast? hlast)).ne_blank rfl

/-- Something in parentheses, the first of which is the end of what stands before it. -/
theorem called {opening : String} (hs : Flow word commas p q s) (k : String)
    (hopening : opening = k ++ "(") (hk : Flow word commas q r k)
    (ht : Flow word true .before .behind t) :
    Flow word commas p .behind (s ++ opening ++ t ++ ")") := by
  have hassoc : s ++ opening ++ t ++ ")" = s ++ k ++ ("(" ++ t ++ ")") := by
    rw [hopening]
    simp only [String.append_assoc]
  rw [hassoc]
  exact (hs.append hk).append (.parens ht)

/-! ## Templates -/

section

variable {α : Type} {f : α → String} {as : List α} {separator : String}

theorem joined (hseparator : Flow word commas .behind .before separator) (hne : as ≠ [])
    (h : ∀ a ∈ as, Flow word commas .before .behind (f a)) :
    Flow word commas .before .behind (Template.joined separator (as.map f)) := by
  induction as with
  | nil => exact absurd rfl hne
  | cons a rest ih =>
    have ha := h a List.mem_cons_self
    cases rest with
    | nil => exact ha
    | cons b rest =>
      have hrest := ih (List.cons_ne_nil b rest) fun c hc => h c (List.mem_cons_of_mem a hc)
      exact (ha.append hseparator).append hrest

/-- Pieces one right after the other. -/
theorem concatenated (h : ∀ a ∈ as, Flow word commas p p (f a)) :
    Flow word commas p p (Template.joined "" (as.map f)) := by
  induction as with
  | nil => exact .nothing
  | cons a rest ih =>
    have ha := h a List.mem_cons_self
    have hrest := ih fun b hb => h b (List.mem_cons_of_mem a hb)
    cases rest with
    | nil => exact ha
    | cons b rest => exact (ha.append .nothing).append hrest

/-- A list in parentheses, which may be empty. -/
theorem arguments (h : ∀ a ∈ as, Flow word true .before .behind (f a)) :
    Flow word commas p .behind ("(" ++ Template.joined ", " (as.map f) ++ ")") := by
  cases as with
  | nil => exact .noParens
  | cons a rest => exact .parens (.joined .comma (List.cons_ne_nil a rest) h)

theorem listClause {opening closing : String} (hopening : Flow word true p .before opening)
    (hclosing : Flow word true .behind p closing)
    (h : ∀ a ∈ as, Flow word true .before .behind (f a)) :
    Flow word true p p (Template.listClause opening closing (as.map f)) := by
  cases as with
  | nil => exact .nothing
  | cons a rest =>
    have hjoined := Flow.joined .comma (List.cons_ne_nil a rest) h
    exact (hopening.append hjoined).append hclosing

/-- A clause with its list in parentheses. -/
theorem parensClause {opening : String} (k : String) (hopening : opening = k ++ "(")
    (hk : Flow word commas .behind q k) (h : ∀ a ∈ as, Flow word true .before .behind (f a)) :
    Flow word commas .behind .behind (Template.listClause opening ")" (as.map f)) := by
  cases as with
  | nil => exact .nothing
  | cons a rest =>
    have hjoined := Flow.joined .comma (List.cons_ne_nil a rest) h
    have hclause := called .nothing k hopening hk hjoined
    rw [String.empty_append] at hclause
    exact hclause

theorem optionalClause {k : String} (hk : Flow word commas .behind .before k) {a : Option α}
    (h : ∀ b ∈ a, Flow word commas .before .behind (f b)) :
    Flow word commas .behind .behind (Template.optionalClause k (a.map f)) := by
  cases a with
  | none => exact .nothing
  | some b => exact hk.append (h b rfl)

end

/-- The names of a dotted name. -/
theorem dotted {names : List Ident} (hne : names ≠ [])
    (h : ∀ i ∈ names, Flow word commas .before .behind i.sqlText) :
    Flow word commas .before .behind (Template.joined "." (names.map Ident.sqlText)) :=
  .joined .point hne h

end Flow

/-! ## Leaves -/

section

variable {word : String → Prop}

theorem isSolid_of_mem_toString {n : Int} {c : Char} (h : c ∈ (toString n).toList) : IsSolid c := by
  rcases mem_toString h with hdigit | rfl
  · exact isSolid_of_isDigit hdigit
  · decide

theorem Double.isSolid_of_mem_sql {x : Double} {c : Char} (h : c ∈ x.sql.toList) : IsSolid c := by
  rcases mem_sql h with hdigit | hmem
  · exact isSolid_of_isDigit hdigit
  · have hall : ∀ d ∈ ['-', '.', 'N', 'a', 'i', 'n', 'f'], IsSolid d := by
      simp [IsSolid, isWhite]
    exact hall c hmem

theorem toString_int_ne_empty (n : Int) : toString n ≠ "" := by
  intro hempty
  cases n with
  | ofNat k =>
    have hchars := Json.Numeral.toList_toString_natCast k
    rw [Int.ofNat_eq_natCast] at hempty
    rw [hempty] at hchars
    exact Nat.toDigits_ne_nil hchars.symm
  | negSucc k =>
    have hchars := Json.Numeral.toList_toString_negSucc k
    rw [hempty] at hchars
    cases hchars

theorem Decimal.positional_ne_nil (d : Decimal) : d.positional ≠ [] := by
  unfold positional
  split
  · exact List.append_ne_nil_of_left_ne_nil digits_ne_nil _
  · simp only
    split
    · exact List.append_ne_nil_of_right_ne_nil _ (List.cons_ne_nil _ _)
    · exact List.cons_ne_nil _ _

theorem Double.sql_ne_empty (x : Double) : x.sql ≠ "" := by
  have hne {cs ds : List Char} (hds : ds ≠ []) : String.ofList (cs ++ ds) ≠ "" := by
    intro hempty
    have hnil := congrArg String.toList hempty
    rw [String.toList_ofList] at hnil
    exact List.append_ne_nil_of_right_ne_nil cs hds hnil
  unfold sql
  split
  · exact hne (Decimal.positional_ne_nil _)
  split
  · decide
  · exact hne (List.cons_ne_nil _ _)

theorem Constant.flow : ∀ c : Constant, Flow word false .before .behind c.sqlText
  | .long n =>
    .keyword (.of_solid (toString_int_ne_empty n.toInt) fun _ hc => isSolid_of_mem_toString hc)
  | .double x => .keyword (.of_solid x.sql_ne_empty fun _ hc => Double.isSolid_of_mem_sql hc)
  | .text s => .literal s
  | .boolean true => .keyword (k := "TRUE") (by decide)
  | .boolean false => .keyword (k := "FALSE") (by decide)
  | .null => .keyword (k := "NULL") (by decide)

theorem Operator.flow (o : Operator) :
    Flow word false .behind .before (" " ++ o.sqlText ++ " ") := by
  refine .keyword ?_
  cases o <;> decide

theorem SetOperator.flow (o : SetOperator) : Flow word false .before .behind o.sqlText := by
  refine .keyword ?_
  cases o <;> decide

theorem Direction.flow (d : Direction) : Flow word false .before .behind d.sqlText := by
  refine .keyword ?_
  cases d <;> decide

end

/-! ## Trees -/

/-- Is the leaf, unless it is a constant, one of these words? -/
def Leaf.IsWord (word : String → Prop) : Leaf → Prop
  | .name i => word i.text
  | .raw sql => word sql
  | .constant _ => True

/-- May commas stand in the SQL of this kind outside of parentheses? -/
def Kind.commas : Kind → Bool
  | .relation | .join | .fromClause | .select | .body | .query => true
  | _ => false

/-- Where the SQL of this kind begins. -/
def Kind.start : Kind → Flow.Place
  | .joinCondition | .join => .behind
  | _ => .before

namespace Node

/-- The names and the raw texts of a node are words, and so is what a dotted name without parts
leaves. -/
structure Worded (word : String → Prop) (n : Node) : Prop where
  leaves : ∀ l ∈ n.leaves, l.IsWord word
  parts : Within ⟨.expr, .compound []⟩ n → word ""

/-- The SQL of the node is made of these words. -/
def Flows (word : String → Prop) (n : Node) : Prop :=
  ∀ text, n.sqlText? = some text → Flow word n.kind.commas n.kind.start .behind text

variable {word : String → Prop}

theorem Worded.child {u t : Node} (h : t.Worded word) (hu : u ∈ t.children) : u.Worded word where
  leaves := by
    obtain ⟨frame, hframe⟩ := exists_frame hu
    intro l hl
    have hmem := frame.leaves_subset_fill u.tree hl
    rw [hframe] at hmem
    exact h.leaves l hmem
  parts := fun hparts => h.parts (hparts.tail hu)

end Node

section

variable {word : String → Prop}

theorem Expr.flow_of_children {e : Expr} (hword : (⟨.expr, e⟩ : Node).Worded word)
    (h : ∀ u ∈ e.children, u.Flows word) : Flow word false .before .behind e.sqlText := by
  cases e with
  | identifier name => exact h ⟨.ident, name⟩ List.mem_cons_self _ rfl
  | compound parts =>
    cases parts with
    | nil => exact .word (hword.parts .refl)
    | cons first rest =>
      refine .dotted (List.cons_ne_nil first rest) fun i hi => ?_
      exact h ⟨.ident, i⟩ (List.mem_map_of_mem hi) _ rfl
  | wildcard => exact .keyword (k := "*") (by decide)
  | constant value => exact value.flow
  | call c => exact h ⟨.call, c⟩ List.mem_cons_self _ rfl
  | binary o => exact h ⟨.binary, o⟩ List.mem_cons_self _ rfl
  | nested inner =>
    have hinner := h ⟨.expr, inner⟩ List.mem_cons_self _ rfl
    exact .parens hinner.weaken
  | inSubquery operand subquery negated =>
    obtain ⟨hoperand, hrest⟩ := List.forall_mem_cons.1 h
    have hsubquery := hrest ⟨.query, subquery⟩ List.mem_cons_self _ rfl
    have hnot : Flow word false .behind .behind (if negated then " NOT" else "") := by
      cases negated with
      | false => exact .nothing
      | true => exact .keyword (k := " NOT") (by decide)
    exact .called ((hoperand _ rfl).append hnot) " IN " (by decide)
      (.keyword (q := .before) (by decide)) hsubquery
  | existence subquery negated =>
    have hsubquery := h ⟨.query, subquery⟩ List.mem_cons_self _ rfl
    have hnot : Flow word false .before .before (if negated then "NOT " else "") := by
      cases negated with
      | false => exact .nothing
      | true => exact .keyword (k := "NOT ") (by decide)
    exact .called hnot "EXISTS " (by decide) (.keyword (q := .before) (by decide)) hsubquery
  | raw sql => exact .word (hword.leaves (.raw sql) List.mem_cons_self)

theorem Call.flow_of_children {c : Call} (h : ∀ u ∈ Kind.call.children c, u.Flows word) :
    Flow word false .before .behind c.sqlText := by
  obtain ⟨name, args⟩ := c
  obtain ⟨hname, hargs⟩ := List.forall_mem_cons.1 h
  have hlist : Flow word false .behind .behind
      ("(" ++ Template.joined ", " (args.map Expr.sqlText) ++ ")") :=
    .arguments fun e he => (hargs ⟨.expr, e⟩ (List.mem_map_of_mem he) _ rfl).weaken
  rw [Call.sqlText, Expr.sqlTexts_eq, String.append_assoc, String.append_assoc]
  rw [String.append_assoc] at hlist
  exact (hname _ rfl).append hlist

theorem Binary.flow_of_children {o : Binary} (h : ∀ u ∈ Kind.binary.children o, u.Flows word) :
    Flow word false .before .behind o.sqlText := by
  obtain ⟨left, operator, right⟩ := o
  obtain ⟨hleft, hrest⟩ := List.forall_mem_cons.1 h
  have hright := hrest ⟨.expr, right⟩ List.mem_cons_self _ rfl
  have hboth := ((hleft _ rfl).append operator.flow).append hright
  simp only [← String.append_assoc] at hboth
  exact hboth

theorem flow_alias {commas : Bool} {aliasName : Option Ident}
    (h : ∀ u ∈ aliasName.toList.map (⟨.ident, ·⟩ : Ident → Node), u.Flows word) :
    Flow word commas .behind .behind (optionalClause " AS " (aliasName.map Ident.sqlText)) := by
  refine .optionalClause (.keyword (by decide)) fun i hi => ?_
  exact (h ⟨.ident, i⟩ (List.mem_map_of_mem (Option.mem_toList.2 hi)) _ rfl).of_false

theorem Relation.flow_of_children {r : Relation} (h : ∀ u ∈ r.children, u.Flows word) :
    Flow word true .before .behind r.sqlText := by
  cases r with
  | table name aliasName args hints =>
    obtain ⟨hname, hrest⟩ := List.forall_mem_cons.1 h
    obtain ⟨hrest, hhints⟩ := List.forall_mem_append.1 hrest
    obtain ⟨hargs, halias⟩ := List.forall_mem_append.1 hrest
    have hargs : Flow word true .behind .behind (listClause "(" ")" (args.map Expr.sqlText)) :=
      .parensClause (q := .behind) "" (by decide) .nothing fun e he =>
        (hargs ⟨.expr, e⟩ (List.mem_map_of_mem he) _ rfl).weaken
    have hhints : Flow word true .behind .behind
        (listClause " WITH (" ")" (hints.map Expr.sqlText)) :=
      .parensClause (q := .before) " WITH " (by decide) (.keyword (by decide)) fun e he =>
        (hhints ⟨.expr, e⟩ (List.mem_map_of_mem he) _ rfl).weaken
    have htable := (((hname _ rfl).weaken.append hargs).append (flow_alias halias)).append hhints
    rw [Relation.sqlText, Expr.sqlTexts_eq, Expr.sqlTexts_eq]
    exact htable
  | derived subquery aliasName =>
    obtain ⟨hsubquery, halias⟩ := List.forall_mem_cons.1 h
    exact (hsubquery _ rfl).append (flow_alias halias)

theorem JoinCondition.flow_of_children {c : JoinCondition} (h : ∀ u ∈ c.children, u.Flows word) :
    Flow word false .behind .behind c.sqlText := by
  cases c with
  | predicate e =>
    have hon : Flow word false .behind .before " ON " := .keyword (by decide)
    exact hon.append (h ⟨.expr, e⟩ List.mem_cons_self _ rfl)
  | columns names =>
    have hlist : Flow word false .behind .behind
        ("(" ++ Template.joined ", " (names.map Ident.sqlText) ++ ")") :=
      .arguments fun i hi => (h ⟨.ident, i⟩ (List.mem_map_of_mem hi) _ rfl).weaken
    have husing : Flow word false .behind .behind " USING" := .keyword (by decide)
    have hcolumns := husing.append hlist
    rw [String.append_assoc, ← String.append_assoc] at hcolumns
    rw [JoinCondition.sqlText, String.append_assoc]
    exact hcolumns
  | natural | absent => exact .nothing

/-- A join with a condition, put together from relation and condition. -/
theorem flow_join {relation : Relation} {c : JoinCondition} (k : String)
    (hk : Flow.Keyword .behind .before (" " ++ k))
    (hnatural : Flow.Keyword .behind .before (" NATURAL " ++ k))
    (hrelation : (⟨.relation, relation⟩ : Node).Flows word)
    (hc : ∀ u ∈ c.children, u.Flows word) :
    Flow word true .behind .behind (" " ++ c.adverb ++ k ++ relation.sqlText ++ c.sqlText) := by
  have hlead : Flow word true .behind .before (" " ++ c.adverb ++ k) := by
    cases c with
    | natural => exact .keyword hnatural
    | predicate | columns | absent => exact .keyword hk
  exact (hlead.append (hrelation _ rfl)).append (JoinCondition.flow_of_children hc).weaken

theorem Join.flow_of_children {j : Join} (h : ∀ u ∈ Kind.join.children j, u.Flows word) :
    Flow word true .behind .behind j.sqlText := by
  obtain ⟨relation, kind⟩ := j
  obtain ⟨hrelation, hcondition⟩ := List.forall_mem_cons.1 h
  cases kind with
  | inner c => exact flow_join "JOIN " (by decide) (by decide) hrelation hcondition
  | left c => exact flow_join "LEFT JOIN " (by decide) (by decide) hrelation hcondition
  | right c => exact flow_join "RIGHT JOIN " (by decide) (by decide) hrelation hcondition
  | full c => exact flow_join "FULL JOIN " (by decide) (by decide) hrelation hcondition
  | cross =>
    have hlead : Flow word true .behind .before " CROSS JOIN " := .keyword (by decide)
    exact hlead.append (hrelation _ rfl)
  | comma => exact .append .comma (hrelation _ rfl)

theorem FromClause.flow_of_children {f : FromClause}
    (h : ∀ u ∈ Kind.fromClause.children f, u.Flows word) :
    Flow word true .before .behind f.sqlText := by
  obtain ⟨relation, joins⟩ := f
  obtain ⟨hrelation, hjoins⟩ := List.forall_mem_cons.1 h
  have hall := Flow.concatenated fun j hj => hjoins ⟨.join, j⟩ (List.mem_map_of_mem hj) _ rfl
  rw [FromClause.sqlText, Join.sqlTexts_eq]
  exact (hrelation _ rfl).append hall

theorem SelectItem.flow_of_children {i : SelectItem} (h : ∀ u ∈ i.children, u.Flows word) :
    Flow word false .before .behind i.sqlText := by
  cases i with
  | expr e => exact h ⟨.expr, e⟩ List.mem_cons_self _ rfl
  | aliased e aliasName =>
    obtain ⟨he, hrest⟩ := List.forall_mem_cons.1 h
    have has : Flow word false .behind .before " AS " := .keyword (by decide)
    exact ((he _ rfl).append has).append (hrest ⟨.ident, aliasName⟩ List.mem_cons_self _ rfl)
  | qualifiedWildcard qualifier =>
    have hname := h ⟨.qualifiedName, qualifier⟩ List.mem_cons_self _ rfl
    exact hname.append (.append (s := ".") (t := "*") .point (.keyword (by decide)))
  | wildcard => exact .keyword (k := "*") (by decide)

/-- A clause with an expression that may be left out. -/
theorem flow_expr? {k : String} (hk : Flow.Keyword .behind .before k) {e : Option Expr}
    (h : ∀ u ∈ e.toList.map (⟨.expr, ·⟩ : Expr → Node), u.Flows word) :
    Flow word true .behind .behind (optionalClause k (Expr.sqlText? e)) := by
  have hmap : Expr.sqlText? e = e.map Expr.sqlText := by
    cases e <;> rfl
  rw [hmap]
  refine .optionalClause (.keyword hk) fun e he => ?_
  exact (h ⟨.expr, e⟩ (List.mem_map_of_mem (Option.mem_toList.2 he)) _ rfl).weaken

theorem FromClause.flow? {source : Option FromClause}
    (h : ∀ u ∈ source.toList.map (⟨.fromClause, ·⟩ : FromClause → Node), u.Flows word) :
    Flow word true .behind .behind (optionalClause " FROM " (FromClause.sqlText? source)) := by
  have hmap : FromClause.sqlText? source = source.map FromClause.sqlText := by
    cases source <;> rfl
  rw [hmap]
  refine .optionalClause (.keyword (by decide)) fun f hf => ?_
  exact h ⟨.fromClause, f⟩ (List.mem_map_of_mem (Option.mem_toList.2 hf)) _ rfl

theorem Projection.flow_of_children {p : Projection}
    (h : ∀ u ∈ p.items.map (⟨.selectItem, ·⟩ : SelectItem → Node), u.Flows word) :
    Flow word true .before .behind p.sqlText := by
  obtain ⟨first, rest⟩ := p
  rw [Projection.sqlText, SelectItem.sqlTexts_eq, ← List.map_cons]
  refine .joined .comma (List.cons_ne_nil first rest) fun i hi => ?_
  exact (h ⟨.selectItem, i⟩ (List.mem_map_of_mem hi) _ rfl).weaken

theorem Select.flow_of_children {s : Select} (h : ∀ u ∈ Kind.select.children s, u.Flows word) :
    Flow word true .before .behind s.sqlText := by
  obtain ⟨distinct, projection, source, condition, groupBy, having⟩ := s
  simp only [Kind.children, List.forall_mem_append] at h
  obtain ⟨⟨⟨⟨hprojection, hsource⟩, hcondition⟩, hgroupBy⟩, hhaving⟩ := h
  have hlead : Flow word true .before .before
      ("SELECT " ++ if distinct then "DISTINCT " else "") := by
    cases distinct <;> exact .keyword (by decide)
  have hgroups : Flow word true .behind .behind
      (listClause " GROUP BY " "" (groupBy.map Expr.sqlText)) :=
    .listClause (.keyword (by decide)) .nothing fun e he =>
      (hgroupBy ⟨.expr, e⟩ (List.mem_map_of_mem he) _ rfl).weaken
  have hwhere := flow_expr? (k := " WHERE ") (by decide) hcondition
  have hhaving := flow_expr? (k := " HAVING ") (by decide) hhaving
  have hselect := ((((hlead.append (Projection.flow_of_children hprojection)).append
    (FromClause.flow? hsource)).append hwhere).append hgroups).append hhaving
  rw [Select.sqlText, Expr.sqlTexts_eq]
  exact hselect

theorem Body.flow_of_children {b : Body} (h : ∀ u ∈ b.children, u.Flows word) :
    Flow word true .before .behind b.sqlText := by
  cases b with
  | select s => exact h ⟨.select, s⟩ List.mem_cons_self _ rfl
  | query q =>
    have hq := h ⟨.query, q⟩ List.mem_cons_self _ rfl
    exact .parens hq
  | operation operator all left right =>
    obtain ⟨hleft, hrest⟩ := List.forall_mem_cons.1 h
    have hright := hrest ⟨.body, right⟩ List.mem_cons_self _ rfl
    have hblank : Flow word true .behind .before " " := .keyword (by decide)
    have hall : Flow word true .behind .behind (if all then " ALL" else "") := by
      cases all with
      | false => exact .nothing
      | true => exact .keyword (k := " ALL") (by decide)
    exact (((((hleft _ rfl).append hblank).append operator.flow.weaken).append hall).append
      hblank).append hright

theorem OrderItem.flow_of_children {o : OrderItem}
    (h : ∀ u ∈ Kind.orderItem.children o, u.Flows word) :
    Flow word false .before .behind o.sqlText := by
  obtain ⟨e, direction⟩ := o
  have he := h ⟨.expr, e⟩ List.mem_cons_self _ rfl
  have hblank : Flow word false .behind .before " " := .keyword (by decide)
  exact he.append (.optionalClause hblank fun d _ => d.flow)

theorem Cte.flow_of_children {c : Cte} (h : ∀ u ∈ Kind.cte.children c, u.Flows word) :
    Flow word false .before .behind c.sqlText := by
  obtain ⟨name, query⟩ := c
  obtain ⟨hname, hrest⟩ := List.forall_mem_cons.1 h
  have hquery := hrest ⟨.query, query⟩ List.mem_cons_self _ rfl
  exact .called (hname _ rfl) " AS " (by decide) (.keyword (q := .before) (by decide)) hquery

theorem Query.flow_of_children {q : Query} (h : ∀ u ∈ Kind.query.children q, u.Flows word) :
    Flow word true .before .behind q.sqlText := by
  obtain ⟨ctes, body, orderBy, limit, offset⟩ := q
  simp only [Kind.children, List.forall_mem_append, List.forall_mem_cons] at h
  obtain ⟨hctes, hbody, ⟨horderBy, hlimit⟩, hoffset⟩ := h
  have hwith : Flow word true .before .before (listClause "WITH " " " (ctes.map Cte.sqlText)) :=
    .listClause (.keyword (by decide)) (.keyword (by decide)) fun c hc =>
      (hctes ⟨.cte, c⟩ (List.mem_map_of_mem hc) _ rfl).weaken
  have horder : Flow word true .behind .behind
      (listClause " ORDER BY " "" (orderBy.map OrderItem.sqlText)) :=
    .listClause (.keyword (by decide)) .nothing fun o ho =>
      (horderBy ⟨.orderItem, o⟩ (List.mem_map_of_mem ho) _ rfl).weaken
  have hquery := (((hwith.append (hbody _ rfl)).append horder).append
    (flow_expr? (k := " LIMIT ") (by decide) hlimit)).append
    (flow_expr? (k := " OFFSET ") (by decide) hoffset)
  rw [Query.sqlText, Cte.sqlTexts_eq, OrderItem.sqlTexts_eq]
  exact hquery

end

/-! ## Nodes -/

namespace Node

variable {word : String → Prop}

/-- The SQL of a node is made of words if that of its direct subnodes is. -/
theorem flows_of_children {t : Node} (hword : t.Worded word) (h : ∀ u ∈ t.children, u.Flows word) :
    t.Flows word := by
  obtain ⟨kind, tree⟩ := t
  intro text htext
  cases kind with
  | ident =>
    cases htext
    exact .word (hword.leaves (.name tree) List.mem_cons_self)
  | qualifiedName =>
    cases htext
    refine .dotted (List.cons_ne_nil _ _) fun i hi => ?_
    exact h ⟨.ident, i⟩ (List.mem_map_of_mem hi) _ rfl
  | constant =>
    cases htext
    exact Constant.flow tree
  | setOperator =>
    cases htext
    exact SetOperator.flow tree
  | expr =>
    cases htext
    exact Expr.flow_of_children hword h
  | call =>
    cases htext
    exact Call.flow_of_children h
  | binary =>
    cases htext
    exact Binary.flow_of_children h
  | relation =>
    cases htext
    exact Relation.flow_of_children h
  | joinCondition =>
    cases htext
    exact JoinCondition.flow_of_children h
  | join =>
    cases htext
    exact Join.flow_of_children h
  | fromClause =>
    cases htext
    exact FromClause.flow_of_children h
  | selectItem =>
    cases htext
    exact SelectItem.flow_of_children h
  | select =>
    cases htext
    exact Select.flow_of_children h
  | body =>
    cases htext
    exact Body.flow_of_children h
  | orderItem =>
    cases htext
    exact OrderItem.flow_of_children h
  | cte =>
    cases htext
    exact Cte.flow_of_children h
  | query =>
    cases htext
    exact Query.flow_of_children h
  | text | flag | long | double | maybe | many | operator | direction | joinKind | projection =>
    cases htext

/-- **The SQL of every node flows.** Whatever the names and raw texts are, if they count as words
then the SQL is put together from them as `Flow` says. -/
theorem Worded.flows {n : Node} (h : n.Worded word) : n.Flows word := by
  induction n using Node.induction with
  | h t ih => exact flows_of_children h fun u hu => ih u hu (h.child hu)

end Node

end SqlTree
