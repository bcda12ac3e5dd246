import SqlTree.Proofs.Json.Numeral
import SqlTree.Proofs.Sql.Lexing
import SqlTree.Proofs.Sql.Writing
import SqlTree.Proofs.Tree.Plain

/-!
# Lexemes of a tree

`lexemes` lists the words, marks and literals of a tree, by recursion on the tree alone. For a plain
tree its text is cut into just these (`Expr.lexes`, …, `Query.lexes`).
-/

namespace SqlTree

open Template Lexeme

/-! ## Leaves -/

namespace Ident

def lexeme (i : Ident) : Lexeme := .word i.text

/-- Names with points between them. -/
def dotted (names : List Ident) : List Lexeme :=
  Json.between (.mark '.') (names.map fun i => [i.lexeme])

/-- Names with commas between them. -/
def listed (names : List Ident) : List Lexeme :=
  Json.between (.mark ',') (names.map fun i => [i.lexeme])

/-- The lexemes of an alias, if there is one. -/
def alias? (aliasName : Option Ident) : List Lexeme :=
  clause? [.word "AS"] (aliasName.map fun i => [i.lexeme])

end Ident

def QualifiedName.lexemes (n : QualifiedName) : List Lexeme := Ident.dotted n.parts

def Constant.lexeme : Constant → Lexeme
  | .long n => .word (toString n.toInt)
  | .double x => .word x.sql
  | .text s => .literal s
  | .boolean b => .word (if b then "TRUE" else "FALSE")
  | .null => .word "NULL"

def Operator.lexemes : Operator → List Lexeme
  | .notLike => [.word "NOT", .word "LIKE"]
  | o => [.word o.sqlText]

/-- What stands between an operand and its subquery. -/
def inLexemes (negated : Bool) : List Lexeme :=
  if negated then [.word "NOT", .word "IN", .mark '('] else [.word "IN", .mark '(']

/-- What stands before a subquery that is asked for rows. -/
def existsLexemes (negated : Bool) : List Lexeme :=
  if negated then [.word "NOT", .word "EXISTS", .mark '('] else [.word "EXISTS", .mark '(']

def JoinCondition.adverbLexemes : JoinCondition → List Lexeme
  | .natural => [.word "NATURAL"]
  | _ => []

/-! ## Trees -/

mutual

def Expr.lexemes : Expr → List Lexeme
  | .identifier name => [name.lexeme]
  | .compound parts => Ident.dotted parts
  | .wildcard => [.word "*"]
  | .constant value => [value.lexeme]
  | .call c => c.lexemes
  | .binary o => o.lexemes
  | .nested inner => [.mark '('] ++ (inner.lexemes ++ [.mark ')'])
  | .inSubquery operand subquery negated =>
    operand.lexemes ++ (inLexemes negated ++ (subquery.lexemes ++ [.mark ')']))
  | .existence subquery negated => existsLexemes negated ++ (subquery.lexemes ++ [.mark ')'])
  | .raw sql => [.word sql]

def Call.lexemes : Call → List Lexeme
  | ⟨name, args⟩ =>
    name.lexemes
      ++ ([.mark '('] ++ (Json.between (.mark ',') (Expr.lexemesAll args) ++ [.mark ')']))

def Binary.lexemes : Binary → List Lexeme
  | ⟨left, operator, right⟩ => left.lexemes ++ (operator.lexemes ++ right.lexemes)

def Relation.lexemes : Relation → List Lexeme
  | .table name aliasName args hints =>
    name.lexemes ++ (clause [.mark '('] [.mark ')'] (Expr.lexemesAll args)
      ++ (Ident.alias? aliasName
      ++ clause [.word "WITH", .mark '('] [.mark ')'] (Expr.lexemesAll hints)))
  | .derived subquery aliasName => subquery.lexemes ++ Ident.alias? aliasName

def JoinCondition.lexemes : JoinCondition → List Lexeme
  | .predicate e => [.word "ON"] ++ e.lexemes
  | .columns names => [.word "USING", .mark '('] ++ (Ident.listed names ++ [.mark ')'])
  | .natural => []
  | .absent => []

def Join.lexemes : Join → List Lexeme
  | ⟨relation, .inner c⟩ => c.adverbLexemes ++ [.word "JOIN"] ++ (relation.lexemes ++ c.lexemes)
  | ⟨relation, .left c⟩ =>
    c.adverbLexemes ++ [.word "LEFT", .word "JOIN"] ++ (relation.lexemes ++ c.lexemes)
  | ⟨relation, .right c⟩ =>
    c.adverbLexemes ++ [.word "RIGHT", .word "JOIN"] ++ (relation.lexemes ++ c.lexemes)
  | ⟨relation, .full c⟩ =>
    c.adverbLexemes ++ [.word "FULL", .word "JOIN"] ++ (relation.lexemes ++ c.lexemes)
  | ⟨relation, .cross⟩ => [.word "CROSS", .word "JOIN"] ++ relation.lexemes
  | ⟨relation, .comma⟩ => [.mark ','] ++ relation.lexemes

def FromClause.lexemes : FromClause → List Lexeme
  | ⟨relation, joins⟩ => relation.lexemes ++ (Join.lexemesAll joins).flatten

def SelectItem.lexemes : SelectItem → List Lexeme
  | .expr e => e.lexemes
  | .aliased e aliasName => e.lexemes ++ [.word "AS", aliasName.lexeme]
  | .qualifiedWildcard qualifier => qualifier.lexemes ++ [.mark '.', .word "*"]
  | .wildcard => [.word "*"]

def Projection.lexemes : Projection → List Lexeme
  | ⟨first, rest⟩ => Json.between (.mark ',') (first.lexemes :: SelectItem.lexemesAll rest)

def Select.lexemes : Select → List Lexeme
  | ⟨distinct, projection, source, condition, groupBy, having⟩ =>
    [.word "SELECT"] ++ ((if distinct then [.word "DISTINCT"] else []) ++ (projection.lexemes
      ++ (clause? [.word "FROM"] (FromClause.lexemes? source)
      ++ (clause? [.word "WHERE"] (Expr.lexemes? condition)
      ++ (clause [.word "GROUP", .word "BY"] [] (Expr.lexemesAll groupBy)
      ++ clause? [.word "HAVING"] (Expr.lexemes? having))))))

def Body.lexemes : Body → List Lexeme
  | .select s => s.lexemes
  | .query q => [.mark '('] ++ (q.lexemes ++ [.mark ')'])
  | .operation operator all left right =>
    left.lexemes ++ ([.word operator.sqlText]
      ++ ((if all then [.word "ALL"] else []) ++ right.lexemes))

def OrderItem.lexemes : OrderItem → List Lexeme
  | ⟨expr, direction⟩ => expr.lexemes ++ (direction.map fun d => .word d.sqlText).toList

def Cte.lexemes : Cte → List Lexeme
  | ⟨name, query⟩ => [name.lexeme] ++ ([.word "AS", .mark '('] ++ (query.lexemes ++ [.mark ')']))

def Query.lexemes : Query → List Lexeme
  | ⟨ctes, body, orderBy, limit, offset⟩ =>
    clause [.word "WITH"] [] (Cte.lexemesAll ctes) ++ (body.lexemes
      ++ (clause [.word "ORDER", .word "BY"] [] (OrderItem.lexemesAll orderBy)
      ++ (clause? [.word "LIMIT"] (Expr.lexemes? limit)
      ++ clause? [.word "OFFSET"] (Expr.lexemes? offset))))

def Expr.lexemesAll : List Expr → List (List Lexeme)
  | [] => []
  | e :: rest => e.lexemes :: Expr.lexemesAll rest

def Expr.lexemes? : Option Expr → Option (List Lexeme)
  | none => none
  | some e => some e.lexemes

def FromClause.lexemes? : Option FromClause → Option (List Lexeme)
  | none => none
  | some f => some f.lexemes

def Join.lexemesAll : List Join → List (List Lexeme)
  | [] => []
  | j :: rest => j.lexemes :: Join.lexemesAll rest

def SelectItem.lexemesAll : List SelectItem → List (List Lexeme)
  | [] => []
  | i :: rest => i.lexemes :: SelectItem.lexemesAll rest

def OrderItem.lexemesAll : List OrderItem → List (List Lexeme)
  | [] => []
  | o :: rest => o.lexemes :: OrderItem.lexemesAll rest

def Cte.lexemesAll : List Cte → List (List Lexeme)
  | [] => []
  | c :: rest => c.lexemes :: Cte.lexemesAll rest

end

/-! ## Lists and options of subtrees -/

theorem Expr.lexemesAll_eq (es : List Expr) : Expr.lexemesAll es = es.map Expr.lexemes :=
  eq_map rfl (fun _ _ => rfl) es

theorem Expr.lexemes?_eq (e : Option Expr) : Expr.lexemes? e = e.map Expr.lexemes := by
  cases e <;> rfl

theorem FromClause.lexemes?_eq (f : Option FromClause) :
    FromClause.lexemes? f = f.map FromClause.lexemes := by
  cases f <;> rfl

theorem Join.lexemesAll_eq (js : List Join) : Join.lexemesAll js = js.map Join.lexemes :=
  eq_map rfl (fun _ _ => rfl) js

theorem SelectItem.lexemesAll_eq (items : List SelectItem) :
    SelectItem.lexemesAll items = items.map SelectItem.lexemes := eq_map rfl (fun _ _ => rfl) items

theorem OrderItem.lexemesAll_eq (items : List OrderItem) :
    OrderItem.lexemesAll items = items.map OrderItem.lexemes := eq_map rfl (fun _ _ => rfl) items

theorem Cte.lexemesAll_eq (ctes : List Cte) : Cte.lexemesAll ctes = ctes.map Cte.lexemes :=
  eq_map rfl (fun _ _ => rfl) ctes

/-! ## The texts of leaves -/

/-- A character of a class without quotes and delimiters. -/
theorem isWordChar_of {p : Char → Bool}
    (hp : (['\x27', ' ', '(', ')', ',', '.'].all fun d => !p d) = true) {c : Char}
    (h : p c = true) : isWordChar c = true := by
  have hne (d : Char) (hd : d ∈ ['\x27', ' ', '(', ')', ',', '.']) : c ≠ d := by
    rintro rfl
    have hc := List.all_eq_true.1 hp c hd
    rw [h] at hc
    cases hc
  simp [isWordChar, isDelimiter, isMark, hne]

theorem Ident.lexes {i : Ident} (h : i.IsPlain) : Lexes i.sqlText [i.lexeme] := by
  obtain ⟨text⟩ := i
  show Lexes text [.word text]
  have hname : isName text = true := h
  cases hchars : text.toList with
  | nil =>
    rw [isName, hchars] at hname
    cases hname
  | cons c rest =>
    rw [isName, hchars] at hname
    simp only [Bool.and_eq_true, Bool.or_eq_true, beq_iff_eq, List.all_eq_true] at hname
    obtain ⟨hfirst, hrest⟩ := hname
    refine lexes_word ?_ ?_
    · rintro rfl
      cases hchars
    · rw [hchars, List.all_eq_true]
      refine List.forall_mem_cons.2 ⟨?_, fun d hd => ?_⟩
      · rcases hfirst with hlower | rfl
        · exact isWordChar_of (by decide) hlower
        · rfl
      · rcases hrest d hd with (hlower | hdigit) | rfl
        · exact isWordChar_of (p := Char.isLower) (by decide) hlower
        · exact isWordChar_of (p := Char.isDigit) (by decide) hdigit
        · rfl

theorem Ident.lexes_joined {separator : String} {l : Lexeme} (hseparator : Separates separator [l])
    {names : List Ident} (h : ∀ i ∈ names, i.IsPlain) :
    Lexes (joined separator (names.map Ident.sqlText))
      (Json.between l (names.map fun i => [i.lexeme])) :=
  .joined hseparator fun i hi => Ident.lexes (h i hi)

theorem QualifiedName.lexes {n : QualifiedName} (h : n.IsPlain) : Lexes n.sqlText n.lexemes :=
  Ident.lexes_joined ⟨fun _ => rfl, rfl⟩ h

theorem attaches_alias {aliasName : Option Ident} (h : ∀ i ∈ aliasName, i.IsPlain) :
    Attaches (optionalClause " AS " (aliasName.map Ident.sqlText)) (Ident.alias? aliasName) := by
  cases aliasName with
  | none => exact .nil
  | some i =>
    have has : Separates " AS " [.word "AS"] := ⟨fun _ => rfl, rfl⟩
    exact has.attaches (Ident.lexes (h i rfl))

theorem lexes_toString (n : Int) : Lexes (toString n) [.word (toString n)] := by
  have hdigits (k : Nat) : ∀ c ∈ Nat.toDigits 10 k, isWordChar c = true := fun c hc =>
    isWordChar_of (p := Char.isDigit) (by decide) (Json.Numeral.isDigit_of_mem hc)
  cases n with
  | ofNat k =>
    have hchars := Json.Numeral.toList_toString_natCast k
    rw [Int.ofNat_eq_natCast]
    refine lexes_word ?_ (List.all_eq_true.2 (hchars ▸ hdigits k))
    intro hempty
    rw [hempty] at hchars
    exact Nat.toDigits_ne_nil hchars.symm
  | negSucc k =>
    have hchars := Json.Numeral.toList_toString_negSucc k
    refine lexes_word ?_ ?_
    · intro hempty
      rw [hempty] at hchars
      cases hchars
    · rw [hchars, List.all_eq_true]
      exact List.forall_mem_cons.2 ⟨rfl, hdigits _⟩

theorem Constant.lexes : ∀ {c : Constant}, c.IsPlain → Lexes c.sqlText [c.lexeme]
  | .long n, _ => lexes_toString n.toInt
  | .text s, _ => lexes_quoted s
  | .boolean true, _ => lexes_word (t := "TRUE") (by decide) (by decide)
  | .boolean false, _ => lexes_word (t := "FALSE") (by decide) (by decide)
  | .null, _ => lexes_word (t := "NULL") (by decide) (by decide)

theorem Operator.separates (o : Operator) : Separates (" " ++ o.sqlText ++ " ") o.lexemes := by
  cases o <;> exact ⟨fun _ => rfl, rfl⟩

theorem SetOperator.separates (o : SetOperator) (all : Bool) :
    Separates (" " ++ o.sqlText ++ (if all then " ALL" else "") ++ " ")
      ([.word o.sqlText] ++ if all then [.word "ALL"] else []) := by
  cases o <;> cases all <;> exact ⟨fun _ => rfl, rfl⟩

/-- A join with a condition, put together from relation and condition. -/
theorem lexes_join (keyword : String) {relation : String} {ks ls : List Lexeme} {c : JoinCondition}
    (hplain : Separates (" " ++ keyword) ks)
    (hnatural : Separates (" NATURAL " ++ keyword) (.word "NATURAL" :: ks))
    (hrelation : Lexes relation ls) (hc : Attaches c.sqlText c.lexemes) :
    Attaches (" " ++ c.adverb ++ keyword ++ relation ++ c.sqlText)
      (c.adverbLexemes ++ ks ++ (ls ++ c.lexemes)) := by
  have hlead : Separates (" " ++ c.adverb ++ keyword) (c.adverbLexemes ++ ks) := by
    cases c with
    | natural => exact hnatural
    | _ => exact hplain
  have hjoin := hlead.attaches (hrelation.append hc)
  rwa [← String.append_assoc] at hjoin

/-! ## The texts of trees -/

theorem Separates.closing : Separates ")" [.mark ')'] := ⟨fun _ => rfl, rfl⟩

theorem Separates.opening : Separates "(" [.mark '('] := ⟨fun _ => rfl, rfl⟩

theorem Separates.point : Separates "." [.mark '.'] := ⟨fun _ => rfl, rfl⟩

theorem attaches_direction (direction : Option Direction) :
    Attaches (optionalClause " " (direction.map Direction.sqlText))
      (direction.map fun d => Lexeme.word d.sqlText).toList := by
  cases direction with
  | none => exact .nil
  | some d =>
    have hblank : Separates " " [] := ⟨fun _ => rfl, rfl⟩
    have hword : Lexes d.sqlText [.word d.sqlText] := by
      cases d <;> exact lexes_word (by decide) (by decide)
    exact hblank.attaches hword

/-- The named queries in front of a body. -/
theorem breaks_with {ctes : List Cte} (h : ∀ c ∈ ctes, Lexes c.sqlText c.lexemes) :
    Breaks (listClause "WITH " " " (ctes.map Cte.sqlText))
      (clause [.word "WITH"] [] (ctes.map Cte.lexemes)) := by
  cases ctes with
  | nil => exact fun _ => rfl
  | cons c rest =>
    have hwith : Breaks "WITH " [.word "WITH"] := fun _ => rfl
    have hblank : Separates " " [] := ⟨fun _ => rfl, rfl⟩
    have hctes := hwith.append_breaks ((Lexes.joined Separates.comma h).breaks hblank)
    rw [← String.append_assoc] at hctes
    exact hctes

mutual

theorem Expr.lexes : ∀ e : Expr, e.IsPlain → Lexes e.sqlText e.lexemes
  | .identifier _, h => Ident.lexes h
  | .compound _, h => Ident.lexes_joined ⟨fun _ => rfl, rfl⟩ h.2
  | .wildcard, _ => lexes_word (t := "*") (by decide) (by decide)
  | .constant _, h => Constant.lexes h
  | .call c, h => Call.lexes c h
  | .binary o, h => Binary.lexes o h
  | .nested inner, h => by
    have hinner := Separates.opening.attaches ((Expr.lexes inner h).append Separates.closing.alone)
    rw [← String.append_assoc] at hinner
    exact hinner.lexes
  | .inSubquery operand subquery negated, h => by
    have hin : Separates ((if negated then " NOT" else "") ++ " IN (") (inLexemes negated) := by
      cases negated <;> exact ⟨fun _ => rfl, rfl⟩
    have hsubquery := (Query.lexes subquery h.2).append Separates.closing.alone
    have hall := (Expr.lexes operand h.1).around hin hsubquery
    simp only [← String.append_assoc] at hall
    exact hall
  | .existence subquery negated, h => by
    have hexists : Breaks ((if negated then "NOT " else "") ++ "EXISTS (")
        (existsLexemes negated) := by
      cases negated <;> exact fun _ => rfl
    have hall := hexists.append ((Query.lexes subquery h).append Separates.closing.alone)
    rw [← String.append_assoc] at hall
    exact hall

theorem Call.lexes : ∀ c : Call, c.IsPlain → Lexes c.sqlText c.lexemes
  | ⟨name, args⟩, ⟨hname, hargs⟩ => by
    have hjoined := Lexes.joined Separates.comma (Expr.lexes_of_mem args hargs)
    have hcall := (QualifiedName.lexes hname).around Separates.opening
      (hjoined.append Separates.closing.alone)
    rw [Call.sqlText, Call.lexemes, Expr.sqlTexts_eq, Expr.lexemesAll_eq]
    rw [← String.append_assoc] at hcall
    exact hcall

theorem Binary.lexes : ∀ o : Binary, o.IsPlain → Lexes o.sqlText o.lexemes
  | ⟨left, operator, right⟩, ⟨hleft, hright, _⟩ => by
    have hboth := (Expr.lexes left hleft).around operator.separates (Expr.lexes right hright)
    simp only [← String.append_assoc] at hboth
    exact hboth

theorem Relation.lexes : ∀ r : Relation, r.IsPlain → Lexes r.sqlText r.lexemes
  | .table name aliasName args hints, ⟨hname, halias, hargs, hhints⟩ => by
    have hwith : Separates " WITH (" [.word "WITH", .mark '('] := ⟨fun _ => rfl, rfl⟩
    have hlist := Attaches.clause Separates.opening Separates.closing.alone
      (Expr.lexes_of_mem args hargs)
    have hhinted := Attaches.clause hwith Separates.closing.alone (Expr.lexes_of_mem hints hhints)
    have htable := (QualifiedName.lexes hname).append
      (hlist.append ((attaches_alias halias).append hhinted))
    rw [Relation.sqlText, Relation.lexemes, Expr.sqlTexts_eq, Expr.sqlTexts_eq, Expr.lexemesAll_eq,
      Expr.lexemesAll_eq]
    simp only [← String.append_assoc] at htable
    exact htable
  | .derived subquery aliasName, ⟨hsubquery, _, halias⟩ =>
    (Query.lexes subquery hsubquery).append (attaches_alias halias)

theorem JoinCondition.attaches : ∀ c : JoinCondition, c.IsPlain → Attaches c.sqlText c.lexemes
  | .predicate e, h => by
    have hon : Separates " ON " [.word "ON"] := ⟨fun _ => rfl, rfl⟩
    exact hon.attaches (Expr.lexes e h)
  | .columns names, h => by
    have husing : Separates " USING(" [.word "USING", .mark '('] := ⟨fun _ => rfl, rfl⟩
    have hnames := husing.attaches
      ((Ident.lexes_joined Separates.comma h).append Separates.closing.alone)
    rw [← String.append_assoc] at hnames
    exact hnames
  | .natural, _ => .nil
  | .absent, _ => .nil

theorem Join.attaches : ∀ j : Join, j.IsPlain → Attaches j.sqlText j.lexemes
  | ⟨relation, .inner c⟩, ⟨hrelation, hc⟩ =>
    lexes_join "JOIN " ⟨fun _ => rfl, rfl⟩ ⟨fun _ => rfl, rfl⟩
      (Relation.lexes relation hrelation) (JoinCondition.attaches c hc)
  | ⟨relation, .left c⟩, ⟨hrelation, hc⟩ =>
    lexes_join "LEFT JOIN " ⟨fun _ => rfl, rfl⟩ ⟨fun _ => rfl, rfl⟩
      (Relation.lexes relation hrelation) (JoinCondition.attaches c hc)
  | ⟨relation, .right c⟩, ⟨hrelation, hc⟩ =>
    lexes_join "RIGHT JOIN " ⟨fun _ => rfl, rfl⟩ ⟨fun _ => rfl, rfl⟩
      (Relation.lexes relation hrelation) (JoinCondition.attaches c hc)
  | ⟨relation, .full c⟩, ⟨hrelation, hc⟩ =>
    lexes_join "FULL JOIN " ⟨fun _ => rfl, rfl⟩ ⟨fun _ => rfl, rfl⟩
      (Relation.lexes relation hrelation) (JoinCondition.attaches c hc)
  | ⟨relation, .cross⟩, ⟨hrelation, _⟩ => by
    have hcross : Separates " CROSS JOIN " [.word "CROSS", .word "JOIN"] := ⟨fun _ => rfl, rfl⟩
    exact hcross.attaches (Relation.lexes relation hrelation)
  | ⟨relation, .comma⟩, ⟨hrelation, _⟩ =>
    Separates.comma.attaches (Relation.lexes relation hrelation)

theorem FromClause.lexes : ∀ f : FromClause, f.IsPlain → Lexes f.sqlText f.lexemes
  | ⟨relation, joins⟩, ⟨hrelation, hjoins⟩ => by
    have hsource := (Relation.lexes relation hrelation).append
      (Attaches.joined (Join.attaches_of_mem joins hjoins))
    rw [FromClause.sqlText, FromClause.lexemes, Join.sqlTexts_eq, Join.lexemesAll_eq,
      ← List.flatMap_def]
    exact hsource

theorem SelectItem.lexes : ∀ i : SelectItem, i.IsPlain → Lexes i.sqlText i.lexemes
  | .expr e, h => Expr.lexes e h.1
  | .aliased e aliasName, ⟨he, halias⟩ => by
    have has : Separates " AS " [.word "AS"] := ⟨fun _ => rfl, rfl⟩
    exact (Expr.lexes e he).around has (Ident.lexes halias)
  | .qualifiedWildcard qualifier, h => by
    have hstar : Attaches ".*" [.mark '.', .word "*"] :=
      Separates.point.attaches (lexes_word (t := "*") (by decide) (by decide))
    exact (QualifiedName.lexes h).append hstar
  | .wildcard, _ => lexes_word (t := "*") (by decide) (by decide)

theorem Projection.lexes : ∀ p : Projection, p.IsPlain → Lexes p.sqlText p.lexemes
  | ⟨first, rest⟩, ⟨hfirst, hrest⟩ => by
    have hitems : ∀ i ∈ first :: rest, Lexes i.sqlText i.lexemes :=
      List.forall_mem_cons.2 ⟨SelectItem.lexes first hfirst, SelectItem.lexes_of_mem rest hrest⟩
    have hjoined := Lexes.joined Separates.comma hitems
    rw [Projection.sqlText, Projection.lexemes, SelectItem.sqlTexts_eq, SelectItem.lexemesAll_eq]
    exact hjoined

theorem Select.lexes : ∀ s : Select, s.IsPlain → Lexes s.sqlText s.lexemes
  | ⟨distinct, projection, source, condition, groupBy, having⟩,
      ⟨hprojection, hsource, hcondition, hgroupBy, hhaving⟩ => by
    have hselect : Breaks ("SELECT " ++ if distinct then "DISTINCT " else "")
        ([.word "SELECT"] ++ if distinct then [.word "DISTINCT"] else []) := by
      cases distinct <;> exact fun _ => rfl
    have hwhere : Separates " WHERE " [.word "WHERE"] := ⟨fun _ => rfl, rfl⟩
    have hgroup : Separates " GROUP BY " [.word "GROUP", .word "BY"] := ⟨fun _ => rfl, rfl⟩
    have hkeyword : Separates " HAVING " [.word "HAVING"] := ⟨fun _ => rfl, rfl⟩
    have hgroups := Attaches.clause hgroup .nil (Expr.lexes_of_mem groupBy hgroupBy)
    have hall := hselect.append ((Projection.lexes projection hprojection).append
      ((FromClause.attaches? source hsource).append
        ((Expr.attaches? hwhere condition hcondition).append
          (hgroups.append (Expr.attaches? hkeyword having hhaving)))))
    rw [Select.sqlText, Select.lexemes, Expr.sqlTexts_eq, Expr.lexemesAll_eq]
    simp only [← String.append_assoc, List.append_assoc] at hall
    exact hall

theorem Body.lexes : ∀ b : Body, b.IsPlain → Lexes b.sqlText b.lexemes
  | .select s, h => Select.lexes s h
  | .query q, h => by
    have hquery := Separates.opening.attaches ((Query.lexes q h).append Separates.closing.alone)
    rw [← String.append_assoc] at hquery
    exact hquery.lexes
  | .operation operator all left right, ⟨hleft, hright, _⟩ => by
    have hboth := (Body.lexes left hleft).around (operator.separates all) (Body.lexes right hright)
    simp only [← String.append_assoc, List.append_assoc] at hboth
    exact hboth

theorem OrderItem.lexes : ∀ o : OrderItem, o.IsPlain → Lexes o.sqlText o.lexemes
  | ⟨expr, direction⟩, h => (Expr.lexes expr h).append (attaches_direction direction)

theorem Cte.lexes : ∀ c : Cte, c.IsPlain → Lexes c.sqlText c.lexemes
  | ⟨name, query⟩, ⟨hname, hquery⟩ => by
    have has : Separates " AS (" [.word "AS", .mark '('] := ⟨fun _ => rfl, rfl⟩
    have hcte := (Ident.lexes hname).around has
      ((Query.lexes query hquery).append Separates.closing.alone)
    simp only [← String.append_assoc] at hcte
    exact hcte

theorem Query.lexes : ∀ q : Query, q.IsPlain → Lexes q.sqlText q.lexemes
  | ⟨ctes, body, orderBy, limit, offset⟩, ⟨hctes, hbody, horderBy, hlimit, hoffset⟩ => by
    have horder : Separates " ORDER BY " [.word "ORDER", .word "BY"] := ⟨fun _ => rfl, rfl⟩
    have hkeyword : Separates " LIMIT " [.word "LIMIT"] := ⟨fun _ => rfl, rfl⟩
    have hstart : Separates " OFFSET " [.word "OFFSET"] := ⟨fun _ => rfl, rfl⟩
    have hwith := breaks_with (Cte.lexes_of_mem ctes hctes)
    have horders := Attaches.clause horder .nil (OrderItem.lexes_of_mem orderBy horderBy)
    have hall := hwith.append ((Body.lexes body hbody).append (horders.append
      ((Expr.attaches? hkeyword limit hlimit).append (Expr.attaches? hstart offset hoffset))))
    rw [Query.sqlText, Query.lexemes, Cte.sqlTexts_eq, Cte.lexemesAll_eq, OrderItem.sqlTexts_eq,
      OrderItem.lexemesAll_eq]
    simp only [← String.append_assoc] at hall
    exact hall

theorem Expr.attaches? {keyword : String} {ks : List Lexeme} (hkeyword : Separates keyword ks) :
    ∀ e : Option Expr, Expr.IsPlain? e →
      Attaches (optionalClause keyword (Expr.sqlText? e)) (clause? ks (Expr.lexemes? e))
  | none, _ => .nil
  | some e, h => hkeyword.attaches (Expr.lexes e h)

theorem FromClause.attaches? : ∀ f : Option FromClause, FromClause.IsPlain? f →
    Attaches (optionalClause " FROM " (FromClause.sqlText? f))
      (clause? [.word "FROM"] (FromClause.lexemes? f))
  | none, _ => .nil
  | some f, h => by
    have hfrom : Separates " FROM " [.word "FROM"] := ⟨fun _ => rfl, rfl⟩
    exact hfrom.attaches (FromClause.lexes f h)

theorem Expr.lexes_of_mem : ∀ es : List Expr, Expr.ArePlain es → ∀ e ∈ es, Lexes e.sqlText e.lexemes
  | [], _ => fun _ h => absurd h List.not_mem_nil
  | e :: rest, ⟨he, hrest⟩ => List.forall_mem_cons.2 ⟨Expr.lexes e he, Expr.lexes_of_mem rest hrest⟩

theorem Join.attaches_of_mem : ∀ js : List Join, Join.ArePlain js →
    ∀ j ∈ js, Attaches j.sqlText j.lexemes
  | [], _ => fun _ h => absurd h List.not_mem_nil
  | j :: rest, ⟨hj, hrest⟩ =>
    List.forall_mem_cons.2 ⟨Join.attaches j hj, Join.attaches_of_mem rest hrest⟩

theorem SelectItem.lexes_of_mem : ∀ items : List SelectItem, SelectItem.ArePlain items →
    ∀ i ∈ items, Lexes i.sqlText i.lexemes
  | [], _ => fun _ h => absurd h List.not_mem_nil
  | i :: rest, ⟨hi, hrest⟩ =>
    List.forall_mem_cons.2 ⟨SelectItem.lexes i hi, SelectItem.lexes_of_mem rest hrest⟩

theorem OrderItem.lexes_of_mem : ∀ items : List OrderItem, OrderItem.ArePlain items →
    ∀ o ∈ items, Lexes o.sqlText o.lexemes
  | [], _ => fun _ h => absurd h List.not_mem_nil
  | o :: rest, ⟨ho, hrest⟩ =>
    List.forall_mem_cons.2 ⟨OrderItem.lexes o ho, OrderItem.lexes_of_mem rest hrest⟩

theorem Cte.lexes_of_mem : ∀ ctes : List Cte, Cte.ArePlain ctes →
    ∀ c ∈ ctes, Lexes c.sqlText c.lexemes
  | [], _ => fun _ h => absurd h List.not_mem_nil
  | c :: rest, ⟨hc, hrest⟩ =>
    List.forall_mem_cons.2 ⟨Cte.lexes c hc, Cte.lexes_of_mem rest hrest⟩

end

end SqlTree
