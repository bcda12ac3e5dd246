import SqlTree.Proofs.Sql.Grammar

/-!
# How trees begin and end

What may follow a tree is said by rank (`followers`): the text of a tree ends where something comes
that only ends a larger one. Names and numbers are read back from their lexemes, and an expression
begins with an operand of its own (`Expr.exists_operand`), which shows in its first lexeme.
-/

namespace SqlTree

open Lexeme Reader

/-! ## What may follow a tree -/

/-- What follows trees, from what ends everything to what ends hardly anything. -/
def followers : List (List Lexeme) :=
  [[.mark ')'],
    [.word "OFFSET"],
    [.word "LIMIT"],
    [.word "ORDER"],
    [.word "UNION", .word "EXCEPT", .word "INTERSECT"],
    [.word "HAVING"],
    [.word "GROUP"],
    [.word "WHERE"],
    [.word "FROM"],
    [.mark ',', .word "JOIN", .word "LEFT", .word "RIGHT", .word "FULL", .word "NATURAL",
      .word "CROSS"],
    [.word "ON", .word "USING"],
    [.word "WITH"],
    [.word "AS", .word "ASC", .word "DESC"],
    .word "IN" :: Operator.all.flatMap Operator.lexemes,
    [.mark '(']]

/-- The rank of a lexeme that follows trees, and a larger one for any other. -/
def Lexeme.rank (t : Lexeme) : Nat := followers.findIdx (·.contains t)

/-- Does the lexeme end the trees of rank `n`? These are a query at 0, its limit at 1 and its body
at 3, a select at 4 and its projection at 8, an item or a join at 9, a relation at 10, an expression
at 12, an operand at 13 and a name at 14. -/
def ends (n : Nat) (t : Lexeme) : Bool := decide (t.rank ≤ n)

theorem ends_mono {m n : Nat} (h : m ≤ n) (t : Lexeme) (ht : ends m t = true) : ends n t = true :=
  decide_eq_true (Nat.le_trans (of_decide_eq_true ht) h)

theorem Before.follows {m n : Nat} {ts : List Lexeme} (hts : Before (ends n) ts) (h : m ≤ n)
    (rest : List Lexeme) (hrest : Before (ends m) rest) : Before (ends n) (ts ++ rest) :=
  hts.append (hrest.mono (ends_mono h))

theorem before_clause {stop : Lexeme → Bool} {o : Lexeme} (ho : stop o = true)
    (os closing : List Lexeme) (ls : List (List Lexeme)) :
    Before stop (clause (o :: os) closing ls) := by
  cases ls with
  | nil => exact .nil
  | cons l ls => exact .cons ho _

theorem before_clause? {stop : Lexeme → Bool} {o : Lexeme} (ho : stop o = true) (os : List Lexeme)
    (l : Option (List Lexeme)) : Before stop (clause? (o :: os) l) := by
  cases l with
  | none => exact .nil
  | some l => exact .cons ho _

/-! ## Names -/

/-- Does the lexeme begin like a name? -/
def Lexeme.startsName : Lexeme → Bool
  | .word w => w.toList.head?.any fun c => c.isLower || c == '_'
  | _ => false

theorem Ident.startsName_lexeme {i : Ident} (h : i.IsPlain) : i.lexeme.startsName = true := by
  obtain ⟨text⟩ := i
  have hname : isName text = true := h
  show (text.toList.head?.any fun c => c.isLower || c == '_') = true
  unfold isName at hname
  cases hchars : text.toList with
  | nil => simp [hchars] at hname
  | cons c rest =>
    rw [hchars, Bool.and_eq_true] at hname
    exact hname.1

theorem Ident.ne_star {i : Ident} (h : i.IsPlain) : i.text ≠ "*" := by
  intro hstar
  have hstarts := Ident.startsName_lexeme h
  rw [Ident.lexeme, hstar] at hstarts
  exact absurd hstarts (by decide)

theorem Ident.reads (i : Ident) {stop : Lexeme → Bool} : Reads Ident.reader [i.lexeme] i stop :=
  fun _ _ => rfl

theorem Ident.reads_dotted : ∀ (names : List Ident), names ≠ [] →
    Reads Ident.dottedReader (Ident.dotted names) names (· != .mark '.')
  | [], h => absurd rfl h
  | [i], _ => by
    intro rest hrest
    show Ident.dottedReader (.word i.text :: rest) = some ([i], rest)
    rw [Ident.dottedReader]
    rintro rest' rfl
    have hpoint := hrest _ rfl
    cases hpoint
  | i :: j :: names, _ => by
    intro rest hrest
    have hnames := Ident.reads_dotted (j :: names) (List.cons_ne_nil _ _) rest hrest
    show Ident.dottedReader (.word i.text :: .mark '.' :: (Ident.dotted (j :: names) ++ rest)) = _
    rw [Ident.dottedReader, hnames]
    rfl

/-- A star behind names is seen. -/
theorem Ident.reads_starred {stop : Lexeme → Bool} : ∀ (names : List Ident), names ≠ [] →
    (∀ i ∈ names, i.IsPlain) →
      Reads Ident.starredReader (Ident.dotted names ++ [.mark '.', .word "*"]) names stop
  | [], h, _ => absurd rfl h
  | [i], _, _ => fun _ _ => rfl
  | i :: j :: names, _, hplain => by
    intro rest hrest
    have hne := Ident.ne_star (hplain j (by simp))
    have hnames := Ident.reads_starred (j :: names) (List.cons_ne_nil _ _)
      (fun i hi => hplain i (List.mem_cons_of_mem _ hi)) rest hrest
    show Ident.starredReader (.word i.text :: .mark '.' :: .word j.text :: _) = _
    rw [Ident.starredReader, if_neg hne]
    exact congrArg (Option.map _) hnames

/-- No star is seen where no point follows. -/
theorem Ident.starred_cons (t : Lexeme) {ts : List Lexeme} (h : Before (· != .mark '.') ts) :
    Ident.starredReader (t :: ts) = none := by
  unfold Ident.starredReader
  split
  · next heq =>
    cases heq
    have hpoint := h _ rfl
    cases hpoint
  · rfl

/-- No star is seen behind names that something else follows. -/
theorem Ident.starred_dotted : ∀ (names : List Ident), names ≠ [] → (∀ i ∈ names, i.IsPlain) →
    ∀ {rest : List Lexeme}, Before (· != .mark '.') rest →
      Ident.starredReader (Ident.dotted names ++ rest) = none
  | [], h, _, _, _ => absurd rfl h
  | [i], _, _, _, hrest => Ident.starred_cons i.lexeme hrest
  | i :: j :: names, _, hplain, rest, hrest => by
    have hnames := Ident.starred_dotted (j :: names) (List.cons_ne_nil _ _)
      (fun i hi => hplain i (List.mem_cons_of_mem _ hi)) hrest
    have hne := Ident.ne_star (hplain j (by simp))
    show Ident.starredReader (.word i.text :: .mark '.' :: .word j.text :: _) = _
    rw [Ident.starredReader, if_neg hne]
    exact congrArg (Option.map _) hnames

/-- What ends a name ends it before a point. -/
theorem ne_point_of_ends {t : Lexeme} (h : ends 14 t = true) : (t != .mark '.') = true := by
  rw [bne_iff_ne]
  rintro rfl
  exact absurd h (by decide)

theorem QualifiedName.reads (n : QualifiedName) :
    Reads (Ident.dottedReader >>= QualifiedName.ofNames) n.lexemes n (ends 14) := by
  have hnames := (Ident.reads_dotted n.parts (List.cons_ne_nil _ _)).bind
    (f := QualifiedName.ofNames) (Reads.pure n) fun _ hrest => hrest
  rw [List.append_nil] at hnames
  exact hnames.mono fun _ => ne_point_of_ends

/-! ## Numbers -/

theorem startsNumber_toString (n : Int) : startsNumber (toString n) = true := by
  have hdigit (k : Nat) :
      (Nat.toDigits 10 k).head?.any (fun c => c.isDigit || c == '-') = true := by
    cases hds : Nat.toDigits 10 k with
    | nil => exact absurd hds Nat.toDigits_ne_nil
    | cons d ds =>
      have hd : d.isDigit = true := Json.Numeral.isDigit_of_mem (n := k) (by simp [hds])
      simp [hd]
  cases n with
  | ofNat k =>
    rw [Int.ofNat_eq_natCast, startsNumber, Json.Numeral.toList_toString_natCast]
    exact hdigit k
  | negSucc k =>
    rw [startsNumber, Json.Numeral.toList_toString_negSucc]
    rfl

theorem numberOf_toString (n : Int64) : numberOf (toString n.toInt) = some n := by
  have hmin := n.le_toInt
  have hmax := n.toInt_lt
  rw [numberOf, Json.Numeral.integer?_ofText_toString (by omega) (by omega), Option.map_some,
    Int64.ofInt_toInt]

/-- A number does not begin like a name. -/
theorem not_startsNumber {w : String} (h : (Lexeme.word w).startsName = true) :
    startsNumber w = false := by
  have hname : (w.toList.head?.any fun c => c.isLower || c == '_') = true := h
  unfold startsNumber
  cases hchars : w.toList with
  | nil => rfl
  | cons c rest =>
    rw [hchars] at hname
    have hc : c.isLower = true ∨ c = '_' := by simpa using hname
    have hdigit : c.isDigit = false := by
      rcases hc with hlower | rfl
      · have ha : 97 ≤ c.toNat :=
          UInt32.le_iff_toNat_le.1 (of_decide_eq_true (Bool.and_eq_true_iff.1 hlower).1)
        rw [Bool.eq_false_iff]
        intro hdigit
        have hnine : c.toNat ≤ 57 := (Char.isDigit_iff_toNat.1 hdigit).2
        omega
      · rfl
    have hminus : c ≠ '-' := by
      rintro rfl
      simp at hc
    simp [hdigit, hminus]

/-! ## How expressions begin -/

/-- Is the lexeme an operand on its own, or the beginning of a name? -/
def Lexeme.isLeaf : Lexeme → Bool
  | .literal _ => true
  | .word w => startsNumber w || (Lexeme.word w).startsName
  | .mark _ => false

/-- Can a plain expression begin with the lexeme? -/
def Lexeme.opensExpr (t : Lexeme) : Bool := t != .word "DISTINCT" && t != .mark ')'

theorem Lexeme.opensExpr_of_isLeaf {t : Lexeme} (h : t.isLeaf = true) : t.opensExpr = true := by
  rw [opensExpr, Bool.and_eq_true, bne_iff_ne, bne_iff_ne]
  refine ⟨?_, ?_⟩
  · rintro rfl
    exact absurd h (by decide)
  · rintro rfl
    exact absurd h (by decide)

theorem Ident.isLeaf_lexeme {i : Ident} (h : i.IsPlain) : i.lexeme.isLeaf = true := by
  show (startsNumber i.text || i.lexeme.startsName) = true
  rw [startsName_lexeme h, Bool.or_true]

theorem isLeaf_number (n : Int64) : (Constant.long n).lexeme.isLeaf = true := by
  show (startsNumber (toString n.toInt) || _) = true
  rw [startsNumber_toString, Bool.true_or]

theorem Operator.opens (o : Operator) : Opens (ends 13) o.lexemes := by
  cases o <;> rfl

theorem inLexemes_opens (negated : Bool) : Opens (ends 13) (inLexemes negated) := by
  cases negated <;> rfl

/-- The operand that an expression begins with. -/
theorem Expr.exists_operand : ∀ e : Expr, e.IsPlain → ∃ (o : Expr) (us : List Lexeme),
    o.IsPlain ∧ o.isChain = false ∧ Before (ends 13) us ∧ e.lexemes = o.lexemes ++ us
  | .binary ⟨left, operator, right⟩, h => by
    obtain ⟨o, us, ho, hchain, hus, heq⟩ := Expr.exists_operand left h.1
    refine ⟨o, us ++ (operator.lexemes ++ right.lexemes), ho, hchain,
      hus.append (operator.opens.append _).before, ?_⟩
    rw [← List.append_assoc, ← heq]
    rfl
  | .inSubquery operand subquery negated, h => by
    obtain ⟨o, us, ho, hchain, hus, heq⟩ := Expr.exists_operand operand h.1
    refine ⟨o, us ++ (inLexemes negated ++ (subquery.lexemes ++ [.mark ')'])), ho, hchain,
      hus.append ((inLexemes_opens negated).append _).before, ?_⟩
    rw [← List.append_assoc, ← heq]
    rfl
  | .identifier _, h | .compound _, h | .wildcard, h | .constant _, h | .call _, h | .nested _, h
  | .existence .., h => ⟨_, [], h, rfl, .nil, (List.append_nil _).symm⟩

theorem QualifiedName.IsPlain.first {n : QualifiedName} (h : n.IsPlain) : n.first.IsPlain :=
  h n.first List.mem_cons_self

/-- A name shows in its first lexeme. -/
theorem QualifiedName.opens {n : QualifiedName} (h : n.IsPlain) : Opens isLeaf n.lexemes :=
  Ident.isLeaf_lexeme h.first

/-- What an expression begins with. -/
theorem Expr.opens {e : Expr} (h : e.IsPlain) : Opens opensExpr e.lexemes := by
  obtain ⟨o, us, ho, hchain, -, heq⟩ := Expr.exists_operand e h
  have hleaf {ts : List Lexeme} (hts : Opens isLeaf ts) : Opens opensExpr ts :=
    hts.mono fun _ => opensExpr_of_isLeaf
  rw [heq]
  refine Opens.append ?_ us
  cases o with
  | identifier name => exact hleaf (Ident.isLeaf_lexeme ho)
  | compound parts =>
    obtain ⟨hlen, hparts⟩ := ho
    cases parts with
    | nil => cases hlen
    | cons first rest => exact hleaf (Ident.isLeaf_lexeme (hparts first List.mem_cons_self))
  | wildcard => rfl
  | constant value =>
    cases value with
    | long n => exact hleaf (isLeaf_number n)
    | double x => exact ho.elim
    | text s => rfl
    | boolean b => cases b <;> rfl
    | null => rfl
  | call c =>
    obtain ⟨name, args⟩ := c
    exact (hleaf (QualifiedName.opens ho.1)).append _
  | nested inner => rfl
  | existence subquery negated => cases negated <;> rfl
  | binary o => cases hchain
  | inSubquery operand subquery negated => cases hchain
  | raw sql => exact ho.elim

/-- An expression is not taken for names before a star. -/
theorem Expr.starred {e : Expr} (h : e.IsPlain) {rest : List Lexeme}
    (hrest : Before (· != .mark '.') rest) : Ident.starredReader (e.lexemes ++ rest) = none := by
  obtain ⟨o, us, ho, hchain, hus, heq⟩ := Expr.exists_operand e h
  have hbefore : Before (· != .mark '.') (us ++ rest) :=
    (hus.mono fun t ht => ne_point_of_ends (ends_mono (by omega) t ht)).append hrest
  rw [heq, List.append_assoc]
  cases o with
  | identifier name => exact Ident.starred_cons _ hbefore
  | compound parts =>
    refine Ident.starred_dotted parts ?_ ho.2 hbefore
    rintro rfl
    cases ho.1
  | wildcard => exact Ident.starred_cons _ hbefore
  | constant value => exact Ident.starred_cons _ hbefore
  | call c =>
    obtain ⟨name, args⟩ := c
    rw [Expr.lexemes, Call.lexemes, List.append_assoc]
    exact Ident.starred_dotted name.parts (List.cons_ne_nil _ _) ho.1 (.cons (by decide) _)
  | nested inner => rfl
  | existence subquery negated => cases negated <;> rfl
  | binary o => cases hchain
  | inSubquery operand subquery negated => cases hchain
  | raw sql => exact ho.elim

/-! ## How other trees begin -/

/-- A join begins with a keyword or a comma. -/
theorem Join.opens (j : Join) : Opens (ends 9) j.lexemes := by
  have hlead (c : JoinCondition) {ks : List Lexeme} (hks : Opens (ends 9) ks) (ts : List Lexeme) :
      Opens (ends 9) (c.adverbLexemes ++ ks ++ ts) := by
    cases c with
    | natural => rfl
    | _ => exact hks.append ts
  obtain ⟨relation, kind⟩ := j
  cases kind with
  | inner c => exact hlead c (by rfl) _
  | left c => exact hlead c (by rfl) _
  | right c => exact hlead c (by rfl) _
  | full c => exact hlead c (by rfl) _
  | cross => rfl
  | comma => rfl

theorem SelectItem.opens {i : SelectItem} (h : i.IsPlain) : Opens opensExpr i.lexemes := by
  cases i with
  | expr e => exact Expr.opens h.1
  | aliased e aliasName => exact (Expr.opens h.1).append _
  | qualifiedWildcard qualifier =>
    exact ((QualifiedName.opens h).mono fun _ => opensExpr_of_isLeaf).append _
  | wildcard => rfl

theorem Projection.opens : ∀ {p : Projection}, p.IsPlain → Opens opensExpr p.lexemes
  | ⟨_, _⟩, h => (SelectItem.opens h.1).append _

/-- Can the body of a query begin with the lexeme? -/
def Lexeme.opensBody (t : Lexeme) : Bool := t == .mark '(' || t == .word "SELECT"

theorem Body.opens : ∀ b : Body, Opens opensBody b.lexemes
  | .select ⟨_, _, _, _, _, _⟩ => by rfl
  | .query _ => by rfl
  | .operation _ _ left _ => (Body.opens left).append _

end SqlTree
