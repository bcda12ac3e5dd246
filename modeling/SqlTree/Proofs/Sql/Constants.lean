import SqlTree.Proofs.Double.Positional
import SqlTree.Proofs.Json.Unique
import SqlTree.Proofs.Sql.Compositional
import SqlTree.Proofs.Sql.Lexing
import SqlTree.Proofs.Sql.Same

/-!
# The SQL of constants

The literal of a finite double is a positional number that denotes it (`Constant.toSql_finite`), so
two finite doubles have different literals. So have two constants of different looks, since the
first character tells a number, a quoted text and a word apart (`Constant.form_head`). Only the type
of a number is lost: a double whose shortest decimal is an integer is written as that integer
(`Constant.Coincides`), and this is the one way in which two constants come to the same text, alone
or in place of each other inside a query (`Constant.toSql_eq_iff`).
-/

namespace SqlTree

namespace Constant

open Json.Numeral Template

theorem value_toSql (c : Constant) : (toSql c).value = c.sqlText := by
  show (c.write {}).sql = _
  simp [write_eq]

/-! ## Doubles -/

theorem finite_eq_error_iff {x : Double} :
    finite x = .error (.nonFiniteDouble x) ↔ x.exponentBits = 2 ^ 11 - 1 := by
  rw [← Double.isFinite_eq_false_iff, finite]
  cases x.isFinite <;> simp

/-- **The literal of a double denotes it.** A double has a constant unless it is infinite or no
number, and the SQL of its constant is a literal of this double and of no other. -/
theorem toSql_finite (x : Double) :
    (finite x = .error (.nonFiniteDouble x) ↔ x.exponentBits = 2 ^ 11 - 1) ∧
    (x.exponentBits ≠ 2 ^ 11 - 1 → finite x = .ok (.double x) ∧
      x.IsLiteral (toSql (Constant.double x)).value.toList ∧
      ∀ y : Double, y.exponentBits ≠ 2 ^ 11 - 1 →
        (toSql (Constant.double y)).value = (toSql (Constant.double x)).value → y = x) := by
  refine ⟨finite_eq_error_iff, fun hbits => ?_⟩
  have hliteral (y : Double) (hy : y.exponentBits ≠ 2 ^ 11 - 1) :
      y.isFinite = true ∧ y.IsLiteral (toSql (Constant.double y)).value.toList := by
    rw [Ne, ← Double.isFinite_eq_false_iff, Bool.not_eq_false] at hy
    rw [value_toSql]
    exact ⟨hy, Double.isLiteral_sql hy⟩
  obtain ⟨hfinite, hx⟩ := hliteral x hbits
  refine ⟨by rw [finite, if_pos hfinite], hx, fun y hy h => ?_⟩
  exact (h ▸ (hliteral y hy).2).unique hx

/-- `-2 ^ -25` lies halfway between two decimals of seventeen digits, of which SQL takes the
larger. -/
theorem toSql_finite_half : (⟨0xbe60000000000000⟩ : Double).exponentBits ≠ 2 ^ 11 - 1 ∧
    finite ⟨0xbe60000000000000⟩ = .ok (.double ⟨0xbe60000000000000⟩) ∧
    (toSql (Constant.double ⟨0xbe60000000000000⟩)).value = "-0.000000029802322387695313" ∧
    (⟨0xbe60000000000000⟩ : Double).IsLiteral "-0.000000029802322387695313".toList := by
  have htext : (toSql (Constant.double ⟨0xbe60000000000000⟩)).value
      = "-0.000000029802322387695313" := by decide +kernel
  have hbits : (⟨0xbe60000000000000⟩ : Double).exponentBits ≠ 2 ^ 11 - 1 := by decide
  obtain ⟨hfinite, hliteral, -⟩ := (toSql_finite ⟨0xbe60000000000000⟩).2 hbits
  exact ⟨hbits, hfinite, htext, htext ▸ hliteral⟩

/-! ## The first character -/

/-- Is the double of a constant finite, if it has one? -/
def IsFinite : Constant → Prop
  | .double x => x.isFinite = true
  | _ => True

/-- What the SQL of a constant looks like. -/
inductive Form where
  | number
  | text
  | word
  deriving DecidableEq

def form : Constant → Form
  | .long _ | .double _ => .number
  | .text _ => .text
  | .boolean _ | .null => .word

/-- The form of what begins with this character. -/
def Form.ofHead (c : Char) : Form :=
  if c = '\x27' then .text else if c = '-' ∨ c.isDigit = true then .number else .word

theorem Form.ofHead_digit {c : Char} (h : c.isDigit = true) : Form.ofHead c = .number := by
  have hquote : c ≠ '\x27' := by
    rintro rfl
    exact absurd h (by decide)
  rw [ofHead, if_neg hquote, if_pos (.inr h)]

/-- The SQL of a constant shows its form at once. -/
theorem form_head {c : Constant} (hc : c.IsFinite) :
    c.sqlText.toList.head?.map Form.ofHead = some c.form := by
  cases c with
  | long n =>
    show (toString n.toInt).toList.head?.map Form.ofHead = some .number
    cases n.toInt with
    | ofNat n =>
      obtain ⟨d, rest, hdigits⟩ :=
        List.exists_cons_of_ne_nil (Nat.toDigits_ne_nil (b := 10) (n := n))
      rw [Int.ofNat_eq_natCast, toList_toString_natCast, hdigits]
      exact congrArg some (Form.ofHead_digit (isDigit_of_mem (hdigits ▸ List.mem_cons_self)))
    | negSucc n =>
      rw [toList_toString_negSucc]
      rfl
  | double x =>
    obtain ⟨number, htext, hnumber⟩ := (Double.isLiteral_sql hc).form
    obtain ⟨d, rest, rfl, hd⟩ := hnumber.exists_digit
    show x.sql.toList.head?.map Form.ofHead = some .number
    rw [htext]
    split
    · rfl
    · exact congrArg some (Form.ofHead_digit hd)
  | text s =>
    show (quoted s).toList.head?.map Form.ofHead = some .text
    rw [quoted, String.toList_append, String.toList_append]
    rfl
  | boolean b => cases b <;> rfl
  | null => rfl

theorem form_eq {v w : Constant} (hv : v.IsFinite) (hw : w.IsFinite) (h : v.sqlText = w.sqlText) :
    v.form = w.form := by
  have hform := form_head hv
  rw [h, form_head hw, Option.some.injEq] at hform
  exact hform.symm

/-! ## Different constants -/

theorem quoted_injective : Function.Injective quoted := by
  intro s t h
  have hlex := (lexes_quoted s).lex_eq
  rw [h, (lexes_quoted t).lex_eq] at hlex
  simpa using hlex.symm

/-- Is an integer written as a double is? That is so if it is the shortest decimal of the double and
has its sign. -/
def Coincides : Constant → Constant → Prop
  | .long n, .double x =>
    x.negative = decide (n.toInt < 0) ∧ (x.shortest .up).value = n.toInt.natAbs
  | _, _ => False

/-- Constants with the same SQL are equal or coincide. -/
theorem eq_or_coincides {v w : Constant} (hv : v.IsFinite) (hw : w.IsFinite)
    (h : v.sqlText = w.sqlText) : v = w ∨ v.Coincides w ∨ w.Coincides v := by
  have hform := form_eq hv hw h
  cases v with
  | long m =>
    cases w with
    | long n => exact .inl (congrArg long (Int64.toInt_inj.1 (Json.Document.toString_injective h)))
    | double x => exact .inr (.inl ((Double.sql_eq_toString_iff hw _).1 h.symm))
    | _ => cases hform
  | double x =>
    cases w with
    | long n => exact .inr (.inr ((Double.sql_eq_toString_iff hv _).1 h))
    | double y =>
      have htext : x.sql = y.sql := h
      have hy : y.IsLiteral x.sql.toList := htext ▸ Double.isLiteral_sql hw
      exact .inl (congrArg double ((Double.isLiteral_sql hv).unique hy))
    | _ => cases hform
  | text s =>
    cases w with
    | text t => exact .inl (congrArg text (quoted_injective h))
    | _ => cases hform
  | boolean a =>
    cases w with
    | boolean b => cases a <;> cases b <;> first | exact .inl rfl | exact absurd h (by decide)
    | null => exact absurd h (by cases a <;> decide)
    | _ => cases hform
  | null =>
    cases w with
    | boolean b => exact absurd h (by cases b <;> decide)
    | null => exact .inl rfl
    | _ => cases hform

theorem Coincides.sqlText_eq {v w : Constant} (h : v.Coincides w) (hw : w.IsFinite) :
    v.sqlText = w.sqlText := by
  cases v with
  | long n =>
    cases w with
    | double x => exact ((Double.sql_eq_toString_iff hw _).2 h).symm
    | _ => cases h
  | _ => cases h

theorem sqlText_eq_iff {v w : Constant} (hv : v.IsFinite) (hw : w.IsFinite) :
    v.sqlText = w.sqlText ↔ v = w ∨ v.Coincides w ∨ w.Coincides v := by
  refine ⟨eq_or_coincides hv hw, ?_⟩
  rintro (rfl | h | h)
  · rfl
  · exact h.sqlText_eq hw
  · exact (h.sqlText_eq hv).symm

/-- **Different constants have different SQL**, unless an integer is the shortest decimal of a
double of the same sign. That decides also whether two queries that differ in one constant have
different SQL. -/
theorem toSql_eq_iff {v w : Constant} (hv : v.IsFinite) (hw : w.IsFinite) :
    ((toSql v).value = (toSql w).value ↔ v = w ∨ v.Coincides w ∨ w.Coincides v) ∧
    ∀ K : Context .constant .query,
      ((toSql (K.fill v : Query)).value = (toSql (K.fill w : Query)).value ↔
        v = w ∨ v.Coincides w ∨ w.Coincides v) := by
  constructor
  · rw [value_toSql, value_toSql]
    exact sqlText_eq_iff hv hw
  · intro K
    obtain ⟨start, stop, hwraps⟩ := K.wraps
    rw [Query.value_toSql, Query.value_toSql, ← sqlText_eq_iff hv hw]
    have hfill (c : Constant) : (K.fill c : Query).sqlText = start ++ c.sqlText ++ stop := hwraps c
    rw [hfill, hfill, String.append_left_inj, String.append_right_inj]

/-- The query that selects what is in the hole. -/
def selecting : Context .constant .query :=
  .within (.body (.ofBody (.select (.ofProjection (.single .wildcard)))))
    (.within .selectBody (.within (.projection (.ofProjection (.single .wildcard)) [] [])
      (.within .item (.within .constant .here))))

/-- The double `2 ^ 62` is written with nineteen digits of which sixteen are its own. So it has the
text of another integer than `2 ^ 62`. -/
theorem toSql_eq_iff_two_pow : (double ⟨0x43d0000000000000⟩).IsFinite ∧
    (toSql (long 4611686018427387904)).value ≠ (toSql (double ⟨0x43d0000000000000⟩)).value ∧
    (long 4611686018427388000).Coincides (double ⟨0x43d0000000000000⟩) ∧
    (toSql (Query.ofExpr (.constant (long 4611686018427388000)))).value
      = (toSql (Query.ofDouble ⟨0x43d0000000000000⟩)).value := by
  have hfinite : (double ⟨0x43d0000000000000⟩).IsFinite := by
    unfold IsFinite
    decide
  have hshortest : (⟨0x43d0000000000000⟩ : Double).shortest .up = ⟨4611686018427388, 3⟩ := by
    decide +kernel
  have hvalue : ((⟨0x43d0000000000000⟩ : Double).shortest .up).value
      = (4611686018427388000 : ℕ) := by
    rw [hshortest]
    norm_num [Decimal.value]
  have hcoincides : (long 4611686018427388000).Coincides (double ⟨0x43d0000000000000⟩) := by
    have habs : (4611686018427388000 : Int64).toInt.natAbs = 4611686018427388000 := by decide
    refine ⟨by decide, ?_⟩
    rw [hvalue, habs]
  have hlong (n : Int64) : (long n).IsFinite := trivial
  refine ⟨hfinite, fun h => ?_, hcoincides,
    ((toSql_eq_iff (hlong _) hfinite).2 selecting).2 (.inr (.inl hcoincides))⟩
  rcases (toSql_eq_iff (hlong _) hfinite).1.1 h with heq | ⟨-, hother⟩ | hnone
  · cases heq
  · have habs : (4611686018427387904 : Int64).toInt.natAbs = 4611686018427387904 := by decide
    rw [hvalue, habs, Nat.cast_inj] at hother
    exact absurd hother (by decide)
  · exact hnone

/-- **An integer and a double can be written alike**: `1` and `1.0` have the same SQL, and queries
that select them have the same SQL and the same fingerprint. -/
theorem toSql_long_eq_toSql_double :
    (toSql (long 1)).value = "1" ∧ (toSql (double ⟨0x3ff0000000000000⟩)).value = "1" ∧
    (Query.ofExpr (.constant (long 1))).fingerprint.value
      = (Query.ofDouble ⟨0x3ff0000000000000⟩).fingerprint.value ∧
    ¬ ∀ v w : Constant, v.IsFinite → w.IsFinite → (toSql v).value = (toSql w).value → v = w := by
  have hlong : (toSql (long 1)).value = "1" := by decide +kernel
  have hdouble : (toSql (double ⟨0x3ff0000000000000⟩)).value = "1" := by decide +kernel
  have hfinite : (double ⟨0x3ff0000000000000⟩).IsFinite := by
    unfold IsFinite
    decide
  refine ⟨hlong, hdouble, ?_, fun h => ?_⟩
  · have hsql : (Query.ofExpr (.constant (long 1))).sqlText
        = (Query.ofDouble ⟨0x3ff0000000000000⟩).sqlText := by decide +kernel
    show Digest.ofText (toSql (Query.ofExpr (.constant (long 1)))).value
      = Digest.ofText (toSql (Query.ofDouble ⟨0x3ff0000000000000⟩)).value
    rw [Query.value_toSql, Query.value_toSql, hsql]
  · cases h (long 1) _ trivial hfinite (hlong.trans hdouble.symm)

end Constant

end SqlTree
