import SqlTree.Proofs.Double.Rounding
import SqlTree.Proofs.Storage.Table
import SqlTree.Sql.Text

/-!
# The signs of zeros

Two trees that are the same can differ in one thing only: a zero of one may have the other sign than
the zero in its place. `zeroSigns` are the signs of the zeros among some leaves, in order.

`Agrees ls ms p s t` puts this down for two pieces of trees with leaves `ls` and `ms` and texts `s`
and `t`: both have as many zeros; if the signs are the same then `p` holds, which says that the
pieces are equal, and the texts are equal; if not, the texts share a beginning and then differ. The
templates of SQL keep it, whatever stands around and between the pieces.
-/

namespace SqlTree

open Json Template

/-! ## Texts that differ -/

/-- Two texts that share a beginning and then differ in a character. -/
def Diverge (s t : String) : Prop :=
  ∃ start c d rest rest', c ≠ d ∧ s.toList = start ++ c :: rest ∧ t.toList = start ++ d :: rest'

theorem Diverge.ne {s t : String} (h : Diverge s t) : s ≠ t := by
  obtain ⟨start, c, d, rest, rest', hne, hs, ht⟩ := h
  rintro rfl
  rw [hs, List.append_right_inj, List.cons.injEq] at ht
  exact hne ht.1

theorem Diverge.append {s t : String} (h : Diverge s t) (s' t' : String) :
    Diverge (s ++ s') (t ++ t') := by
  obtain ⟨start, c, d, rest, rest', hne, hs, ht⟩ := h
  exact ⟨start, c, d, rest ++ s'.toList, rest' ++ t'.toList, hne, by simp [hs], by simp [ht]⟩

theorem Diverge.behind {s t : String} (text : String) (h : Diverge s t) :
    Diverge (text ++ s) (text ++ t) := by
  obtain ⟨start, c, d, rest, rest', hne, hs, ht⟩ := h
  exact ⟨text.toList ++ start, c, d, rest, rest', hne, by simp [hs], by simp [ht]⟩

/-! ## Zeros -/

/-- The doubles among some leaves, in order. -/
def doubleValues (ls : List Leaf) : List Double :=
  ls.filterMap fun
    | .constant (.double x) => some x
    | _ => none

@[simp] theorem doubleValues_append (ls ms : List Leaf) :
    doubleValues (ls ++ ms) = doubleValues ls ++ doubleValues ms := List.filterMap_append

/-- Is the sign bit set? Asked of the zeros among some leaves, in order. -/
def zeroSigns (ls : List Leaf) : List Bool :=
  (doubleValues ls).filterMap fun x => if x.rank = 0 then some x.negative else none

@[simp] theorem zeroSigns_append (ls ms : List Leaf) :
    zeroSigns (ls ++ ms) = zeroSigns ls ++ zeroSigns ms := by
  simp [zeroSigns]

/-- The text of a zero shows its sign. -/
theorem Double.sql_zero {x : Double} (hx : x.rank = 0) :
    x.sql = String.ofList (x.signText ++ ['0']) := by
  have hfinite : x.isFinite = true := isFinite_iff.2 (by rw [hx]; decide)
  have hunits : x.units = 0 := by rw [units_eq, hx, magnitude_zero]
  rw [sql, if_pos hfinite, shortest, if_pos hunits]
  rfl

theorem Double.diverge_of_signs_ne {x y : Double} (hx : x.rank = 0) (hy : y.rank = 0)
    (h : x.negative ≠ y.negative) : Diverge x.sql y.sql := by
  rw [sql_zero hx, sql_zero hy, signText, signText]
  cases hsign : x.negative <;> cases hsign' : y.negative
  · exact absurd (hsign.trans hsign'.symm) h
  · exact ⟨[], '0', '-', [], ['0'], by decide, by simp, by simp⟩
  · exact ⟨[], '-', '0', ['0'], [], by decide, by simp, by simp⟩
  · exact absurd (hsign.trans hsign'.symm) h

/-! ## Pieces that agree up to the signs of zeros -/

/-- Pieces of two trees with their leaves and texts: up to the signs of zeros they are equal, as `p`
says, and have one text. -/
structure Agrees (ls ms : List Leaf) (p : Prop) (s t : String) : Prop where
  length : (zeroSigns ls).length = (zeroSigns ms).length
  equal : zeroSigns ls = zeroSigns ms → p ∧ s = t
  diverge : zeroSigns ls ≠ zeroSigns ms → Diverge s t

namespace Agrees

variable {ls ls' ms ms' : List Leaf} {p p' q : Prop} {s s' t t' : String}

theorem refl (hp : p) (ls : List Leaf) (t : String) : Agrees ls ls p t t :=
  ⟨rfl, fun _ => ⟨hp, rfl⟩, fun h => absurd rfl h⟩

theorem imp (h : Agrees ls ms p s t) (hpq : p → q) : Agrees ls ms q s t :=
  ⟨h.length, fun hsigns => (h.equal hsigns).imp_left hpq, h.diverge⟩

/-- Two pieces one after the other. -/
theorem append (h : Agrees ls ms p s t) (h' : Agrees ls' ms' p' s' t') :
    Agrees (ls ++ ls') (ms ++ ms') (p ∧ p') (s ++ s') (t ++ t') where
  length := by
    rw [zeroSigns_append, zeroSigns_append, List.length_append, List.length_append, h.length,
      h'.length]
  equal hsigns := by
    rw [zeroSigns_append, zeroSigns_append] at hsigns
    obtain ⟨hfirst, hsecond⟩ := List.append_inj hsigns h.length
    obtain ⟨hp, rfl⟩ := h.equal hfirst
    obtain ⟨hp', rfl⟩ := h'.equal hsecond
    exact ⟨⟨hp, hp'⟩, rfl⟩
  diverge hsigns := by
    rw [zeroSigns_append, zeroSigns_append] at hsigns
    by_cases hfirst : zeroSigns ls = zeroSigns ms
    · have hsecond : zeroSigns ls' ≠ zeroSigns ms' := fun hsecond =>
        hsigns (by rw [hfirst, hsecond])
      obtain ⟨-, rfl⟩ := h.equal hfirst
      exact (h'.diverge hsecond).behind s
    · exact (h.diverge hfirst).append s' t'

theorem before (text : String) (h : Agrees ls ms p s t) :
    Agrees ls ms p (text ++ s) (text ++ t) :=
  ((refl trivial [] text).append h).imp And.right

theorem behind (h : Agrees ls ms p s t) (text : String) :
    Agrees ls ms p (s ++ text) (t ++ text) := by
  have happend := (h.append (refl trivial [] text)).imp And.left
  rwa [List.append_nil, List.append_nil] at happend

end Agrees

/-! ## Lists and options of pieces -/

section

variable {α : Type} {leaves : α → List Leaf} {text : α → String}

/-- Two things are equal up to the signs of zeros. -/
def Alike (leaves : α → List Leaf) (text : α → String) (a b : α) : Prop :=
  Agrees (leaves a) (leaves b) (a = b) (text a) (text b)

theorem Alike.of_eq {a b : α} (h : a = b) : Alike leaves text a b := by
  subst h
  exact .refl rfl _ _

theorem Agrees.joined (separator : String) {as bs : List α}
    (h : List.Forall₂ (Alike leaves text) as bs) :
    Agrees (as.flatMap leaves) (bs.flatMap leaves) (as = bs) (joined separator (as.map text))
      (Template.joined separator (bs.map text)) := by
  induction h with
  | nil => exact .refl rfl _ _
  | @cons a b as bs hab hrest ih =>
    cases hrest with
    | nil =>
      have hsingle := Agrees.imp hab fun heq => congrArg (fun a => [a]) heq
      simpa [Template.joined] using hsingle
    | cons hcd hrest =>
      exact ((Agrees.behind hab separator).append ih).imp fun h => congrArg₂ List.cons h.1 h.2

theorem Agrees.listClause (opening closing : String) {as bs : List α}
    (h : List.Forall₂ (Alike leaves text) as bs) :
    Agrees (as.flatMap leaves) (bs.flatMap leaves) (as = bs)
      (listClause opening closing (as.map text))
      (Template.listClause opening closing (bs.map text)) := by
  cases h with
  | nil => exact .refl rfl _ _
  | cons hab hrest =>
    exact ((Agrees.joined ", " (.cons hab hrest)).before opening).behind closing

theorem Agrees.optionalClause (keyword : String) {a b : Option α}
    (h : Option.Rel (Alike leaves text) a b) :
    Agrees (a.elim [] leaves) (b.elim [] leaves) (a = b) (optionalClause keyword (a.map text))
      (Template.optionalClause keyword (b.map text)) := by
  cases h with
  | none => exact .refl rfl _ _
  | some hab => exact (hab.before keyword).imp (congrArg some)

end

end SqlTree
