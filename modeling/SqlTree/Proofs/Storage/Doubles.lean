import SqlTree.Proofs.Double.Reading
import SqlTree.Proofs.Json.Unique
import SqlTree.Proofs.Sql.Same
import SqlTree.Proofs.Storage.RoundTrip

/-!
# Doubles in stored trees

A finite double that is stored as a constant is always read back, with its sign, but not always
bit for bit: the reader of numerals rounds more than once, and may end up to three ranks away
(`Double.exists_read_stored`). `2 ^ 53 - 1` is read back as its lower neighbour
(`Double.read_stored_ne`). Doubles that are shown plainly do survive, so queries whose doubles are
all of that kind come back from their texts (`Query.ofJson_toJson_of_isPlain`).
-/

namespace SqlTree

open Json

/-- A stored double is read as its token is. -/
theorem Kind.read_stored_double (x : Double) :
    Kind.constant.read (Kind.constant.stored (.double x))
      = (Layout.double.token x.token).map Constant.double := by
  have hname : Variant.find Constant.variants "Double" = .ok ⟨"Double", .value .double .double⟩ :=
    rfl
  have hdocument : Kind.constant.document (.double x) = .tagged "Double" (.double x) := rfl
  rw [Kind.read_stored, hdocument, Document.part_tagged]
  exact (Part.read_tagged hname maxDepth _).trans (Part.read_map _ _ _ _)

namespace Double

/-- The token of a finite double is read as its text is. -/
theorem token_stored {x y : Double} (hx : x.isFinite = true)
    (h : (Numeral.ofText x.stored.toList).value = .ok (.double y)) :
    Layout.double.token x.token = .ok y := by
  rw [token_of_isFinite hx]
  show (Numeral.ofText x.stored.toList).value.map Number.toDouble = .ok y
  rw [h]
  rfl

/-- **What is read back of a stored double**: a finite double with the same sign, three ranks away
at most, and the double itself if it is shown plainly. -/
theorem exists_read_stored (x : Double) (hx : x.isFinite = true) :
    ∃ y : Double, Kind.constant.read (Kind.constant.stored (.double x)) = .ok (.double y) ∧
      y.isFinite = true ∧ y.negative = x.negative ∧ y.rank ≤ x.rank + 3 ∧ x.rank ≤ y.rank + 3 ∧
      (x.IsPlain → y = x) := by
  obtain ⟨s, hs, hvalue, hle, hge⟩ := exists_value_stored hx
  have hlt := hs.trans infiniteRank_lt
  refine ⟨ofRank x.negative s, ?read, ?finite, negative_ofRank hlt, ?above, ?below, ?plain⟩
  case read => rw [Kind.read_stored_double, token_stored hx hvalue]; rfl
  case finite => rwa [isFinite_iff, rank_ofRank hlt]
  case above => rwa [rank_ofRank hlt]
  case below => rwa [rank_ofRank hlt]
  case plain =>
    intro hplain
    have hsame := hvalue.symm.trans (value_stored_of_isPlain hx hplain)
    simpa using hsame

/-- The double nearest to a tenth is shown plainly. -/
theorem exists_read_stored_tenth : (⟨0x3fb999999999999a⟩ : Double).isFinite = true ∧
    ∃ y : Double, Kind.constant.read (Kind.constant.stored (.double ⟨0x3fb999999999999a⟩))
        = .ok (.double y) ∧ y = ⟨0x3fb999999999999a⟩ := by
  have hplain : (⟨0x3fb999999999999a⟩ : Double).IsPlain :=
    isPlain_of_le (by decide +kernel) (by decide +kernel)
  obtain ⟨y, hread, -, -, -, -, hsame⟩ := exists_read_stored ⟨0x3fb999999999999a⟩ (by decide)
  exact ⟨by decide, y, hread, hsame hplain⟩

/-- **Not every finite double survives**: `2 ^ 53 - 1` is stored with a zero behind its point, which
makes the significand too long for a double, and is read back as its lower neighbour. So a query
that selects it does not come back either. -/
theorem read_stored_ne :
    Kind.constant.stored (.double ⟨0x433fffffffffffff⟩)
        = "\x7b\"Double\":9007199254740991.0\x7d" ∧
      Kind.constant.read (Kind.constant.stored (.double ⟨0x433fffffffffffff⟩))
        = .ok (.double ⟨0x433ffffffffffffe⟩) ∧
      (¬ ∀ x : Double, x.isFinite = true →
        Kind.constant.read (Kind.constant.stored (.double x)) = .ok (.double x)) ∧
      ¬ ∀ q : Query, bracketDepth q.toJson ≤ 127 →
        (∀ x, Leaf.constant (.double x) ∈ q.leaves → x.isFinite = true) →
        (Query.ofJson q.toJson).value = .ok q := by
  have hread : Kind.constant.read (Kind.constant.stored (.double ⟨0x433fffffffffffff⟩))
      = .ok (.double ⟨0x433ffffffffffffe⟩) := by decide +kernel
  have hne : ¬ (⟨0x433fffffffffffff⟩ : Double).Survives := by
    unfold Survives
    rw [hread]
    decide
  refine ⟨by decide +kernel, hread, fun hall => hne (hall _ (by decide)), fun hall => ?_⟩
  have hleaves : (Query.ofDouble ⟨0x433fffffffffffff⟩).leaves
      = [.constant (.double ⟨0x433fffffffffffff⟩)] := rfl
  have hdepth : bracketDepth (Query.ofDouble ⟨0x433fffffffffffff⟩).toJson ≤ 127 := by
    rw [Query.toJson, Kind.stored, bracketDepth_print]
    decide
  have hvalue := hall (.ofDouble ⟨0x433fffffffffffff⟩) hdepth fun x hx => by
    rw [hleaves] at hx
    cases List.mem_singleton.1 hx
    decide
  have hsurvive := ((Kind.read_stored_eq_ok_iff (Query.keeps _)).1
    (Query.value_ofJson_eq_ok_iff.1 hvalue)).2
  exact hne (hsurvive _ (List.mem_singleton.2 rfl))

/-- A double that is shown plainly survives. -/
theorem survives_of_isPlain {x : Double} (hx : x.isFinite = true) (h : x.IsPlain) : x.Survives :=
  x.survives_iff.2 (token_stored hx (value_stored_of_isPlain hx h))

end Double

/-- **A query whose doubles are shown plainly comes back from its text**, if that is not nested too
deep. -/
theorem Query.ofJson_toJson_of_isPlain {q : Query} (hdepth : bracketDepth q.toJson ≤ 127)
    (h : ∀ x, Leaf.constant (.double x) ∈ q.leaves → x.isFinite = true ∧ x.IsPlain) :
    (Query.ofJson q.toJson).value = .ok q := by
  have hsurvive : Survive q.leaves := by
    intro x hx
    obtain ⟨hfinite, hplain⟩ := h x hx
    exact Double.survives_of_isPlain hfinite hplain
  exact Query.value_ofJson_eq_ok_iff.2
    ((Kind.read_stored_eq_ok_iff (Query.keeps q)).2 ⟨hdepth, hsurvive⟩)

end SqlTree
