import Mathlib
import SqlTree.Proofs.Storage.Hereditary

/-!
# Nothing is read that is nested deeper than its text

Among the documents that a value can be read from, the one that it is stored as is nested the least:
to fit into so many brackets is a hereditary property of documents. So with a limit on open brackets
nothing is read whose own document exceeds the limit (`Kind.depth_le_of_read`), and what was read
once is read again.
-/

namespace SqlTree

open Json

/-! ## Depth -/

/-- How deep the document of a value is. -/
def Kind.depth (kind : Kind) (value : kind.Carrier) : Nat := (kind.document value).depth

namespace Json.Document

theorem itemsDepth_le {n : Nat} {ds : List Document} (h : ∀ d ∈ ds, d.depth ≤ n) :
    itemsDepth ds ≤ n := by
  induction ds with
  | nil => exact Nat.zero_le n
  | cons d ds ih =>
    obtain ⟨hd, hds⟩ := List.forall_mem_cons.1 h
    exact Nat.max_le.2 ⟨hd, ih hds⟩

theorem membersDepth_le {n : Nat} {ms : List (String × Document)} (h : ∀ m ∈ ms, m.2.depth ≤ n) :
    membersDepth ms ≤ n := by
  induction ms with
  | nil => exact Nat.zero_le n
  | cons m ms ih =>
    obtain ⟨hm, hms⟩ := List.forall_mem_cons.1 h
    exact Nat.max_le.2 ⟨hm, ih hms⟩

/-- A list or an object needs one bracket more than what is in it. -/
theorem hereditary_depth : Hereditary fun n d => d.depth ≤ n where
  null := Nat.zero_le
  boolean n _ := Nat.zero_le n
  integer n _ := Nat.zero_le n
  double n _ _ := Nat.zero_le n
  text n _ := Nat.zero_le n
  list h := Nat.succ_le_succ (itemsDepth_le h)
  object h := Nat.succ_le_succ (membersDepth_le h)

end Json.Document

/-! ## Texts -/

/-- Whatever a text is read as has a document within the limit. -/
theorem Kind.depth_le_of_read {kind : Kind} {text : String} {value : kind.Carrier}
    (h : kind.read text = .ok value) : kind.depth value ≤ maxDepth :=
  Kind.holds_of_read Document.hereditary_depth h

/-- **What was accepted once is accepted again.** Whatever the spelling of a text that is read as a
query without doubles, the query is read back from the text that it is stored as: no spelling is
nested less deep. -/
theorem Query.ofJson_toJson_of_ofJson {text : String} {q : Query}
    (h : (Query.ofJson text).value = .ok q)
    (hdoubles : ∀ x, Leaf.constant (.double x) ∉ q.leaves) :
    (Query.ofJson q.toJson).value = .ok q := by
  have hread : Kind.query.read text = .ok q := Query.value_ofJson_eq_ok_iff.1 h
  have hdepth : bracketDepth q.toJson ≤ maxDepth := by
    rw [Query.toJson, Kind.stored, bracketDepth_print]
    exact Kind.depth_le_of_read hread
  have hback : Kind.query.read q.toJson = .ok q :=
    (Kind.read_stored_eq_ok_iff (Query.keeps q)).2 ⟨hdepth, survive_of_no_double hdoubles⟩
  exact Query.value_ofJson_eq_ok_iff.2 hback

/-- Members in another order, one of them unknown and two left out, a record as a list, a variant
with an empty content, an escaped letter and blanks. -/
theorem Query.ofJson_toJson_of_respelled :
    ∃ q : Query,
      (Query.ofJson "\x7b \"order_by\":[],
        \"body\":\x7b\"Select\":[false, [\x7b\"Wildcard\":null\x7d], null, null, [], null]\x7d,
        \"x\":[], \"\\u0063tes\":[]\x7d").value = .ok q
      ∧ (∀ x, Leaf.constant (.double x) ∉ q.leaves) ∧ (Query.ofJson q.toJson).value = .ok q := by
  refine ⟨.ofBody (.select (.ofProjection (.single .wildcard))), ?read, ?doubles,
    Query.ofJson_toJson_of_ofJson ?read ?doubles⟩
  case read => set_option maxRecDepth 4000 in cbv
  case doubles =>
    intro x
    simp [Query.ofBody, Select.ofProjection, Projection.single, Query.leaves, Body.leaves,
      Select.leaves, Projection.leaves, SelectItem.leaves]

end SqlTree
