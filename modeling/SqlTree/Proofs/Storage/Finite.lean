import SqlTree.Proofs.Json.Spelling
import SqlTree.Proofs.Storage.Doubles
import SqlTree.Proofs.Storage.Hereditary
import SqlTree.Proofs.Storage.Unique

/-!
# Every double that is read is finite

Reading builds doubles without the check that `Constant.finite` makes, and needs none: a number that
is read is finite (`Numeral.value_cases`), and nothing else comes into a tree but what was read. To
have finite doubles only is a hereditary property of documents, so whatever a text is read as is
finite through and through (`Kind.isFinite_of_read`).
-/

namespace SqlTree

open Json Document

variable {β : Type}

/-! ## Documents without NaN and infinity -/

namespace Json.Document

theorem allFinite_items {ds : List Document} (h : ∀ d ∈ ds, AllFinite d.doubles) :
    AllFinite (doublesOfItems ds) := by
  induction ds with
  | nil => exact fun _ hx => absurd hx List.not_mem_nil
  | cons d ds ih =>
    obtain ⟨hd, hds⟩ := List.forall_mem_cons.1 h
    exact allFinite_append.2 ⟨hd, ih hds⟩

theorem allFinite_members {ms : List (String × Document)} (h : ∀ m ∈ ms, AllFinite m.2.doubles) :
    AllFinite (doublesOfMembers ms) := by
  induction ms with
  | nil => exact fun _ hx => absurd hx List.not_mem_nil
  | cons m ms ih =>
    obtain ⟨hm, hms⟩ := List.forall_mem_cons.1 h
    exact allFinite_append.2 ⟨hm, ih hms⟩

/-- A list or an object has the doubles of what is in it. -/
theorem hereditary_allFinite : Hereditary fun _ d => AllFinite d.doubles where
  null _ _ hx := absurd hx List.not_mem_nil
  boolean _ _ _ hx := absurd hx List.not_mem_nil
  integer _ _ _ hx := absurd hx List.not_mem_nil
  double _ _ hx := List.forall_mem_singleton.2 hx
  text _ _ _ hx := absurd hx List.not_mem_nil
  list := allFinite_items
  object := allFinite_members

end Json.Document

/-! ## Texts -/

theorem Json.Document.doublesOfItems_map {document : β → Document} {leaves : β → List Leaf}
    (h : ∀ b, (document b).doubles = doubleValues (leaves b)) (bs : List β) :
    doublesOfItems (bs.map document) = doubleValues (bs.flatMap leaves) := by
  induction bs with
  | nil => rfl
  | cons b rest ih =>
    rw [List.map_cons, doublesOfItems, h, ih, List.flatMap_cons, doubleValues_append]

/-- The doubles of a value are those of its document, in their order. -/
theorem Kind.doubles_document : ∀ (kind : Kind) (value : kind.Carrier),
    (kind.document value).doubles = doubleValues (kind.leaves value)
  | .text, _ | .flag, _ | .long, _ | .double, _ => rfl
  | .maybe _, none => rfl
  | .maybe kind, some value => Kind.doubles_document kind value
  | .many kind, values => doublesOfItems_map (Kind.doubles_document kind) values
  | .ident, i => Ident.doubles_document i
  | .qualifiedName, n => n.doubles_document
  | .constant, c => c.doubles_document
  | .operator, o => o.doubles_document
  | .setOperator, o => o.doubles_document
  | .direction, d => Direction.doubles_ofOption (some d)
  | .expr, e => e.doubles_document
  | .call, c => c.doubles_document
  | .binary, o => o.doubles_document
  | .relation, r => r.doubles_document
  | .joinCondition, c => c.doubles_document
  | .joinKind, k => k.doubles_document
  | .join, j => j.doubles_document
  | .fromClause, f => f.doubles_document
  | .selectItem, i => i.doubles_document
  | .projection, p => p.doubles_document
  | .select, s => s.doubles_document
  | .body, b => b.doubles_document
  | .orderItem, o => o.doubles_document
  | .cte, c => c.doubles_document
  | .query, q => q.doubles_document

/-- A number under the name of a variant is read as the content of that variant. -/
theorem Kind.read_variant_numberText {name : String} {kind : Kind}
    {build : kind.Carrier → Constant}
    (hname : Variant.find Constant.variants name = .ok ⟨name, .value kind build⟩)
    {number : List Char} (h : IsNumber number) :
    Kind.constant.read (numberText name number)
      = (kind.layout.token (.number number)).map build := by
  rw [Kind.read_eq (Outline.ofText_numberText name h.isNumeral)]
  exact (Part.read_tagged hname maxDepth _).trans (Part.read_map _ _ _ _)

theorem Kind.read_numberText {number : List Char} (h : IsNumber number) :
    Kind.constant.read (numberText "Double" number)
      = ((Numeral.ofText number).value.map Number.toDouble).map Constant.double :=
  @Kind.read_variant_numberText "Double" .double _ rfl _ h

/-- **Every double that is read is finite**, wherever it stands in a value of whatever kind; and a
number is read as a finite double or refused, however long it is and however large its exponent. -/
theorem Kind.isFinite_of_read :
    (∀ (kind : Kind) (text : String) (value : kind.Carrier), kind.read text = .ok value →
      ∀ x, Leaf.constant (.double x) ∈ kind.leaves value → x.isFinite = true) ∧
    (∀ (text : String) (q : Query), (Query.ofJson text).value = .ok q →
      ∀ x, Leaf.constant (.double x) ∈ q.leaves → x.isFinite = true) ∧
    ∀ number, IsNumber number →
      (∃ x, Kind.constant.read (numberText "Double" number) = .ok (.double x) ∧ x.isFinite = true) ∨
        Kind.constant.read (numberText "Double" number) = .error .numberOutOfRange := by
  have hread (kind : Kind) (text : String) (value : kind.Carrier) (h : kind.read text = .ok value)
      (x : Double) (hx : Leaf.constant (.double x) ∈ kind.leaves value) : x.isFinite = true := by
    refine Kind.holds_of_read Document.hereditary_allFinite h x ?_
    rwa [Kind.doubles_document, mem_doubleValues]
  refine ⟨hread, fun text q h => hread .query text q (Query.value_ofJson_eq_ok_iff.1 h), ?_⟩
  intro number hnumber
  rw [Kind.read_numberText hnumber]
  rcases (Numeral.ofText number).value_cases with ⟨m, hm, hfinite⟩ | herror
  · rw [hm]
    exact .inl ⟨m.toDouble, rfl, hfinite⟩
  · rw [herror]
    exact .inr rfl

/-- Exponents that no counter of 32 bits holds: a number too small for a double is read as zero,
with its sign, and a number too large is refused. A double inside a query is finite too. -/
theorem Kind.isFinite_of_read_vast :
    (Kind.constant.read "\x7b\"Double\":-12.5E-99999999999\x7d"
        = .ok (.double ⟨0x8000000000000000⟩) ∧
      (⟨0x8000000000000000⟩ : Double).isFinite = true) ∧
    ((Query.ofJson (Query.ofDouble ⟨0x3fb999999999999a⟩).toJson).value
        = .ok (.ofDouble ⟨0x3fb999999999999a⟩) ∧
      (⟨0x3fb999999999999a⟩ : Double).isFinite = true) ∧
    IsNumber ['1', 'e', '9', '9', '9', '9', '9', '9', '9', '9', '9', '9'] ∧
      ((∃ x, Kind.constant.read "\x7b\"Double\":1e9999999999\x7d" = .ok (.double x) ∧
          x.isFinite = true) ∨
        Kind.constant.read "\x7b\"Double\":1e9999999999\x7d" = .error .numberOutOfRange) := by
  have hleaf (x : Double) : Leaf.constant (.double x) ∈ (Query.ofDouble x).leaves :=
    List.mem_singleton.2 rfl
  obtain ⟨hvalue, hquery, hnumber⟩ := Kind.isFinite_of_read
  refine ⟨⟨?tiny, hvalue .constant _ _ ?tiny _ (List.mem_singleton.2 rfl)⟩,
    ⟨?stored, hquery _ _ ?stored _ (hleaf _)⟩, ?form, hnumber _ ?form⟩
  case tiny => decide +kernel
  case stored =>
    refine Query.ofJson_toJson_of_isPlain ?_ fun x hx => ?_
    · rw [Query.toJson, Kind.stored, bracketDepth_print]
      decide
    · have hleaves : (Query.ofDouble ⟨0x3fb999999999999a⟩).leaves
          = [.constant (.double ⟨0x3fb999999999999a⟩)] := rfl
      rw [hleaves] at hx
      cases List.mem_singleton.1 hx
      exact ⟨by decide, Double.isPlain_of_le (by decide +kernel) (by decide +kernel)⟩
  case form =>
    exact ⟨[], ['1'], [], "e9999999999".toList, .inl rfl, .inr ⟨by simp [IsDigits], by decide⟩,
      .inl rfl, .inr ⟨'e', [], "9999999999".toList, .inl rfl, .inl rfl, by simp [IsDigits], rfl⟩,
      rfl⟩

end SqlTree
