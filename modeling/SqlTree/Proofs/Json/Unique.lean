import SqlTree.Proofs.Double.Denotes
import SqlTree.Proofs.Json.Document

/-!
# A text is the print of one document

Two documents whose doubles are finite and whose texts are equal are the same document, however deep
they are nested (`Document.eq_of_print_eq`). No reader with a limit is involved: the text determines
the outline (`Outline.ofText_print`), and the outline the document, token by token
(`Document.eq_of_part_eq`). A NaN or an infinity is written `null`, so nothing of the kind holds
without the condition.
-/

namespace SqlTree

/-- The token of a finite double is its text. -/
theorem Double.token_of_isFinite {x : Double} (hx : x.isFinite = true) :
    x.token = .number x.stored.toList := by
  rw [token, if_pos hx]

namespace Json

theorem Quoted.ofText_injective : Function.Injective Quoted.ofText := by
  intro s t h
  have hdecode : (Quoted.ofText s).decode = (Quoted.ofText t).decode := by rw [h]
  simpa using hdecode

namespace Document

/-! ## The doubles of a document -/

mutual

/-- The doubles of a document in the order of its text. -/
def doubles : Document → List Double
  | .null | .boolean _ | .integer _ | .text _ => []
  | .double x => [x]
  | .list items => doublesOfItems items
  | .object members => doublesOfMembers members

def doublesOfItems : List Document → List Double
  | [] => []
  | d :: rest => d.doubles ++ doublesOfItems rest

def doublesOfMembers : List (String × Document) → List Double
  | [] => []
  | (_, d) :: rest => d.doubles ++ doublesOfMembers rest

end

/-- Is none of these NaN or infinite? -/
def AllFinite (xs : List Double) : Prop := ∀ x ∈ xs, x.isFinite = true

theorem allFinite_append {xs ys : List Double} :
    AllFinite (xs ++ ys) ↔ AllFinite xs ∧ AllFinite ys := List.forall_mem_append

theorem AllFinite.token {x : Double} (h : AllFinite [x]) : x.token = .number x.stored.toList :=
  Double.token_of_isFinite (h x List.mem_cons_self)

/-! ## The outline determines the document -/

theorem toDigits_injective : Function.Injective (Nat.toDigits 10) := by
  intro m n h
  rw [← Numeral.ofDigits_digits_toDigits m, h, Numeral.ofDigits_digits_toDigits]

theorem minus_cons_ne_toDigits (m : Nat) (text : List Char) : '-' :: text ≠ Nat.toDigits 10 m := by
  intro h
  have hminus : '-' ∈ Nat.toDigits 10 m := h ▸ List.mem_cons_self
  exact absurd (Numeral.isDigit_of_mem hminus) (by decide)

theorem toString_injective : Function.Injective (toString : Int → String) := by
  intro m n h
  have htext := congrArg String.toList h
  cases m with
  | ofNat m =>
    cases n with
    | ofNat n =>
      simp only [Int.ofNat_eq_natCast, Numeral.toList_toString_natCast] at htext
      rw [toDigits_injective htext]
    | negSucc n =>
      simp only [Int.ofNat_eq_natCast, Numeral.toList_toString_natCast,
        Numeral.toList_toString_negSucc] at htext
      exact absurd htext.symm (minus_cons_ne_toDigits m _)
  | negSucc m =>
    cases n with
    | ofNat n =>
      simp only [Int.ofNat_eq_natCast, Numeral.toList_toString_natCast,
        Numeral.toList_toString_negSucc] at htext
      exact absurd htext (minus_cons_ne_toDigits n _)
    | negSucc n =>
      simp only [Numeral.toList_toString_negSucc, List.cons.injEq, true_and] at htext
      rw [Nat.succ.inj (toDigits_injective htext)]

/-- A number without point and exponent is not the text of a double. -/
theorem number_toString_ne_token {x : Double} (hx : AllFinite [x]) (n : Int) :
    Token.number (toString n).toList ≠ x.token := by
  rw [hx.token, Ne, Token.number.injEq, String.toList_inj]
  exact (Double.stored_ne_toString (hx x List.mem_cons_self) n).symm

mutual

theorem eq_of_part_eq : ∀ {d e : Document}, AllFinite d.doubles → AllFinite e.doubles →
    d.part = e.part → d = e
  | .null, e, _, he, h => by
    cases e with
    | null => rfl
    | double x => simp [part, AllFinite.token he] at h
    | _ => simp [part] at h
  | .boolean _, e, _, he, h => by
    cases e with
    | boolean _ => simpa [part] using h
    | double x => simp [part, AllFinite.token he] at h
    | _ => simp [part] at h
  | .integer m, e, _, he, h => by
    cases e with
    | integer n =>
      rw [part, part, Part.token.injEq, Token.number.injEq, String.toList_inj] at h
      rw [toString_injective h]
    | double x =>
      rw [part, part, Part.token.injEq] at h
      exact absurd h (number_toString_ne_token he m)
    | _ => simp [part] at h
  | .double x, e, hd, he, h => by
    cases e with
    | integer n =>
      rw [part, part, Part.token.injEq] at h
      exact absurd h.symm (number_toString_ne_token hd n)
    | double y =>
      rw [part, part, Part.token.injEq, AllFinite.token hd, AllFinite.token he, Token.number.injEq,
        String.toList_inj] at h
      rw [Double.eq_of_stored_eq (hd x List.mem_cons_self) (he y List.mem_cons_self) h]
    | _ => simp [part, AllFinite.token hd] at h
  | .text s, e, _, he, h => by
    cases e with
    | text t =>
      rw [part, part, Part.token.injEq, Token.quoted.injEq] at h
      rw [Quoted.ofText_injective h]
    | double x => simp [part, AllFinite.token he] at h
    | _ => simp [part] at h
  | .list items, e, hd, he, h => by
    cases e with
    | list items' =>
      rw [part, part, Part.list.injEq] at h
      rw [eq_of_itemParts_eq hd he h.1]
    | _ => simp [part] at h
  | .object members, e, hd, he, h => by
    cases e with
    | object members' =>
      rw [part, part, Part.object.injEq] at h
      rw [eq_of_memberParts_eq hd he h.1]
    | _ => simp [part] at h

theorem eq_of_itemParts_eq : ∀ {ds es : List Document}, AllFinite (doublesOfItems ds) →
    AllFinite (doublesOfItems es) → itemParts ds = itemParts es → ds = es
  | [], [], _, _, _ => rfl
  | [], _ :: _, _, _, h => by simp [itemParts] at h
  | _ :: _, [], _, _, h => by simp [itemParts] at h
  | d :: ds, e :: es, hd, he, h => by
    obtain ⟨hd, hds⟩ := allFinite_append.1 hd
    obtain ⟨he, hes⟩ := allFinite_append.1 he
    rw [itemParts, itemParts, List.cons.injEq] at h
    rw [eq_of_part_eq hd he h.1, eq_of_itemParts_eq hds hes h.2]

theorem eq_of_memberParts_eq : ∀ {ds es : List (String × Document)},
    AllFinite (doublesOfMembers ds) → AllFinite (doublesOfMembers es) →
    memberParts ds = memberParts es → ds = es
  | [], [], _, _, _ => rfl
  | [], (_, _) :: _, _, _, h => by simp [memberParts] at h
  | (_, _) :: _, [], _, _, h => by simp [memberParts] at h
  | (m, d) :: ds, (n, e) :: es, hd, he, h => by
    obtain ⟨hd, hds⟩ := allFinite_append.1 hd
    obtain ⟨he, hes⟩ := allFinite_append.1 he
    rw [memberParts, memberParts, List.cons.injEq, Prod.mk.injEq, Option.some.injEq] at h
    rw [Quoted.ofText_injective h.1.1, eq_of_part_eq hd he h.1.2,
      eq_of_memberParts_eq hds hes h.2]

end

/-- **A text is the print of one document**, as far as finite doubles go. -/
theorem eq_of_print_eq {d e : Document} (hd : AllFinite d.doubles) (he : AllFinite e.doubles)
    (h : d.print = e.print) : d = e := by
  have houtline : Outline.ofText (String.ofList d.print) = Outline.ofText (String.ofList e.print) :=
    by rw [h]
  rw [Outline.ofText_print, Outline.ofText_print, List.cons.injEq] at houtline
  exact eq_of_part_eq hd he houtline.1

end Document

end Json

end SqlTree
