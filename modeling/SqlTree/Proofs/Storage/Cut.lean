import SqlTree.Proofs.Double.Prefix
import SqlTree.Proofs.Json.Cut
import SqlTree.Proofs.Json.Trailing
import SqlTree.Proofs.Storage.Slots

/-!
# Reading what is cut or too long

What is left of a part when its text ends early is refused because the text ends, if it is refused
at all (`Part.EndsIfCut`). Only a number may be read although it is cut; a record never is, for it
is not closed.

There is one lemma for each way of storing, and the kinds cite them (`Kind.endIfCut`). The induction
is on the number of brackets that may still be opened. It is about the part that is written for a
value and not about any part that is read as the value: in a member that no record knows, or in a
record that is stored as a list, a cut may be reported as something else.
-/

namespace SqlTree

open Json Document

variable {α β : Type}

theorem bind_eq_error {ε α β : Type} {x : Except ε α} {f : α → Except ε β} {e : ε} :
    (x >>= f) = .error e ↔ x = .error e ∨ ∃ a, x = .ok a ∧ f a = .error e := by
  cases x <;> simp [bind, Except.bind]

theorem map_eq_error {ε α β : Type} {x : Except ε α} {f : α → β} {e : ε} :
    x.map f = .error e ↔ x = .error e := by
  cases x <;> simp [Except.map]

/-! ## Quoted texts -/

namespace Json.Quoted

/-- Pieces that can be decoded with more behind them end too early without. -/
theorem decodePieces_cut {ending : Ending} (qs : List Piece) : ∀ (ps : List Piece) {cs : List Char},
    decodePieces ending (ps ++ qs) = .ok cs → decodePieces .cut ps = .error .endInString
  | [], _, _ => rfl
  | .char c :: rest, _, h => by
    obtain ⟨cs, hcs, -⟩ := map_eq_ok.1
      (show (decodePieces ending (rest ++ qs)).map (c :: ·) = _ from h)
    rw [decodePieces, decodePieces_cut qs rest hcs]
    rfl
  | .unit code :: rest, cs, h => by
    rw [List.cons_append] at h
    by_cases hlow : isLow code = true
    · rw [decodePieces.eq_def] at h
      simp [hlow] at h
    rw [Bool.not_eq_true] at hlow
    by_cases hhigh : isHigh code = true
    · rw [decodePieces.eq_def] at h ⊢
      simp only [hlow, hhigh, Bool.false_eq_true, if_false, if_true] at h ⊢
      cases rest with
      | nil => rfl
      | cons piece rest =>
        cases piece with
        | char c => simp at h
        | unit low =>
          simp only [List.cons_append] at h ⊢
          split at h
          · next hpair =>
            obtain ⟨cs, hcs, -⟩ := map_eq_ok.1 h
            rw [if_pos hpair, decodePieces_cut qs rest hcs]
            rfl
          · cases h
    · rw [Bool.not_eq_true] at hhigh
      rw [decodePieces_unit hlow hhigh] at h ⊢
      obtain ⟨cs, hcs, -⟩ := map_eq_ok.1 h
      rw [decodePieces_cut qs rest hcs]
      rfl

theorem decode_cut {q : Quoted} {s : String} (h : q.decode = .ok s) {ps : List Piece}
    (hps : ps <+: q.pieces) : (⟨ps, .cut⟩ : Quoted).decode = .error .endInString := by
  obtain ⟨qs, hqs⟩ := hps
  obtain ⟨cs, hcs, -⟩ := map_eq_ok.1
    (show (decodePieces q.ending q.pieces).map String.ofList = _ from h)
  rw [← hqs] at hcs
  show (decodePieces .cut ps).map String.ofList = _
  rw [decodePieces_cut qs ps hcs]
  rfl

end Json.Quoted

/-! ## Parts that are cut -/

namespace Json.Part

/-- Is nothing wrong with a part but that the text ends, if anything is wrong with it? -/
def EndsEarly (n : Nat) (l : Layout α) (c : Part) : Prop :=
  ∀ fault, c.read n l = .error fault → fault.category = .endOfText

/-- Does whatever is left of a part end early? -/
def EndsIfCut (n : Nat) (l : Layout α) (p : Part) : Prop := ∀ c, p.Cut c → c.EndsEarly n l

variable {n : Nat} {p : Part} {l : Layout α}

/-- What is refused because the text ends does end early. -/
theorem EndsIfCut.of_error
    (h : ∀ c, p.Cut c → ∃ fault, c.read n l = .error fault ∧ fault.category = .endOfText) :
    p.EndsIfCut n l := by
  intro c hc fault hfault
  obtain ⟨fault', hfault', hcategory⟩ := h c hc
  rw [hfault'] at hfault
  cases hfault
  exact hcategory

theorem EndsIfCut.map (f : α → β) (h : p.EndsIfCut n l) : p.EndsIfCut n (l.map f) := by
  intro c hc fault hfault
  rw [read_map] at hfault
  exact h c hc fault (map_eq_error.1 hfault)

/-- The beginning of the word `null` is refused as such, and anything else is read as the value. -/
theorem EndsIfCut.orNull (h : p.EndsIfCut n l) : p.EndsIfCut n l.orNull := by
  intro c hc fault hfault
  cases hnull : c.isNull with
  | false =>
    rw [read_orNull l n hnull] at hfault
    exact h c hc fault (map_eq_error.1 hfault)
  | true =>
    cases hc with
    | list | object => cases hnull
    | token ht =>
      cases ht with
      | word w =>
        cases w with
        | null =>
          rw [read] at hfault
          cases hfault
          rfl
        | boolean b => cases hnull
      | number | brokenNumber | quoted => cases hnull

theorem endsIfCut_null (n : Nat) (l : Layout α) : Document.null.part.EndsIfCut n l.orNull := by
  rintro c (ht | _ | _) fault hfault
  cases ht with
  | word =>
    rw [read] at hfault
    cases hfault
    rfl

theorem read_of_orNull {a : α} (h : p.read n l.orNull = .ok (some a)) : p.read n l = .ok a := by
  cases hnull : p.isNull with
  | false =>
    rw [read_orNull l n hnull] at h
    obtain ⟨b, hb, heq⟩ := map_eq_ok.1 h
    rw [hb, Option.some.inj heq]
  | true =>
    unfold isNull at hnull
    split at hnull
    · rw [read] at h
      cases h
    · rw [read] at h
      cases h
    · cases hnull

/-! ## Scalars -/

theorem endsIfCut_text (n : Nat) (s : String) : (Document.text s).part.EndsIfCut n .text := by
  rintro c (ht | _ | _) fault hfault
  cases ht with
  | quoted hps =>
    have hdecode := Quoted.decode_cut (Quoted.decode_ofText s) hps
    rw [read] at hfault
    cases hdecode.symm.trans hfault
    rfl

theorem endsIfCut_flag (n : Nat) (b : Bool) : (Document.boolean b).part.EndsIfCut n .flag := by
  rintro c (ht | _ | _) fault hfault
  cases ht with
  | word w =>
    rw [read] at hfault
    cases hfault
    rfl

theorem endsIfCut_long (n : Nat) (i : Int64) :
    (Document.integer i.toInt).part.EndsIfCut n .long := by
  rintro c (ht | _ | _) fault hfault
  rw [read] at hfault
  cases ht with
  | brokenNumber =>
    cases hfault
    rfl
  | @number _ t h hnumeral =>
    obtain ⟨m, rfl, hlow, hhigh⟩ := Numeral.exists_integer_of_prefix hnumeral h
    have hmin : Int64.minValue.toInt ≤ i.toInt := i.minValue_le_toInt
    have hmax : i.toInt ≤ Int64.maxValue.toInt := i.toInt_le
    have hmin' : Int64.minValue.toInt = -2 ^ 63 := rfl
    have hmax' : Int64.maxValue.toInt = 2 ^ 63 - 1 := rfl
    have htoken := token_long (.ofInt m)
    rw [Int64.toInt_ofInt_of_le (by omega) (by omega)] at htoken
    rw [htoken] at hfault
    cases hfault

theorem endsIfCut_double (n : Nat) (x : Double) : (Document.double x).part.EndsIfCut n .double := by
  rintro c hc fault hfault
  rw [part] at hc
  unfold Double.token at hc
  split at hc
  · next hx =>
    obtain ⟨ht⟩ := hc
    rw [read] at hfault
    cases ht with
    | brokenNumber =>
      cases hfault
      rfl
    | @number _ t h hnumeral =>
      obtain ⟨m, hm⟩ := Double.exists_value_of_prefix hx h
      have htoken : Layout.double.token (.number t) = .ok m.toDouble := by
        show (Numeral.ofText t).value.map Number.toDouble = _
        rw [hm]
        rfl
      rw [htoken] at hfault
      cases hfault
  · obtain ⟨ht⟩ := hc
    rw [read] at hfault
    cases ht with
    | word w =>
      cases hfault
      rfl

/-! ## Lists -/

theorem readItems_eq_error {ps : List Part} {fault : Fault}
    (h : readItems n l (p :: ps) = .error fault) :
    p.read n l = .error fault ∨ readItems n l ps = .error fault := by
  rw [readItems, bind_eq_error] at h
  rcases h with h | ⟨a, -, h⟩
  · exact .inl h
  rcases bind_eq_error.1 h with h | ⟨as, -, h⟩
  · exact .inr h
  · cases h

/-- Nothing is wrong with what is left of the items of a list, and its ending is a fault. -/
theorem readItems_cut : ∀ {items : List Part},
    (∀ p ∈ items, (∃ a, p.read n l = .ok a) ∧ p.EndsIfCut n l) →
    ∀ {items' : List Part} {ending : ListEnding}, CutItems items items' ending →
      (∀ fault, readItems n l items' = .error fault → fault.category = .endOfText)
      ∧ ∃ fault, ending.afterItems = .error fault ∧ fault.category = .endOfText
  | [], _, _, _, .stop _ => by
    refine ⟨fun fault hfault => ?_, .endInList, rfl, rfl⟩
    rw [readItems] at hfault
    cases hfault
  | p :: items, hall, items', ending, hcut => by
    obtain ⟨⟨⟨a, ha⟩, hp⟩, hitems⟩ := List.forall_mem_cons.1 hall
    have hwhole {fault : Fault} : p.read n l ≠ .error fault := by
      rw [ha]
      intro h
      cases h
    have hnil {fault : Fault} : readItems n l [] ≠ .error fault := by
      rw [readItems]
      intro h
      cases h
    cases hcut with
    | stop => exact ⟨fun fault hfault => absurd hfault hnil, .endInList, rfl, rfl⟩
    | comma _ p' rest =>
      refine ⟨fun fault hfault => ?_, .endInValue, rfl, rfl⟩
      rcases readItems_eq_error hfault with hfault | hfault
      · exact absurd hfault hwhole
      · exact absurd hfault hnil
    | @within _ c hc =>
      refine ⟨fun fault hfault => ?_, .endInList, rfl, rfl⟩
      rcases readItems_eq_error hfault with hfault | hfault
      · exact hp c hc fault hfault
      · exact absurd hfault hnil
    | @more _ items' _ _ hcut =>
      obtain ⟨hrest, hending⟩ := readItems_cut hitems hcut
      refine ⟨fun fault hfault => ?_, hending⟩
      rcases readItems_eq_error hfault with hfault | hfault
      · exact absurd hfault hwhole
      · exact hrest fault hfault

/-- Each item of a list that is read back was read back. -/
theorem read_of_readItems {kind : Kind} : ∀ {values : List kind.Carrier},
    readItems n kind.layout (itemParts (values.map kind.document)) = .ok values →
    ∀ p ∈ itemParts (values.map kind.document),
      ∃ v, p = (kind.document v).part ∧ p.read n kind.layout = .ok v
  | [], _, p, hp => by cases hp
  | v :: values, h, p, hp => by
    rw [List.map_cons, itemParts, readItems] at h
    obtain ⟨w, hw, h⟩ := bind_eq_ok.1 h
    obtain ⟨ws, hws, h⟩ := bind_eq_ok.1 h
    obtain ⟨rfl, rfl⟩ := List.cons.inj (Except.ok.inj h)
    rw [List.map_cons, itemParts] at hp
    rcases List.mem_cons.1 hp with rfl | hp
    · exact ⟨w, rfl, hw⟩
    · exact read_of_readItems hws p hp

theorem endsIfCut_list {kind : Kind} {build : List kind.Carrier → Except Fault α}
    {items : List Part}
    (hall : ∀ p ∈ items, (∃ v, p.read n kind.layout = .ok v) ∧ p.EndsIfCut n kind.layout) :
    (Part.list items .closed).EndsIfCut (n + 1) (.items kind build) := by
  rintro c (_ | hcut | _) fault hfault
  obtain ⟨hitems, ending, hending, hcategory⟩ := readItems_cut hall hcut
  rw [read] at hfault
  rcases bind_eq_error.1 (show (readItems n kind.layout _ >>= _) = _ from hfault) with
    hfault | ⟨values, -, hfault⟩
  · exact hitems fault hfault
  · rw [hending] at hfault
    cases hfault
    exact hcategory

end Json.Part

/-! ## Kinds -/

/-- Does whatever is left of the document of a value end early, if the document is read back where
so many brackets may be opened? -/
def Kind.EndIfCutAt (n : Nat) : Prop :=
  ∀ (kind : Kind) (v : kind.Carrier), (kind.document v).part.read n kind.layout = .ok v →
    (kind.document v).part.EndsIfCut n kind.layout

namespace Json.Part

variable {n : Nat}

/-! ## Records -/

theorem afterMembers_afterKey {fs gs : List Field} {g : Field}
    (frame : PartialRow.Frame fs (g :: gs)) (atEnd : Bool) :
    ObjectEnding.afterMembers fs (frame.embed (.empty (g :: gs)))
        (.afterKey (some (.ofText g.name)) atEnd)
      = .error (if atEnd then .endInObject else .expectedColon) := by
  have hkey : Key.name (some (.ofText g.name)) = .ok g.name := Quoted.decode_ofText g.name
  rw [ObjectEnding.afterMembers, hkey]
  show (PartialRow.checkNew g.name fs _ >>= _) = _
  rw [frame.checkNew]
  rfl

theorem afterMembers_afterColon {fs gs : List Field} {g : Field}
    (frame : PartialRow.Frame fs (g :: gs)) (atEnd : Bool) :
    ObjectEnding.afterMembers fs (frame.embed (.empty (g :: gs)))
        (.afterColon (some (.ofText g.name)) atEnd)
      = .error (if atEnd then .endInValue else .expectedValue) := by
  have hkey : Key.name (some (.ofText g.name)) = .ok g.name := Quoted.decode_ofText g.name
  rw [ObjectEnding.afterMembers, hkey]
  show (PartialRow.checkNew g.name fs _ >>= _) = _
  rw [frame.checkNew]
  rfl

theorem readMembers_nil {r : Record α} {ending : ObjectEnding} {row : PartialRow r.fields}
    {fault : Fault} (h : ending.afterMembers r.fields row = .error fault) :
    readMembers n r ending row [] = .error fault := by
  rw [readMembers, h]
  rfl

/-- What is left of the members of a record is refused because the text ends. -/
theorem readMembers_cut (hn : Kind.EndIfCutAt n) (r : Record α) :
    ∀ {gs : List Field} (frame : PartialRow.Frame r.fields gs), (gs.map Field.name).Nodup →
      ∀ row : Row gs, readFields n gs (Row.parts gs row) = .ok row →
      ∀ {ms : List (Key × Part)} {ending : ObjectEnding},
        CutMembers (fieldMembers gs (Row.parts gs row)) ms ending →
        ∃ fault, readMembers n r ending (frame.embed (.empty gs)) ms = .error fault
          ∧ fault.category = .endOfText
  | [], _, _, _, _, _, _, .stop _ => ⟨.endInObject, readMembers_nil rfl, rfl⟩
  | g :: gs, frame, hnodup, (v, row), hread, ms, ending, hcut => by
    obtain ⟨hname, hnodup⟩ := List.nodup_cons.1 hnodup
    have hg : ∀ h ∈ gs, g.name ≠ h.name := fun h hh heq =>
      hname (heq ▸ List.mem_map_of_mem hh)
    rw [Row.parts, readFields] at hread
    obtain ⟨w, hw, hread⟩ := bind_eq_ok.1 hread
    obtain ⟨row', hrow', hread⟩ := bind_eq_ok.1 hread
    obtain ⟨rfl, rfl⟩ := Prod.mk.inj (Except.ok.inj hread)
    have hfirst (ending : ObjectEnding) (ms : List (Key × Part)) :
        readMembers n r ending (frame.embed (.empty (g :: gs)))
            ((some (.ofText g.name), (g.kind.document w).part) :: ms)
          = readMembers n r ending ((frame.tail hg w).embed (.empty gs)) ms := by
      rw [readMembers_cons, readMember_frame n frame hg, hw]
      rfl
    have hmembers : fieldMembers (g :: gs) (Row.parts (g :: gs) (w, row'))
        = (some (.ofText g.name), (g.kind.document w).part)
          :: fieldMembers gs (Row.parts gs row') := rfl
    rw [hmembers] at hcut
    generalize hrest : fieldMembers gs (Row.parts gs row') = rest at hcut
    cases hcut with
    | stop => exact ⟨.endInObject, readMembers_nil rfl, rfl⟩
    | comma _ m' rest =>
      refine ⟨.endInValue, ?_, rfl⟩
      rw [hfirst]
      exact readMembers_nil rfl
    | @name _ ps hps =>
      have hcut : Key.name (some ⟨ps, .cut⟩) = .error .endInString :=
        Quoted.decode_cut (Quoted.decode_ofText g.name) hps
      refine ⟨.endInString, readMembers_nil ?_, rfl⟩
      rw [ObjectEnding.afterMembers, hcut]
      rfl
    | afterName => exact ⟨.endInObject, readMembers_nil (afterMembers_afterKey frame true), rfl⟩
    | colon => exact ⟨.endInValue, readMembers_nil (afterMembers_afterColon frame true), rfl⟩
    | @within _ c _ hc =>
      rw [readMembers_cons, readMember_frame n frame hg]
      cases hvalue : c.read n g.kind.layout with
      | error fault => exact ⟨fault, rfl, hn g.kind w hw c hc fault hvalue⟩
      | ok u =>
        refine ⟨.endInObject, ?_, rfl⟩
        show readMembers n r .cut ((frame.tail hg u).embed (.empty gs)) [] = _
        exact readMembers_nil rfl
    | @more _ ms _ _ hcut =>
      rw [hfirst]
      exact readMembers_cut hn r (frame.tail hg w) hnodup row' hrow' (hrest ▸ hcut)

/-- What is left of a record that is read back is refused because the text ends. -/
theorem refused_record (hn : ∀ m < n, Kind.EndIfCutAt m) {r : Record α}
    (hnames : (r.fields.map Field.name).Nodup) {row : Row r.fields}
    (hread : (Document.object (Row.members r.fields row)).part.read n (.record r.rows)
      = .ok row) :
    ∀ c, (Document.object (Row.members r.fields row)).part.Cut c →
      ∃ fault, c.read n (.record r) = .error fault ∧ fault.category = .endOfText := by
  have hpart : (Document.object (Row.members r.fields row)).part
      = .object (fieldMembers r.fields (Row.parts r.fields row)) .closed := by
    rw [part, Row.memberParts_members]
  have hrecord := read_record r.rows hnames n (Row.parts r.fields row) (Row.length_parts _ row)
  rw [hpart] at hread ⊢
  obtain ⟨m, hm, hfields⟩ := bind_eq_ok.1 (hrecord.symm.trans hread)
  obtain ⟨row', hrow', hid⟩ := map_eq_ok.1 hfields
  obtain rfl : row' = row := hid
  rintro c (_ | _ | hcut)
  have hlt : m < n := by
    rw [descend_eq_ok] at hm
    omega
  obtain ⟨fault, hfault, hcategory⟩ :=
    readMembers_cut (hn m hlt) r (.self r.fields) hnames row' hrow' hcut
  refine ⟨fault, ?_, hcategory⟩
  rw [read]
  show (descend n >>= fun m => readMembers m r _ _ _) = _
  rw [hm]
  exact hfault

/-! ## Variants -/

/-- What is left of a variant without content is not even a name. -/
theorem endsIfCut_bare {vs : List (Variant α)} {t : Token} {a : α}
    (hread : (Part.token t).read n (.choice vs) = .ok a) :
    (Part.token t).EndsIfCut n (.choice vs) := by
  rintro c (ht | _ | _) fault hfault
  rw [read] at hread hfault
  cases t with
  | quoted q =>
    obtain ⟨name, hname, -⟩ := bind_eq_ok.1
      (show (q.decode >>= fun name => Variant.find vs name >>= Variant.bare) = .ok a from hread)
    cases ht with
    | @quoted _ ps hps =>
      have hcut := Quoted.decode_cut hname hps
      rcases bind_eq_error.1 (show ((⟨ps, .cut⟩ : Quoted).decode >>= fun name =>
        Variant.find vs name >>= Variant.bare) = .error fault from hfault) with hfault | ⟨s, hs, -⟩
      · cases hcut.symm.trans hfault
        rfl
      · cases hcut.symm.trans hs
  | _ => cases hread

theorem eq_of_read_null {p : Part} {a b : α} (h : p.read n (.null a) = .ok b) : b = a := by
  have hconst : (fun _ : Unit => a) () = a := rfl
  rw [← hconst, read_null_map (fun _ => a) ()] at h
  obtain ⟨_, -, hb⟩ := map_eq_ok.1 h
  exact hb.symm

/-- An object that is read as a variant has one member, which names the variant. -/
theorem exists_of_readVariant {vs : List (Variant α)} {ms : List (Key × Part)}
    {ending : ObjectEnding} {a : α}
    (hread : (Part.object ms ending).read n (.choice vs) = .ok a) :
    ∃ m key p name v, n = m + 1 ∧ ms = [(key, p)] ∧ Key.name key = .ok name
      ∧ Variant.find vs name = .ok v ∧ p.read m v.content.layout = .ok a := by
  rw [read] at hread
  obtain ⟨m, hm, hread⟩ := bind_eq_ok.1
    (show (descend n >>= fun m => readVariant m vs ending ms) = .ok a from hread)
  cases ms with
  | nil =>
    rw [readVariant] at hread
    cases hread
  | cons member rest =>
    obtain ⟨key, p⟩ := member
    rw [readVariant] at hread
    obtain ⟨name, hname, hread⟩ := bind_eq_ok.1 hread
    obtain ⟨v, hv, hread⟩ := bind_eq_ok.1 hread
    obtain ⟨b, hb, hread⟩ := bind_eq_ok.1 hread
    obtain ⟨_, hending, hread⟩ := bind_eq_ok.1 hread
    obtain rfl : b = a := Except.ok.inj hread
    have hrest : rest = [] := by
      cases rest with
      | nil => rfl
      | cons m' rest => cases hending
    rw [hrest]
    exact ⟨m, key, p, name, v, descend_eq_ok.1 hm, rfl, hname, hv, hb⟩

section

variable {vs : List (Variant α)} {key : Key} {name : String} {v : Variant α}

/-- A member that names a variant and is not closed is refused for its value, or as cut. -/
theorem readVariant_cut_eq_error (hname : Key.name key = .ok name)
    (hv : Variant.find vs name = .ok v) {c : Part} {fault : Fault}
    (h : readVariant n vs .cut [(key, c)] = .error fault) :
    c.read n v.content.layout = .error fault ∨ fault = .endInObject := by
  rw [readVariant, hname] at h
  replace h : (Variant.find vs name >>= _) = .error fault := h
  rw [hv] at h
  rcases bind_eq_error.1 (show (c.read n v.content.layout >>= _) = .error fault from h) with
    h | ⟨b, -, h⟩
  · exact .inl h
  · cases h
    exact .inr rfl

theorem withoutVariant_named (hname : Key.name key = .ok name)
    (hv : Variant.find vs name = .ok v) (fault : Fault) :
    ObjectEnding.withoutVariant.named vs key fault = fault := by
  have hfind : (Key.name key).bind (Variant.find vs) = .ok v := by
    rw [hname]
    exact hv
  rw [ObjectEnding.withoutVariant.named, hfind]

/-- What is left of a variant ends early if what is left of its content does. -/
theorem endsIfCut_variant {p : Part} {a : α} (hname : Key.name key = .ok name)
    (hv : Variant.find vs name = .ok v) (ha : p.read n v.content.layout = .ok a)
    (hp : p.EndsIfCut n v.content.layout) :
    (Part.object [(key, p)] .closed).EndsIfCut (n + 1) (.choice vs) := by
  rintro c (_ | _ | hcut) fault hfault
  rw [read] at hfault
  replace hfault : readVariant n vs _ _ = .error fault := hfault
  cases hcut with
  | stop =>
    rw [readVariant] at hfault
    cases hfault
    rfl
  | @name q ps hps =>
    have hcut : Key.name (some ⟨ps, .cut⟩) = .error .endInString := Quoted.decode_cut hname hps
    rw [readVariant, ObjectEnding.withoutVariant, ObjectEnding.withoutVariant.named, hcut] at hfault
    cases hfault
    rfl
  | afterName =>
    rw [readVariant, ObjectEnding.withoutVariant, withoutVariant_named hname hv] at hfault
    cases hfault
    rfl
  | colon =>
    rw [readVariant, ObjectEnding.withoutVariant, withoutVariant_named hname hv] at hfault
    cases hfault
    rfl
  | @within _ c _ hc =>
    rcases readVariant_cut_eq_error hname hv hfault with hfault | rfl
    · exact hp c hc fault hfault
    · rfl
  | @more _ ms _ _ hcut =>
    cases hcut with
    | stop =>
      rcases readVariant_cut_eq_error hname hv hfault with hfault | rfl
      · rw [ha] at hfault
        cases hfault
      · rfl

end

end Json.Part

/-! ## All kinds -/

namespace Kind

variable {n : Nat} {kind : Kind}

theorem refused_of_record (hn : ∀ m < n, EndIfCutAt m) {r : Record kind.Carrier}
    (h : kind.layout = .record r) {v : kind.Carrier}
    (hread : (kind.document v).part.read n kind.layout = .ok v) :
    ∀ c, (kind.document v).part.Cut c →
      ∃ fault, c.read n kind.layout = .error fault ∧ fault.category = .endOfText := by
  obtain ⟨hdescribes, hfaithful⟩ := record_of_layout h
  rw [h] at hread ⊢
  obtain ⟨row, hrow, rfl⟩ := map_eq_ok.1
    ((Part.read_record_map r.build r.rows n _).symm.trans hread)
  rw [hdescribes] at hrow ⊢
  exact Part.refused_record hn hfaithful.1 hrow

theorem endsIfCut_of_choice (hn : ∀ m < n, EndIfCutAt m) {vs : List (Variant kind.Carrier)}
    (h : kind.layout = .choice vs) {v : kind.Carrier}
    (hread : (kind.document v).part.read n kind.layout = .ok v) :
    (kind.document v).part.EndsIfCut n kind.layout := by
  rw [h] at hread ⊢
  cases hpart : (kind.document v).part with
  | token t =>
    rw [hpart] at hread
    exact Part.endsIfCut_bare hread
  | list items ending =>
    rw [hpart, Part.read] at hread
    cases hread
  | object ms ending =>
    rw [hpart] at hread
    obtain ⟨m, key, p, name, w, rfl, rfl, hname, hw, hp⟩ := Part.exists_of_readVariant hread
    have hm : EndIfCutAt m := hn m (Nat.lt_succ_self m)
    obtain ⟨hdescribes, hfaithful⟩ := variants_of_layout h w (Variant.mem_of_find hw)
    have htagged {d : Document} (hd : kind.document v = .tagged w.name d) :
        p = d.part ∧ ending = .closed := by
      rw [hd, part_tagged] at hpart
      cases hpart
      exact ⟨rfl, rfl⟩
    obtain ⟨label, content⟩ := w
    cases content with
    | bare a =>
      obtain rfl : v = a := Part.eq_of_read_null hp
      rw [show kind.document v = .text label from hdescribes] at hpart
      cases hpart
    | value inner build =>
      obtain ⟨u, hu, rfl⟩ := map_eq_ok.1 ((Part.read_map p build inner.layout m).symm.trans hp)
      obtain ⟨rfl, rfl⟩ := htagged (hdescribes u)
      exact Part.endsIfCut_variant hname hw hp ((hm inner u hu).map build)
    | record r =>
      obtain ⟨row, hrow, rfl⟩ := map_eq_ok.1
        ((Part.read_record_map r.build r.rows m p).symm.trans hp)
      obtain ⟨rfl, rfl⟩ := htagged (hdescribes row)
      exact Part.endsIfCut_variant hname hw hp
        (.of_error (Part.refused_record (fun k hk => hn k (hk.trans (Nat.lt_succ_self m)))
          hfaithful.1 hrow))

/-- What is left of a list from which something is built. -/
theorem endsIfCut_of_items (hn : ∀ m < n, EndIfCutAt m) {inner : Kind}
    {build : List inner.Carrier → Except Fault kind.Carrier} (h : kind.layout = .items inner build)
    {v : kind.Carrier}
    (hdocument : ∀ values, build values = .ok v →
      kind.document v = .list (values.map inner.document))
    (hread : (kind.document v).part.read n kind.layout = .ok v) :
    (kind.document v).part.EndsIfCut n kind.layout := by
  rw [h] at hread ⊢
  cases hpart : (kind.document v).part with
  | token t =>
    rw [hpart, Part.read] at hread
    cases hread
  | object ms ending =>
    rw [hpart, Part.read] at hread
    cases hread
  | list items ending =>
    rw [hpart, Part.read] at hread
    obtain ⟨m, hm, hitems⟩ := bind_eq_ok.1
      (show (descend n >>= fun m => Part.readItems m inner.layout items >>= _) = _ from hread)
    obtain ⟨values, hvalues, hending⟩ := bind_eq_ok.1 hitems
    obtain ⟨_, hclosed, hbuild⟩ := bind_eq_ok.1 hending
    obtain rfl := descend_eq_ok.1 hm
    rw [hdocument values hbuild, part] at hpart
    cases hpart
    refine Part.endsIfCut_list fun p hp => ?_
    obtain ⟨u, rfl, hu⟩ := Part.read_of_readItems hvalues p hp
    exact ⟨⟨u, hu⟩, hn m (Nat.lt_succ_self m) inner u hu⟩

/-- What is left of a list that must have an element. -/
theorem endsIfCut_of_nonempty (hn : ∀ m < n, EndIfCutAt m) {inner : Kind}
    {build : List inner.Carrier → Except EmptyList kind.Carrier}
    (h : kind.layout = .nonempty inner build) {v : kind.Carrier}
    (hdocument : ∀ values, build values = .ok v →
      kind.document v = .list (values.map inner.document))
    (hread : (kind.document v).part.read n kind.layout = .ok v) :
    (kind.document v).part.EndsIfCut n kind.layout := by
  refine endsIfCut_of_items hn h (fun values hvalues => hdocument values ?_) hread
  split at hvalues
  · next a ha => rw [ha, Except.ok.inj hvalues]
  · cases hvalues

/-- **What is left of a document ends early**, whatever it is the document of. -/
theorem endIfCut (n : Nat) : EndIfCutAt n := by
  induction n using Nat.strongRecOn with
  | _ n hn =>
  intro kind
  induction kind with
  | text => exact fun s _ => Part.endsIfCut_text n s
  | flag => exact fun b _ => Part.endsIfCut_flag n b
  | long => exact fun i _ => Part.endsIfCut_long n i
  | double => exact fun x _ => Part.endsIfCut_double n x
  | maybe kind ih =>
    intro v hread
    cases v with
    | none => exact Part.endsIfCut_null n kind.layout
    | some v => exact (ih v (Part.read_of_orNull hread)).orNull
  | many kind ih =>
    intro v hread
    refine endsIfCut_of_items hn rfl (fun values h => ?_) hread
    rw [Except.ok.inj h]
    rfl
  | ident => exact fun i _ => (Part.endsIfCut_text n i.text).map Ident.mk
  | qualifiedName =>
    have hlayout : Kind.qualifiedName.layout = .nonempty .ident QualifiedName.ofParts := rfl
    exact fun v => endsIfCut_of_nonempty hn hlayout fun _ h => QualifiedName.document_eq h
  | projection =>
    have hlayout : Kind.projection.layout = .nonempty .selectItem Projection.ofItems := rfl
    exact fun v => endsIfCut_of_nonempty hn hlayout fun _ h => Projection.document_eq h
  | constant | operator | setOperator | direction | expr | relation | joinCondition | joinKind
  | selectItem | body => exact fun v => endsIfCut_of_choice hn rfl
  | call | binary | join | fromClause | select | orderItem | cte | query =>
    exact fun v hread => .of_error (refused_of_record hn rfl hread)

end Kind

/-! ## Queries -/

/-- **Texts that end too early or too late.** Let a query be read back from the text that it is
stored as. No proper beginning of that text is read, not even the empty one, and the fault is always
that the text ends. Blanks behind the text change nothing. Anything else behind it is a fault of
form. -/
theorem Query.ofJson_of_cut_or_extended (q : Query)
    (hq : (Query.ofJson q.toJson).value = .ok q) :
    (∀ t : String, t.toList <+: q.toJson.toList → t ≠ q.toJson →
      ∃ fault, (Query.ofJson t).value = .error (.undecodable fault)
        ∧ fault.category = .endOfText)
    ∧ (∀ t : String, (∀ c ∈ t.toList, isBlank c = true) →
      (Query.ofJson (q.toJson ++ t)).value = .ok q)
    ∧ ∀ t : String, (∃ c ∈ t.toList, isBlank c = false) →
      ∃ fault, (Query.ofJson (q.toJson ++ t)).value = .error (.undecodable fault)
        ∧ fault.category = .form := by
  have hread : (Query.document q).part.read maxDepth Kind.query.layout = .ok q := by
    have hstored := Query.value_ofJson_eq_ok_iff.1 hq
    rwa [Query.toJson, Kind.read_stored] at hstored
  have htext : q.toJson.toList = (Query.document q).print := String.toList_ofList
  have hextended (t : String) :
      q.toJson ++ t = String.ofList ((Query.document q).print ++ t.toList) := by
    rw [← htext, ← String.toList_append, String.ofList_toList]
  have hrefused {t : String} {fault : Fault} (h : Kind.query.read t = .error fault) :
      (Query.ofJson t).value = .error (.undecodable fault) := by
    rw [Query.value_ofJson, h]
    rfl
  refine ⟨fun t ht hne => ?cut, fun t ht => ?blanks, fun t ht => ?more⟩
  case cut =>
    rw [htext] at ht
    by_cases hempty : t = ""
    · subst hempty
      exact ⟨.endInValue, hrefused rfl, rfl⟩
    have hnil : t.toList ≠ [] := fun h => hempty (String.toList_eq_nil_iff.1 h)
    have hproper : t.toList ≠ (Query.document q).print := fun h =>
      hne (String.toList_inj.1 (h.trans htext.symm))
    obtain ⟨c, hc, houtline⟩ := Outline.exists_cut_ofText ht hnil hproper
    obtain ⟨fault, hfault, hcategory⟩ :=
      Kind.refused_of_record (fun m _ => Kind.endIfCut m) rfl hread c hc
    exact ⟨fault, hrefused ((Kind.read_eq houtline).trans hfault), hcategory⟩
  case blanks =>
    have houtline := Outline.ofText_blanks (Query.document q) ht
    rw [hextended, Query.value_ofJson_eq_ok_iff, Kind.read_eq houtline]
    exact hread
  case more =>
    obtain ⟨ms, hms⟩ : ∃ ms, Query.document q = .object ms := by
      cases q
      exact ⟨_, rfl⟩
    obtain ⟨p, rest, houtline⟩ := Outline.exists_ofText_trailing ms ht
    rw [← hms] at houtline
    refine ⟨.trailingCharacters, hrefused ?_, rfl⟩
    rw [hextended, Kind.read, Layout.read, houtline]
    show ((Query.document q).part.read maxDepth Kind.query.layout >>= _) = _
    rw [hread]
    rfl

/-- The text of `SELECT 12`: cut behind the first digit, with blanks behind it, and with a bracket
behind it. -/
theorem Query.ofJson_of_cut_or_extended_twelve :
    let q : Query := .ofBody (.select (.ofProjection (.single (.expr (.constant (.long 12))))))
    let t : String := "\x7b\"ctes\":[],\"body\":\x7b\"Select\":\x7b\"distinct\":false,"
      ++ "\"projection\":[\x7b\"UnnamedExpr\":\x7b\"Value\":\x7b\"Long\":1"
    (Query.ofJson q.toJson).value = .ok q
    ∧ (∃ fault, (Query.ofJson t).value = .error (.undecodable fault)
        ∧ fault.category = .endOfText)
    ∧ (Query.ofJson (q.toJson ++ " \n")).value = .ok q
    ∧ ∃ fault, (Query.ofJson (q.toJson ++ " \x7d")).value = .error (.undecodable fault)
        ∧ fault.category = .form := by
  intro q t
  have hq : (Query.ofJson q.toJson).value = .ok q := by
    have hleaves : q.leaves = [.constant (.long 12)] := rfl
    have hdepth : bracketDepth q.toJson ≤ 127 := by
      rw [Query.toJson, Kind.stored, bracketDepth_print]
      decide
    exact (Query.ofJson_toJson q).2.1 (by simp [hleaves]) hdepth
  obtain ⟨hcut, hblanks, hmore⟩ := Query.ofJson_of_cut_or_extended q hq
  exact ⟨hq, hcut t (by decide +kernel) (by decide +kernel), hblanks " \n" (by simp [isBlank]),
    hmore " \x7d" ⟨'\x7d', by simp, by decide⟩⟩

end SqlTree
