import Mathlib
import SqlTree.Proofs.Storage.Plain
import SqlTree.Proofs.Storage.RoundTrip

/-!
# The order of members does not matter

Reading a record goes through its members one by one and fills a row (`Part.readMember`). Two
neighbours may change places (`Part.readMember_comm`): members of two fields fill different places,
and two members of one field are refused in either order. So the members may stand in any order
(`Part.readMembers_perm`), and with `Part.toOption_read_plain` a text may be reformatted in any way.
-/

namespace SqlTree

open Json

variable {α : Type}

/-! ## Rows -/

namespace PartialRow

variable {name name' : String} {read read' : (kind : Kind) → Except Fault kind.Carrier}

theorem has_of_fill : ∀ {fs : List Field} {row row' : PartialRow fs},
    (fs.any fun f => f.name == name) = true → fill name read fs row = .ok row' →
    has name fs row' = true
  | [], _, _, hany, _ => by simp at hany
  | f :: fs, (value, rest), row', hany, h => by
    rw [fill] at h
    split at h
    · next hname =>
      obtain ⟨v, -, rfl⟩ := map_eq_ok.1 h
      rw [has, if_pos hname]
      rfl
    · next hname =>
      obtain ⟨rest', hrest, rfl⟩ := map_eq_ok.1 h
      have hany' : (fs.any fun f => f.name == name) = true := by simpa [hname] using hany
      rw [has, if_neg hname]
      exact has_of_fill hany' hrest

theorem fill_mono (hread : ∀ kind value, read kind = .ok value → read' kind = .ok value) :
    ∀ {fs : List Field} {row row' : PartialRow fs},
      fill name read fs row = .ok row' → fill name read' fs row = .ok row'
  | [], _, _, h => h
  | f :: fs, (value, rest), row', h => by
    rw [fill] at h ⊢
    split at h
    · next hname =>
      obtain ⟨v, hv, rfl⟩ := map_eq_ok.1 h
      rw [if_pos hname, hread f.kind v hv]
      rfl
    · next hname =>
      obtain ⟨rest', hrest, rfl⟩ := map_eq_ok.1 h
      rw [if_neg hname, fill_mono hread hrest]
      rfl

/-- Other fields are left as they are. -/
theorem has_fill_of_ne (hne : name ≠ name') : ∀ {fs : List Field} {row row' : PartialRow fs},
    fill name read fs row = .ok row' → has name' fs row' = has name' fs row
  | [], _, _, _ => rfl
  | f :: fs, (value, rest), row', h => by
    rw [fill] at h
    split at h
    · next hname =>
      obtain ⟨v, -, rfl⟩ := map_eq_ok.1 h
      have hname' : ¬(f.name == name') = true := by
        rw [beq_iff_eq] at *
        exact fun h => hne (hname.symm.trans h)
      rw [has, has, if_neg hname', if_neg hname']
    · obtain ⟨rest', hrest, rfl⟩ := map_eq_ok.1 h
      rw [has, has, has_fill_of_ne hne hrest]

/-- Two fields may be filled in either order. -/
theorem fill_comm (hne : name ≠ name') : ∀ {fs : List Field} {row row₁ row₂ : PartialRow fs},
    fill name read fs row = .ok row₁ → fill name' read' fs row₁ = .ok row₂ →
    ∃ row₁', fill name' read' fs row = .ok row₁' ∧ fill name read fs row₁' = .ok row₂
  | [], _, _, _, _, _ => ⟨(), rfl, rfl⟩
  | f :: fs, (value, rest), row₁, row₂, h, h' => by
    by_cases hname : (f.name == name) = true
    · have hname' : ¬(f.name == name') = true := by
        rw [beq_iff_eq] at *
        exact fun h => hne (hname.symm.trans h)
      rw [fill, if_pos hname] at h
      obtain ⟨v, hv, rfl⟩ := map_eq_ok.1 h
      rw [fill, if_neg hname'] at h'
      obtain ⟨rest', hrest, rfl⟩ := map_eq_ok.1 h'
      exact ⟨(value, rest'), by rw [fill, if_neg hname', hrest]; rfl,
        by rw [fill, if_pos hname, hv]; rfl⟩
    rw [fill, if_neg hname] at h
    obtain ⟨rest₁, hrest₁, rfl⟩ := map_eq_ok.1 h
    by_cases hname' : (f.name == name') = true
    · rw [fill, if_pos hname'] at h'
      obtain ⟨v, hv, rfl⟩ := map_eq_ok.1 h'
      exact ⟨(some v, rest), by rw [fill, if_pos hname', hv]; rfl,
        by rw [fill, if_neg hname, hrest₁]; rfl⟩
    · rw [fill, if_neg hname'] at h'
      obtain ⟨rest₂, hrest₂, rfl⟩ := map_eq_ok.1 h'
      obtain ⟨rest₁', hfirst, hsecond⟩ := fill_comm hne hrest₁ hrest₂
      exact ⟨(value, rest₁'), by rw [fill, if_neg hname', hfirst]; rfl,
        by rw [fill, if_neg hname, hsecond]; rfl⟩

end PartialRow

/-! ## Members -/

namespace Json.Part

variable {n : Nat} {fs : List Field}

/-- What a member does to a row that it is read into: it fills the field of its name, or if there
is none it is only JSON. -/
theorem readMember_eq_ok {row row' : PartialRow fs} {m : Key × Part} :
    readMember n fs row m = .ok row' ↔ ∃ name, Key.name m.1 = .ok name
      ∧ PartialRow.has name fs row = false
      ∧ (((fs.any fun f => f.name == name) = true
          ∧ row.fill name (fun kind => m.2.read n kind.layout) fs = .ok row')
        ∨ ((fs.any fun f => f.name == name) = false ∧ m.2.check = .ok () ∧ row' = row)) := by
  have hnew (name : String) :
      row.checkNew name fs = .ok () ↔ PartialRow.has name fs row = false := by
    rw [PartialRow.checkNew]
    split <;> simp_all
  have hthen (x : Except Fault Unit) (y : Except Fault (PartialRow fs)) :
      (x >>= fun _ => y) = .ok row' ↔ x = .ok () ∧ y = .ok row' := by
    cases x <;> simp [bind, Except.bind]
  rw [readMember, bind_eq_ok]
  refine exists_congr fun name => and_congr_right fun _ => ?_
  rw [hthen, hnew]
  refine and_congr_right fun _ => ?_
  cases fs.any fun f => f.name == name with
  | true => simp
  | false =>
    rw [if_neg Bool.false_ne_true, hthen]
    simp [pure, Except.pure, eq_comm]

theorem readMember_mono {row row' : PartialRow fs} {key : Key} {p p' : Part}
    (hread : ∀ (kind : Kind) (value : kind.Carrier),
      p.read n kind.layout = .ok value → p'.read n kind.layout = .ok value)
    (hcheck : p.check = .ok () → p'.check = .ok ())
    (h : readMember n fs row (key, p) = .ok row') : readMember n fs row (key, p') = .ok row' := by
  obtain ⟨name, hname, hnew, hdone⟩ := readMember_eq_ok.1 h
  refine readMember_eq_ok.2 ⟨name, hname, hnew, ?_⟩
  rcases hdone with ⟨hany, hfill⟩ | ⟨hany, hp, hrow⟩
  · exact .inl ⟨hany, PartialRow.fill_mono hread hfill⟩
  · exact .inr ⟨hany, hcheck hp, hrow⟩

/-- Two neighbours may change places. -/
theorem readMember_comm {row row₁ row₂ : PartialRow fs} {m m' : Key × Part}
    (h : readMember n fs row m = .ok row₁) (h' : readMember n fs row₁ m' = .ok row₂) :
    ∃ row₁', readMember n fs row m' = .ok row₁' ∧ readMember n fs row₁' m = .ok row₂ := by
  obtain ⟨name, hname, hnew, hdone⟩ := readMember_eq_ok.1 h
  obtain ⟨name', hname', hnew', hdone'⟩ := readMember_eq_ok.1 h'
  rcases hdone with ⟨hany, hfill⟩ | ⟨hany, hcheck, rfl⟩
  · rcases hdone' with ⟨hany', hfill'⟩ | ⟨hany', hcheck', rfl⟩
    · have hne : name ≠ name' := by
        rintro rfl
        rw [PartialRow.has_of_fill hany hfill] at hnew'
        cases hnew'
      obtain ⟨row₁', hfirst, hsecond⟩ := PartialRow.fill_comm hne hfill hfill'
      rw [PartialRow.has_fill_of_ne hne hfill] at hnew'
      rw [← PartialRow.has_fill_of_ne hne.symm hfirst] at hnew
      exact ⟨row₁', readMember_eq_ok.2 ⟨name', hname', hnew', .inl ⟨hany', hfirst⟩⟩,
        readMember_eq_ok.2 ⟨name, hname, hnew, .inl ⟨hany, hsecond⟩⟩⟩
    · have hne : name ≠ name' := by
        rintro rfl
        rw [hany] at hany'
        cases hany'
      rw [PartialRow.has_fill_of_ne hne hfill] at hnew'
      exact ⟨row, readMember_eq_ok.2 ⟨name', hname', hnew', .inr ⟨hany', hcheck', rfl⟩⟩, h⟩
  · rcases hdone' with ⟨hany', hfill'⟩ | ⟨hany', hcheck', rfl⟩
    · have hne : name' ≠ name := by
        rintro rfl
        rw [hany] at hany'
        cases hany'
      rw [← PartialRow.has_fill_of_ne hne hfill'] at hnew
      exact ⟨row₂, h', readMember_eq_ok.2 ⟨name, hname, hnew, .inr ⟨hany, hcheck, rfl⟩⟩⟩
    · exact ⟨row₂, h', h⟩

/-- **The members of a record may stand in any order.** -/
theorem readMembers_perm {r : Record α} {ending : ObjectEnding} {ms ms' : List (Key × Part)}
    (hperm : ms.Perm ms') {row : PartialRow r.fields} {a : α}
    (h : readMembers n r ending row ms = .ok a) : readMembers n r ending row ms' = .ok a := by
  induction hperm generalizing row with
  | nil => exact h
  | cons m hperm ih =>
    rw [readMembers_cons] at h ⊢
    obtain ⟨row', hm, hrest⟩ := bind_eq_ok.1 h
    exact bind_eq_ok.2 ⟨row', hm, ih hrest⟩
  | swap m m' ms =>
    simp only [readMembers_cons] at h ⊢
    obtain ⟨row₁, hm, h⟩ := bind_eq_ok.1 h
    obtain ⟨row₂, hm', hrest⟩ := bind_eq_ok.1 h
    obtain ⟨row₁', hfirst, hsecond⟩ := readMember_comm hm hm'
    exact bind_eq_ok.2 ⟨row₁', hfirst, bind_eq_ok.2 ⟨row₂, hsecond, hrest⟩⟩
  | trans h₁ h₂ ih₁ ih₂ => exact ih₂ (ih₁ h)

end Json.Part

/-! ## Values -/

namespace Json.Value

theorem memberParts_eq_map (members : List (List Nat × Value)) :
    memberParts members = members.map fun m => (some (.ofUnits m.1), m.2.part) := by
  induction members with
  | nil => rfl
  | cons m rest ih =>
    obtain ⟨name, v⟩ := m
    rw [memberParts, ih, List.map_cons]

mutual

theorem check_part : ∀ v : Value, v.part.check = .ok ()
  | .null | .boolean _ | .number _ | .text _ => rfl
  | .list items => by
    rw [part, Part.check, check_itemParts items]
    rfl
  | .object members => by
    rw [part, Part.check, check_memberParts members]
    rfl

theorem check_itemParts : ∀ items : List Value, Part.checkItems (itemParts items) = .ok ()
  | [] => rfl
  | v :: rest => by
    rw [itemParts, Part.checkItems, check_part v]
    exact check_itemParts rest

theorem check_memberParts : ∀ members : List (List Nat × Value),
    Part.checkMembers (memberParts members) = .ok ()
  | [] => rfl
  | (name, v) :: rest => by
    rw [memberParts, Part.checkMembers, check_part v]
    exact check_memberParts rest

end

/-- The only member of an object has no other order. -/
theorem rearranged_single {name : List Nat} {v : Value} {members order : List (List Nat × Value)}
    (h : RearrangedMembers [(name, v)] members) (horder : members.Perm order) :
    ∃ w, v.Rearranged w ∧ order = [(name, w)] := by
  cases h with
  | @cons _ w _ _ _ hv hrest =>
    cases hrest
    exact ⟨w, hv, List.perm_singleton.1 horder.symm⟩

mutual

/-- What is read of a value is read of it in any other order. -/
theorem read_rearranged : ∀ (v : Value) {w : Value}, v.Rearranged w → ∀ {α : Type}
    {l : Layout α} {n : Nat} {a : α}, v.part.read n l = .ok a → w.part.read n l = .ok a
  | .null, _, .null, _, _, _, _, hread => hread
  | .boolean _, _, .boolean _, _, _, _, _, hread => hread
  | .number _, _, .number _, _, _, _, _, hread => hread
  | .text _, _, .text _, _, _, _, _, hread => hread
  | .list items, _, .list h, α, l, n, a, hread => by
    rw [part, Part.read] at hread ⊢
    cases hcontent : l.list with
    | refused fault => simp [hcontent] at hread
    | items kind build =>
      rw [hcontent] at hread
      obtain ⟨m, hm, hread⟩ := bind_eq_ok.1 hread
      obtain ⟨values, hvalues, hbuild⟩ := bind_eq_ok.1 hread
      have hvalues' := readItems_rearranged items h hvalues
      exact bind_eq_ok.2 ⟨m, hm, bind_eq_ok.2 ⟨values, hvalues', hbuild⟩⟩
    | row r =>
      rw [hcontent] at hread
      obtain ⟨m, hm, hread⟩ := bind_eq_ok.1 hread
      exact bind_eq_ok.2 ⟨m, hm, readRow_rearranged items h hread⟩
  | .object members, _, .object h horder, α, l, n, a, hread => by
    rw [part, Part.read] at hread ⊢
    cases hcontent : l.object with
    | refused fault => simp [hcontent] at hread
    | members r =>
      rw [hcontent] at hread
      obtain ⟨m, hm, hread⟩ := bind_eq_ok.1 hread
      have hmembers := readMembers_rearranged members h hread
      refine bind_eq_ok.2 ⟨m, hm, Part.readMembers_perm ?_ hmembers⟩
      rw [memberParts_eq_map, memberParts_eq_map]
      exact horder.map _
    | variant vs =>
      rw [hcontent] at hread
      obtain ⟨m, hm, hread⟩ := bind_eq_ok.1 hread
      exact bind_eq_ok.2 ⟨m, hm, readVariant_rearranged members h horder hread⟩

theorem readVariant_rearranged : ∀ (members : List (List Nat × Value))
    {members' order : List (List Nat × Value)}, RearrangedMembers members members' →
    members'.Perm order → ∀ {α : Type} {n : Nat} {vs : List (Variant α)} {a : α},
    Part.readVariant n vs .closed (memberParts members) = .ok a →
      Part.readVariant n vs .closed (memberParts order) = .ok a
  | [], _, _, _, _, _, _, _, _, hread => by
    simp [memberParts, Part.readVariant] at hread
  | (name, v) :: rest, _, order, h, horder, α, n, vs, a, hread => by
    rw [memberParts, Part.readVariant] at hread
    obtain ⟨key, hkey, hread⟩ := bind_eq_ok.1 hread
    obtain ⟨found, hfound, hread⟩ := bind_eq_ok.1 hread
    obtain ⟨b, hb, hread⟩ := bind_eq_ok.1 hread
    obtain ⟨_, hend, hba⟩ := bind_eq_ok.1 hread
    obtain rfl : rest = [] := by
      cases rest with
      | nil => rfl
      | cons member rest => simp [memberParts, ObjectEnding.afterVariant] at hend
    obtain ⟨w, hw, rfl⟩ := rearranged_single h horder
    rw [memberParts, Part.readVariant]
    exact bind_eq_ok.2 ⟨key, hkey, bind_eq_ok.2 ⟨found, hfound, bind_eq_ok.2
      ⟨b, read_rearranged v hw hb, bind_eq_ok.2 ⟨(), hend, hba⟩⟩⟩⟩

theorem readItems_rearranged : ∀ (items : List Value) {items' : List Value},
    RearrangedItems items items' → ∀ {kind : Kind} {n : Nat} {values : List kind.Carrier},
    Part.readItems n kind.layout (itemParts items) = .ok values →
      Part.readItems n kind.layout (itemParts items') = .ok values
  | [], _, .nil, _, _, _, hread => hread
  | v :: rest, _, .cons h hrest, kind, n, values, hread => by
    rw [itemParts, Part.readItems] at hread ⊢
    obtain ⟨value, hvalue, hread⟩ := bind_eq_ok.1 hread
    obtain ⟨more, hmore, hvalues⟩ := bind_eq_ok.1 hread
    exact bind_eq_ok.2 ⟨value, read_rearranged v h hvalue,
      bind_eq_ok.2 ⟨more, readItems_rearranged rest hrest hmore, hvalues⟩⟩

theorem readRow_rearranged {α : Type} : ∀ (items : List Value) {items' : List Value},
    RearrangedItems items items' → ∀ {n : Nat} {title : String} {total : Nat}
    {ending : ListEnding} {present : Nat} {fs : List Field} {build : Row fs → α} {a : α},
    Part.readRow n title total ending present fs build (itemParts items) = .ok a →
      Part.readRow n title total ending present fs build (itemParts items') = .ok a
  | [], _, .nil, _, _, _, _, _, _, _, _, hread => hread
  | v :: rest, _, .cons h hrest, n, title, total, ending, present, [], build, a, hread => by
    simp [itemParts, Part.readRow] at hread
  | v :: rest, _, .cons h hrest, n, title, total, ending, present, f :: fs, build, a, hread => by
    rw [itemParts, Part.readRow] at hread ⊢
    obtain ⟨value, hvalue, hread⟩ := bind_eq_ok.1 hread
    exact bind_eq_ok.2 ⟨value, read_rearranged v h hvalue, readRow_rearranged rest hrest hread⟩

theorem readMembers_rearranged {α : Type} : ∀ (members : List (List Nat × Value))
    {members' : List (List Nat × Value)}, RearrangedMembers members members' →
    ∀ {n : Nat} {r : Record α} {ending : ObjectEnding} {row : PartialRow r.fields} {a : α},
    Part.readMembers n r ending row (memberParts members) = .ok a →
      Part.readMembers n r ending row (memberParts members') = .ok a
  | [], _, .nil, _, _, _, _, _, hread => hread
  | (name, v) :: rest, _, .cons _ h hrest, n, r, ending, row, a, hread => by
    rw [memberParts, Part.readMembers_cons] at hread ⊢
    obtain ⟨row', hrow', hread⟩ := bind_eq_ok.1 hread
    have hsame (kind : Kind) (value : kind.Carrier)
        (hvalue : v.part.read n kind.layout = .ok value) := read_rearranged v h hvalue
    exact bind_eq_ok.2 ⟨row', Part.readMember_mono hsame (fun _ => check_part _) hrow',
      readMembers_rearranged rest hrest hread⟩

end

end Json.Value

/-! ## Texts -/

theorem Json.Part.read_plain_eq_ok_iff (p : Part) {l : Layout α} (hl : l.Legible) {n : Nat}
    {a : α} : p.plain.read n l = .ok a ↔ p.read n l = .ok a := by
  rw [← toOption_eq_some, ← toOption_eq_some, p.toOption_read_plain hl]

/-- **Reading does not depend on the format of a text.** What a JSON text is read as, it is read as
with other blanks, with the members of its objects in another order and with its characters spelled
by other escapes. -/
theorem Query.ofJson_of_reformatted {text text' : String} (h : Reformatted text text') {q : Query}
    (hread : (Query.ofJson text).value = .ok q) : (Query.ofJson text').value = .ok q := by
  obtain ⟨v, w, hv, hw, hvw⟩ := h
  obtain ⟨p, hp, houtline⟩ := Outline.ofText_isText hv
  obtain ⟨p', hp', houtline'⟩ := Outline.ofText_isText hw
  have hlegible : Kind.query.layout.Legible := Kind.query.legible
  rw [Query.value_ofJson_eq_ok_iff, Kind.read_eq houtline, ← p.read_plain_eq_ok_iff hlegible, hp]
    at hread
  have hrearranged := Value.read_rearranged v hvw hread
  rwa [Query.value_ofJson_eq_ok_iff, Kind.read_eq houtline', ← p'.read_plain_eq_ok_iff hlegible,
    hp']

/-- The members in the opposite order, with blanks, and a letter as its code. -/
theorem Query.ofJson_of_reversed_members :
    ∃ q : Query,
      (Query.ofJson "\x7b\"ctes\":[],
        \"body\":\x7b\"Select\":[false,[\"Wildcard\"],null,null,[],null]\x7d,
        \"order_by\":[]\x7d").value = .ok q
      ∧ Reformatted "\x7b\"ctes\":[],
        \"body\":\x7b\"Select\":[false,[\"Wildcard\"],null,null,[],null]\x7d,
        \"order_by\":[]\x7d"
        "\x7b\"order_by\":[],
        \"body\":\x7b\"\\u0053elect\":[false,[\"Wildcard\"],null,null,[],null]\x7d,
        \"ctes\" : [ ] \x7d\n"
      ∧ (Query.ofJson "\x7b\"order_by\":[],
        \"body\":\x7b\"\\u0053elect\":[false,[\"Wildcard\"],null,null,[],null]\x7d,
        \"ctes\" : [ ] \x7d\n").value = .ok q := by
  refine ⟨.ofBody (.select (.ofProjection (.single .wildcard))), ?read, ?reformatted,
    Query.ofJson_of_reformatted ?reformatted ?read⟩
  case read => set_option maxRecDepth 4000 in cbv
  case reformatted =>
    have hselect := show Value.Spelled (.list [.boolean false, .list [.text (textUnits "Wildcard")],
        .null, .null, .list [], .null]) _ from
      .list .no (.self _) (.cons (.list (.text (.plains "Wildcard" (by simp))) (.self _) .nil)
        (.self _) (.cons .null (.self _) (.cons .null (.self _) (.cons (.noItems isBlanks_nil)
          (.self _) (.cons .null (.self _) .nil)))))
    have hname : SpelledText (textUnits "Select") _ := .plains "Select" (by simp)
    have hcode : SpelledText (textUnits "Select") ("\"\\u0053elect\"".toList) := by
      have hunits : textUnits "Select"
          = ((((0 * 16 + 0) * 16 + 5) * 16 + 3) :: "elect".toList.flatMap charUnits) := by decide
      have helect : SpelledUnits ("elect".toList.flatMap charUnits) "elect".toList :=
        .plains (by simp)
      rw [hunits]
      exact ⟨_, .unit ⟨by decide, .inl rfl⟩ ⟨by decide, .inl rfl⟩ ⟨by decide, .inl rfl⟩
        ⟨by decide, .inl rfl⟩ helect, by decide⟩
    have hmember {name : List Nat} {t body : List Char} (h : SpelledText name t) :
        SpelledMember name body (t ++ ':' :: body) := ⟨_, _, _, h, .self _, .self _, rfl⟩
    have hbody {t : List Char} (h : SpelledText (textUnits "Select") t) :=
      Value.Spelled.object hselect (hmember h) .nil
    have hline : IsBlanks "\n        ".toList := by decide
    have htext : Value.Spelled (.object _) _ :=
      .object (.noItems isBlanks_nil) (hmember (.plains "ctes" (by simp)))
        (.cons (hbody hname) ⟨_, _, _, .plains "body" (by simp), ⟨_, [], hline, isBlanks_nil, rfl⟩,
            .self _, rfl⟩
          (.cons (.noItems isBlanks_nil) ⟨_, _, _, .plains "order_by" (by simp),
            ⟨_, [], hline, isBlanks_nil, rfl⟩, .self _, rfl⟩ .nil))
    have hspace : IsBlanks [' '] := by decide
    have htext' : Value.Spelled (.object _) _ :=
      .object (.noItems isBlanks_nil) (hmember (.plains "order_by" (by simp)))
        (.cons (hbody hcode) ⟨_, _, _, .plains "body" (by simp), ⟨_, [], hline, isBlanks_nil, rfl⟩,
            .self _, rfl⟩
          (.cons (.noItems hspace) ⟨_, _, _, .plains "ctes" (by simp),
            ⟨_, _, hline, hspace, rfl⟩, ⟨_, _, hspace, hspace, rfl⟩, rfl⟩ .nil))
    refine ⟨_, _, ⟨_, htext, [], [], isBlanks_nil, isBlanks_nil, ?_⟩,
      ⟨_, htext', [], ['\n'], isBlanks_nil, by decide, ?_⟩,
      .object (Value.rearrangedMembers_refl _) (List.reverse_perm _).symm⟩
    · simp
    · simp

end SqlTree
