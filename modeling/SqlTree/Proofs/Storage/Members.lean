import SqlTree.Proofs.Storage.Reorder
import SqlTree.Proofs.Storage.Slots

/-!
# Members that are missing, repeated or unknown

What becomes of a stored tree when the members of one of its objects are changed. Members are read
one by one into a row, so it is enough to know what one member does to a row: a missing one leaves a
hole in it (`PartialRow.complete_of_fill`), a repeated one finds its place taken
(`Part.readMembers_repeated`), and an unknown one leaves no trace (`Part.readMembers_unknown`).

The object may stand at any depth. `Kind.Records` says which objects there are, and a `Context`
where one stands.
-/

namespace SqlTree

open Json Document

variable {α : Type}

/-! ## Rows -/

theorem any_name_eq_true {name : String} {fs : List Field} :
    (fs.any fun f => f.name == name) = true ↔ name ∈ fs.map Field.name := by
  simp

theorem Row.map_fst_members : ∀ (fs : List Field) (row : Row fs),
    (members fs row).map Prod.fst = fs.map Field.name
  | [], _ => rfl
  | f :: fs, (value, row) => by
    rw [members, List.map_cons, map_fst_members fs row, List.map_cons]

namespace PartialRow

/-- A row is complete without one of its values just when that value may be left out. -/
theorem complete_of_fill {f : Field} {read : (kind : Kind) → Except Fault kind.Carrier}
    {v : f.kind.Carrier} : ∀ {fs : List Field} (i : Row.Hole f fs) {row row' : PartialRow fs},
      (fs.map Field.name).Nodup → has f.name fs row = false →
      fill f.name read fs row = .ok row' → complete fs row' = .ok (i.fill v) →
      complete fs row = match f.kind.leftOut with
        | some u => .ok (i.fill u)
        | none => .error (.missingMember f.name)
  | _ :: fs, .here after, (value, rest), row', _, hnew, hfill, h => by
    have hvalue : value = none := by simpa [has] using hnew
    rw [fill, if_pos (beq_self_eq_true f.name)] at hfill
    obtain ⟨w, -, rfl⟩ := map_eq_ok.1 hfill
    obtain ⟨row, hrest, hrow⟩ := map_eq_ok.1 (show (complete fs rest).map (fun row => (w, row))
      = .ok (v, after) from h)
    obtain ⟨rfl, rfl⟩ := Prod.mk.inj hrow
    rw [complete, hvalue]
    show (match f.kind.leftOut with
      | some v => (complete fs rest).map fun row => (v, row)
      | none => .error (.missingMember f.name)) = _
    cases f.kind.leftOut with
    | none => rfl
    | some u =>
      show (complete fs rest).map (fun row => (u, row)) = _
      rw [hrest]
      rfl
  | g :: fs, .there x rest, (value, tail), row', hnames, hnew, hfill, h => by
    obtain ⟨hg, hnames⟩ := List.nodup_cons.1 hnames
    have hne : ¬(g.name == f.name) = true := by
      rw [beq_iff_eq]
      exact fun heq => hg (heq ▸ List.mem_map_of_mem rest.mem)
    rw [has, if_neg hne] at hnew
    rw [fill, if_neg hne] at hfill
    obtain ⟨tail', htail, rfl⟩ := map_eq_ok.1 hfill
    rw [complete] at h ⊢
    cases hvalue : value <|> g.kind.leftOut with
    | none =>
      rw [hvalue] at h
      cases h
    | some w =>
      rw [hvalue] at h
      obtain ⟨row, hrow, heq⟩ := map_eq_ok.1 h
      obtain ⟨rfl, rfl⟩ := Prod.mk.inj heq
      show (complete fs tail).map (fun row => (w, row)) = _
      rw [complete_of_fill rest hnames hnew htail hrow]
      cases f.kind.leftOut <;> rfl

/-- A name that belongs to no field is never taken. -/
theorem has_of_unknown {name : String} : ∀ {fs : List Field} (row : PartialRow fs),
    (fs.any fun f => f.name == name) = false → has name fs row = false
  | [], _, _ => rfl
  | f :: fs, (value, rest), hunknown => by
    obtain ⟨hf, hfs⟩ := Bool.or_eq_false_iff.1 hunknown
    rw [has, if_neg (Bool.eq_false_iff.1 hf)]
    exact has_of_unknown rest hfs

end PartialRow

/-! ## Members -/

namespace Json.Part

variable {n : Nat} {r : Record α} {ending : ObjectEnding}

theorem readMembers_append (ms' : List (Key × Part)) :
    ∀ (ms : List (Key × Part)) (row : PartialRow r.fields),
      readMembers n r ending row (ms ++ ms')
        = ms.foldlM (readMember n r.fields) row >>= fun row => readMembers n r ending row ms'
  | [], row => rfl
  | m :: ms, row => by
    rw [List.cons_append, readMembers_cons, List.foldlM_cons, bind_assoc]
    congr 1
    funext row'
    exact readMembers_append ms' ms row'

/-- The row without the values of one member. -/
theorem readMembers_without {f : Field} (i : Row.Hole f r.fields) {v : f.kind.Carrier}
    (hr : r.Faithful) {key : Key} {p : Part} (hkey : Key.name key = .ok f.name)
    {ms ms' : List (Key × Part)} {row : PartialRow r.fields}
    (h : readMembers n r .closed row (ms ++ (key, p) :: ms') = .ok (r.build (i.fill v))) :
    readMembers n r .closed row (ms ++ ms')
      = match f.kind.leftOut with
        | some u => .ok (r.build (i.fill u))
        | none => .error (.missingMember f.name) := by
  -- the member may as well stand behind all others
  have hperm : (ms ++ (key, p) :: ms').Perm ((ms ++ ms') ++ [(key, p)]) :=
    List.perm_middle.trans (List.perm_append_singleton _ _).symm
  have hlast := readMembers_perm hperm h
  rw [readMembers_append] at hlast
  obtain ⟨row₁, hothers, hlast⟩ := bind_eq_ok.1 hlast
  rw [readMembers_cons] at hlast
  obtain ⟨row₂, hmember, hlast⟩ := bind_eq_ok.1 hlast
  obtain ⟨whole, hwhole, hbuild⟩ := map_eq_ok.1 (show (row₂.complete r.fields).map r.build
    = .ok (r.build (i.fill v)) from hlast)
  obtain rfl := hr.2 hbuild
  obtain ⟨name, hname, hnew, hfilled⟩ := readMember_eq_ok.1 hmember
  obtain rfl : f.name = name := Except.ok.inj (hkey.symm.trans hname)
  have hknown : (r.fields.any fun g => g.name == f.name) = true :=
    List.any_eq_true.2 ⟨f, i.mem, beq_self_eq_true f.name⟩
  rcases hfilled with ⟨-, hfill⟩ | ⟨hunknown, -, -⟩
  · have hothers' : readMembers n r .closed row (ms ++ ms' ++ []) = _ :=
      readMembers_append [] (ms ++ ms') row
    rw [List.append_nil, hothers] at hothers'
    rw [hothers']
    show (row₁.complete r.fields).map r.build = _
    rw [PartialRow.complete_of_fill i hr.1 hnew hfill hwhole]
    cases f.kind.leftOut <;> rfl
  · rw [hknown] at hunknown
    cases hunknown

/-- A value once read keeps its place taken. -/
theorem has_of_readMember {name : String} {fs : List Field} {row row' : PartialRow fs}
    {m : Key × Part} (h : readMember n fs row m = .ok row')
    (hrow : PartialRow.has name fs row = true) : PartialRow.has name fs row' = true := by
  obtain ⟨name', -, hnew, hdone⟩ := readMember_eq_ok.1 h
  rcases hdone with ⟨-, hfill⟩ | ⟨-, -, rfl⟩
  · have hne : name' ≠ name := by
      rintro rfl
      rw [hrow] at hnew
      cases hnew
    rwa [PartialRow.has_fill_of_ne hne hfill]
  · exact hrow

theorem has_of_readAll {name : String} {fs : List Field}
    (hknown : (fs.any fun f => f.name == name) = true) :
    ∀ {ms : List (Key × Part)} {row row' : PartialRow fs},
      ms.foldlM (readMember n fs) row = .ok row' →
      (PartialRow.has name fs row = true ∨ ∃ m ∈ ms, Key.name m.1 = .ok name) →
      PartialRow.has name fs row' = true
  | [], row, row', h, hname => by
    obtain rfl : row = row' := Except.ok.inj h
    exact hname.resolve_right (by simp)
  | m :: ms, row, row', h, hname => by
    rw [List.foldlM_cons] at h
    obtain ⟨row₁, hm, h⟩ := bind_eq_ok.1 h
    refine has_of_readAll hknown h ?_
    rcases hname with hrow | ⟨m', hmem, hm'⟩
    · exact .inl (has_of_readMember hm hrow)
    rcases List.mem_cons.1 hmem with rfl | hmem
    · obtain ⟨name', hname', -, hdone⟩ := readMember_eq_ok.1 hm
      obtain rfl : name = name' := Except.ok.inj (hm'.symm.trans hname')
      rcases hdone with ⟨hany, hfill⟩ | ⟨hany, -, -⟩
      · exact .inl (PartialRow.has_of_fill hany hfill)
      · rw [hknown] at hany
        cases hany
    · exact .inr ⟨m', hmem, hm'⟩

/-- A second member of one name is a fault, whatever its value is. -/
theorem readMembers_repeated {name : String}
    (hknown : (r.fields.any fun f => f.name == name) = true) {key : Key} {p : Part}
    (hkey : Key.name key = .ok name) {ms ms' : List (Key × Part)}
    (hfirst : ∃ m ∈ ms, Key.name m.1 = .ok name) {row : PartialRow r.fields} {a : α}
    (h : readMembers n r ending row (ms ++ ms') = .ok a) :
    readMembers n r ending row (ms ++ (key, p) :: ms') = .error (.repeatedMember name) := by
  rw [readMembers_append] at h ⊢
  obtain ⟨row₁, hms, -⟩ := bind_eq_ok.1 h
  have htaken := has_of_readAll hknown hms (.inr hfirst)
  rw [hms]
  show readMembers n r ending row₁ ((key, p) :: ms') = _
  rw [readMembers, hkey]
  show (row₁.checkNew name r.fields >>= fun _ => _) = _
  rw [PartialRow.checkNew, htaken]
  rfl

/-- A member of another name leaves no trace. -/
theorem readMembers_unknown {name : String}
    (hunknown : (r.fields.any fun f => f.name == name) = false) {key : Key} {p : Part}
    (hkey : Key.name key = .ok name) (hp : p.check = .ok ()) {ms ms' : List (Key × Part)}
    {row : PartialRow r.fields} {a : α} (h : readMembers n r ending row (ms ++ ms') = .ok a) :
    readMembers n r ending row (ms ++ (key, p) :: ms') = .ok a := by
  rw [readMembers_append] at h ⊢
  obtain ⟨row₁, hms, hrest⟩ := bind_eq_ok.1 h
  have hmember : readMember n r.fields row₁ (key, p) = .ok row₁ :=
    readMember_eq_ok.2 ⟨name, hkey, PartialRow.has_of_unknown row₁ hunknown,
      .inr ⟨hunknown, hp, rfl⟩⟩
  rw [hms]
  show readMembers n r ending row₁ ((key, p) :: ms') = _
  rw [readMembers_cons, hmember]
  exact hrest

end Json.Part

/-! ## Texts -/

theorem Json.Quoted.decodeUnits_flatMap (cs : List Char) :
    decodeUnits (cs.flatMap charUnits) = some cs := by
  induction cs with
  | nil => rfl
  | cons c rest ih => rw [List.flatMap_cons, decodeUnits_charUnits, ih, Option.map_some]

/-- A key that spells a name denotes it. -/
theorem Json.Key.name_of_plain {q : Quoted} {name : String}
    (hq : q.plain = .ofUnits (textUnits name)) : Key.name (some q) = .ok name := by
  have hunits : q.units = textUnits name := by
    rw [← q.units_plain, hq, Quoted.units, Quoted.ofUnits, List.flatMap_map]
    simp [Piece.units]
  have hending : q.ending = .closed := congrArg Quoted.ending hq
  have hdecode := q.toOption_decode
  rw [hending, hunits, textUnits, Quoted.decodeUnits_flatMap] at hdecode
  have hsome : q.decode.toOption = some (String.ofList name.toList) := hdecode
  rwa [String.ofList_toList, toOption_eq_some] at hsome

/-- The text of a document with an object of these members at some place. -/
def Json.objectText (start : List Char) (members : List (List Char)) (stop : List Char) : String :=
  String.ofList (start ++ (('\x7b' :: (commas members ++ ['\x7d'])) ++ stop))

/-- Where the object of a record stands in the text of a query, and how the query is read when it
has other members. -/
theorem Context.exists_members {kind : Kind} {r : Record kind.Carrier} (hr : kind.Records r)
    (K : Context kind .query) {row : Row r.fields}
    (hq : (Query.ofJson (K.fill (r.build row)).toJson).value = .ok (K.fill (r.build row))) :
    ∃ (start stop : List Char) (n : Nat),
      (∀ row', (K.fill (r.build row')).toJson
        = objectText start (printMembers (Row.members r.fields row')) stop)
      ∧ Part.readMembers n r.rows .closed (.empty r.fields)
          (memberParts (Row.members r.fields row)) = .ok row
      ∧ ∀ (texts : List (List Char)) (ms : List (Quoted × Part)),
          List.Forall₂ Outline.Adds texts (ms.map Part.ofMember) →
          (Query.ofJson (objectText start texts stop)).value
            = ((Part.readMembers n r.rows .closed (.empty r.fields)
                (ms.map fun m => (some m.1, m.2))).map fun row => K.fill (r.build row)).mapError
                .undecodable := by
  obtain ⟨h, hK⟩ := K.hasSlot
  obtain ⟨k, hrow⟩ := hr.exists_slot
  have hslot := hK.comp hrow
  have hread : (Kind.query.document (K.fill (r.build row))).part.read maxDepth Kind.query.layout
      = .ok (K.fill (r.build row)) := by
    rw [← Kind.read_stored]
    exact Query.value_ofJson_eq_ok_iff.1 hq
  obtain ⟨m, hobject, hsurround⟩ := hslot.read_fill hread
  have hmembers (m : Nat) (ms : List (Key × Part)) :
      (Part.object ms .closed).read m r.storage.layout = descend m >>= fun n =>
        Part.readMembers n r.rows .closed (.empty r.fields) ms := by
    rw [Part.read]
    rfl
  have hwhole : (Part.object (memberParts (Row.members r.fields row)) .closed).read m
      r.storage.layout = .ok row := by
    rw [← part]
    exact hobject
  rw [hmembers] at hwhole
  obtain ⟨n, hm, hwhole⟩ := bind_eq_ok.1 hwhole
  refine ⟨(h.comp k).start, (h.comp k).stop, n, fun row' => ?_, hwhole, fun texts ms hms => ?_⟩
  · have hdocument : Query.document (K.fill (r.build row'))
        = (h.comp k).fill (.object (Row.members r.fields row')) := hslot.document_fill row'
    rw [Query.toJson, Kind.stored, objectText]
    show String.ofList (Query.document (K.fill (r.build row'))).print = _
    rw [hdocument, Hole.print_fill, print]
  · have hadds := (Outline.Adds.commas hms).object
    have houtline := Outline.ofText_around (h.comp k) hadds
    rw [Query.value_ofJson, objectText, Kind.read_eq houtline]
    congr 1
    have hfill := hsurround (.object (ms.map fun m => (some m.1, m.2)) .closed) rfl
    rw [hmembers, hm] at hfill
    exact hfill

theorem Json.Document.exists_memberPart {name : String} {ms : List (String × Document)}
    (h : name ∈ ms.map Prod.fst) : ∃ m ∈ memberParts ms, Key.name m.1 = .ok name := by
  induction ms with
  | nil => cases h
  | cons m rest ih =>
    rcases List.mem_cons.1 h with rfl | h
    · exact ⟨_, List.mem_cons_self, Quoted.decode_ofText m.1⟩
    · obtain ⟨m', hm', hname⟩ := ih h
      exact ⟨m', List.mem_cons_of_mem _ hm', hname⟩

/-- The members of the texts of an object into which a member is inserted. -/
theorem Json.Outline.adds_inserted {earlier later : List (String × Document)} {t : List Char}
    {q : Quoted} {p : Part} (ht : Outline.Adds t (Part.ofMember (q, p))) :
    List.Forall₂ Outline.Adds (printMembers earlier ++ t :: printMembers later)
      ((Outline.namedParts earlier ++ (q, p) :: Outline.namedParts later).map Part.ofMember) := by
  rw [List.map_append, List.map_cons]
  exact List.rel_append (Outline.adds_printMembers earlier)
    (.cons ht (Outline.adds_printMembers later))

/-- **Missing, repeated and unknown members.** Let `r` be one of the records of a stored query that
is read back, at any depth. Without a member that may not be left out the text is refused, and
without another member it is read as the query whose member is absent. With a second member of a
name the text is refused, whatever its value is and wherever it stands behind the first. With a
member of an unknown name it is read as before, whatever its value is and wherever it stands. -/
theorem Query.ofJson_of_changed_members {kind : Kind} {r : Record kind.Carrier}
    (hr : kind.Records r) (K : Context kind .query) (row : Row r.fields)
    (hq : (Query.ofJson (K.fill (r.build row)).toJson).value = .ok (K.fill (r.build row))) :
    ∃ start stop : List Char,
      (∀ row', (K.fill (r.build row')).toJson
        = objectText start (printMembers (Row.members r.fields row')) stop)
      ∧ (∀ (f : Field) (i : Row.Hole f r.fields) (v : f.kind.Carrier), i.fill v = row →
          (∀ inner, f.kind ≠ .maybe inner) →
          ∃ fault, (Query.ofJson
            (objectText start (printMembers (i.before ++ i.after)) stop)).value
              = .error (.undecodable fault) ∧ fault.category = .shape)
      ∧ (∀ (name : String) (inner : Kind) (i : Row.Hole ⟨name, .maybe inner⟩ r.fields)
          (v : Option inner.Carrier), i.fill v = row →
          (Query.ofJson (objectText start (printMembers (i.before ++ i.after)) stop)).value
            = .ok (K.fill (r.build (i.fill none))))
      ∧ ∀ earlier later, Row.members r.fields row = earlier ++ later →
          ∀ (name : String) (v : Value) (body t : List Char), v.Spelled body →
          SpelledMember (textUnits name) body t →
          (name ∈ earlier.map Prod.fst →
            ∃ fault, (Query.ofJson
              (objectText start (printMembers earlier ++ t :: printMembers later) stop)).value
                = .error (.undecodable fault) ∧ fault.category = .shape)
          ∧ (name ∉ r.fields.map Field.name →
            (Query.ofJson
              (objectText start (printMembers earlier ++ t :: printMembers later) stop)).value
                = .ok (K.fill (r.build row))) := by
  obtain ⟨start, stop, n, htext, hwhole, hread⟩ := K.exists_members hr hq
  have hfaithful : r.rows.Faithful := ⟨hr.faithful.1, fun _ _ h => h⟩
  have hwithout {f : Field} (i : Row.Hole f r.fields) (v : f.kind.Carrier)
      (hi : i.fill v = row) :
      (Query.ofJson (objectText start (printMembers (i.before ++ i.after)) stop)).value
        = ((match f.kind.leftOut with
            | some u => .ok (i.fill u)
            | none => .error (.missingMember f.name) : Except Fault (Row r.fields)).map
              fun row => K.fill (r.build row)).mapError .undecodable := by
    have hall := hwhole
    rw [← hi, i.members_fill, memberParts_append, memberParts] at hall
    have hkey : Key.name (some (.ofText f.name)) = .ok f.name := Quoted.decode_ofText f.name
    have hrest := @Part.readMembers_without _ n r.rows f i v hfaithful _ _ hkey _ _ _ hall
    rw [hread _ _ (Outline.adds_printMembers _), Outline.map_namedParts, memberParts_append, hrest]
    rfl
  refine ⟨start, stop, htext, ?missing, ?absent, ?_⟩
  case missing =>
    intro f i v hi hf
    have hneeded : f.kind.leftOut = none := by
      cases hkind : f.kind with
      | maybe inner => exact absurd hkind (hf inner)
      | _ => rfl
    refine ⟨.missingMember f.name, ?_, rfl⟩
    rw [hwithout i v hi, hneeded]
    rfl
  case absent =>
    intro name inner i v hi
    exact hwithout i v hi
  intro earlier later hmembers name v body t hv ht
  rw [hmembers, memberParts_append] at hwhole
  obtain ⟨p, hp, hadds⟩ := Outline.adds_spelled v hv
  obtain ⟨q, hq, hadds⟩ := hadds.member ht
  have hkey := Key.name_of_plain hq
  have hcheck : p.check = .ok () := by
    rw [← p.check_plain, hp, v.check_part]
  rw [hread _ _ (Outline.adds_inserted hadds), List.map_append, List.map_cons,
    Outline.map_namedParts, Outline.map_namedParts]
  constructor
  · intro hname
    have hknown : (r.rows.fields.any fun f => f.name == name) = true := by
      rw [any_name_eq_true]
      show name ∈ r.fields.map Field.name
      rw [← Row.map_fst_members r.fields row, hmembers, List.map_append]
      exact List.mem_append_left _ hname
    refine ⟨.repeatedMember name, ?_, rfl⟩
    rw [Part.readMembers_repeated hknown hkey (exists_memberPart hname) hwhole]
    rfl
  · intro hname
    have hunknown : (r.rows.fields.any fun f => f.name == name) = false := by
      rw [← Bool.not_eq_true, any_name_eq_true]
      exact hname
    rw [Part.readMembers_unknown hunknown hkey hcheck hwhole]
    rfl

/-- A `SELECT` without its flag, without its condition, with its flag twice and with an unknown
member that comes first. -/
theorem Query.ofJson_of_changed_select :
    let K : Context .select .query :=
      .within (.body (.ofBody (.select (.ofProjection (.single .wildcard)))))
        (.within .selectBody .here)
    let row : Row Select.record.fields :=
      (false, .single .wildcard, none, some (.identifier ⟨"a"⟩), [], none, ())
    let condition : Row.Hole ⟨"selection", .maybe .expr⟩ Select.record.fields :=
      .there false (.there (.single .wildcard) (.there none (.here ([], none, ()))))
    (Query.ofJson (K.fill (Select.record.build row)).toJson).value
        = .ok (K.fill (Select.record.build row))
    ∧ ∃ start stop : List Char,
      (K.fill (Select.record.build row)).toJson
        = objectText start (printMembers (Row.members Select.record.fields row)) stop
      ∧ (∃ fault, (Query.ofJson (objectText start
          (printMembers (Row.members Select.record.fields row).tail) stop)).value
            = .error (.undecodable fault) ∧ fault.category = .shape)
      ∧ (Query.ofJson (objectText start
          (printMembers (condition.before ++ condition.after)) stop)).value
            = .ok (K.fill (Select.record.build (condition.fill none)))
      ∧ (∃ fault, (Query.ofJson (objectText start
          (printMembers (Row.members Select.record.fields row) ++ ["\"distinct\":null".toList])
            stop)).value = .error (.undecodable fault) ∧ fault.category = .shape)
      ∧ (Query.ofJson (objectText start
          ("\"x\":[ ]".toList :: printMembers (Row.members Select.record.fields row)) stop)).value
            = .ok (K.fill (Select.record.build row)) := by
  intro K row condition
  have hq : (Query.ofJson (K.fill (Select.record.build row)).toJson).value
      = .ok (K.fill (Select.record.build row)) := by
    have hleaves : (K.fill (Select.record.build row)).leaves = [.name ⟨"a"⟩] := rfl
    have hdepth : bracketDepth (K.fill (Select.record.build row)).toJson ≤ 127 := by
      rw [Query.toJson, Kind.stored, bracketDepth_print]
      decide
    exact (Query.ofJson_toJson _).2.1 (by simp [hleaves]) hdepth
  obtain ⟨start, stop, htext, hmissing, habsent, hinserted⟩ :=
    Query.ofJson_of_changed_members (.own rfl : Kind.Records .select Select.record) K row hq
  have hspace : IsBlanks [' '] := by decide
  have htwice := hinserted (Row.members Select.record.fields row) [] (List.append_nil _).symm
    "distinct" .null _ _ .null ⟨_, _, _, .plains "distinct" (by simp), .self _, .self _, rfl⟩
  have hunknown := hinserted [] (Row.members Select.record.fields row) rfl "x" (.list []) _ _
    (.noItems hspace) ⟨_, _, _, .plains "x" (by simp), .self _, .self _, rfl⟩
  exact ⟨hq, start, stop, htext row,
    hmissing ⟨"distinct", .flag⟩ (.here row.2) false rfl (fun _ h => by cases h),
    habsent "selection" .expr condition (some (.identifier ⟨"a"⟩)) rfl,
    htwice.1 List.mem_cons_self, hunknown.2 (by decide)⟩

end SqlTree
