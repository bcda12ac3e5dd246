import SqlTree.Proofs.Json.Document
import SqlTree.Storage.Read

/-!
# Reading parts by layouts

What `Part.read` does with each way of storing, as equations: a layout that only renames its values
(`read_map`), a value or `null` (`read_orNull`), a variant with its content (`read_tagged`), a list,
and a record whose members stand in the order of its fields (`read_record`). For the last one the
members are read one after the other (`readFields`); the row that is being filled meanwhile is
followed by a `Frame`, which says where the fields that are still missing sit in it.
-/

namespace SqlTree

open Json

theorem bind_eq_ok {ε α β : Type} {x : Except ε α} {f : α → Except ε β} {b : β} :
    (x >>= f) = .ok b ↔ ∃ a, x = .ok a ∧ f a = .ok b := by
  cases x <;> simp [bind, Except.bind]

theorem map_eq_ok {ε α β : Type} {x : Except ε α} {f : α → β} {b : β} :
    x.map f = .ok b ↔ ∃ a, x = .ok a ∧ f a = b := by
  cases x <;> simp [Except.map]

theorem map_bind {ε α β γ : Type} (x : Except ε α) (f : α → Except ε β) (g : β → γ) :
    (x >>= f).map g = x >>= fun a => (f a).map g := by
  cases x <;> rfl

theorem map_comp {ε α β γ : Type} (x : Except ε α) (f : α → β) (g : β → γ) :
    x.map (g ∘ f) = (x.map f).map g := by
  cases x <;> rfl

theorem descend_eq_ok {n m : Nat} : descend n = .ok m ↔ n = m + 1 := by
  cases n <;> simp [descend]

namespace Json.Part

variable {α β : Type}

/-! ## Renamed values -/

theorem readRow_map (f : α → β) (depth : Nat) (title : String) (total : Nat) (ending : ListEnding) :
    ∀ (present : Nat) (fs : List Field) (build : Row fs → α) (items : List Part),
      readRow depth title total ending present fs (f ∘ build) items
        = (readRow depth title total ending present fs build items).map f
  | _, [], build, [] => by
    rw [readRow, readRow]
    cases ending.afterRow <;> rfl
  | _, [], _, _ :: _ => by
    rw [readRow, readRow]
    rfl
  | _, _ :: _, _, [] => by
    rw [readRow, readRow]
    rfl
  | present, g :: fs, build, item :: rest => by
    rw [readRow, readRow, map_bind]
    congr 1
    funext value
    exact readRow_map f depth title total ending (present + 1) fs
      (fun row => build (value, row)) rest

theorem readMembers_map (f : α → β) (depth : Nat) (title : String) (fs : List Field)
    (build : Row fs → α) (ending : ObjectEnding) :
    ∀ (row : PartialRow fs) (members : List (Key × Part)),
      readMembers depth ⟨title, fs, f ∘ build⟩ ending row members
        = (readMembers depth ⟨title, fs, build⟩ ending row members).map f
  | row, [] => by
    simp only [readMembers, map_bind, map_comp]
  | row, (key, value) :: rest => by
    simp only [readMembers, map_bind]
    congr 1
    funext name
    congr 1
    funext _
    split
    · simp only [map_bind, readMembers_map f depth title fs build ending _ rest]
    · simp only [map_bind, readMembers_map f depth title fs build ending _ rest]

theorem find_map (f : α → β) (vs : List (Variant α)) (name : String) :
    Variant.find (vs.map (Variant.map f)) name = (Variant.find vs name).map (Variant.map f) := by
  have hname : (fun v : Variant α => (v.map f).name == name) = fun v => v.name == name := rfl
  unfold Variant.find
  rw [List.find?_map, Function.comp_def, hname]
  cases vs.find? fun v => v.name == name with
  | none => simp [Except.map, Function.comp_def, Variant.map]
  | some v => rfl

theorem read_null_map (f : α → β) (a : α) (depth : Nat) :
    ∀ p : Part, p.read depth (.null (f a)) = (p.read depth (.null a)).map f
  | .token t => by
    rw [read, read, Layout.null, Layout.null, Layout.scalar, Layout.scalar]
    simp only
    split <;> rfl
  | .list _ _ | .object _ _ => by
    rw [read, read]
    rfl

theorem read_record_map (f : α → β) (r : Record α) (depth : Nat) :
    ∀ p : Part, p.read depth (.record (r.map f)) = (p.read depth (.record r)).map f
  | .token t => by
    rw [read, read]
    rfl
  | .list items ending => by
    simp only [read, Layout.record, map_bind, Record.map, readRow_map]
  | .object members ending => by
    simp only [read, Layout.record, map_bind, Record.map, readMembers_map]

theorem withoutVariant_map (f : α → β) (vs : List (Variant α)) (ending : ObjectEnding) :
    ending.withoutVariant (vs.map (Variant.map f)) = ending.withoutVariant vs := by
  have hnamed (key : Key) (fault : Fault) :
      ObjectEnding.withoutVariant.named (vs.map (Variant.map f)) key fault
        = ObjectEnding.withoutVariant.named vs key fault := by
    unfold ObjectEnding.withoutVariant.named
    cases Key.name key with
    | error _ => rfl
    | ok name =>
      simp only [Except.bind, find_map]
      cases Variant.find vs name <;> rfl
  cases ending <;> simp only [ObjectEnding.withoutVariant, hnamed]

/-- A layout that renames its values reads as the layout does, and then renames. -/
theorem read_map : ∀ (p : Part) {α β : Type} (f : α → β) (l : Layout α) (depth : Nat),
    p.read depth (l.map f) = (p.read depth l).map f
  | .token t, _, _, f, l, depth => by
    rw [read, read]
    rfl
  | .list items ending, _, _, f, l, depth => by
    simp only [read, Layout.map]
    cases l.list with
    | refused fault => rfl
    | items kind build => simp only [ListContent.map, map_bind]
    | row r => simp only [ListContent.map, map_bind, Record.map, readRow_map]
  | .object [] ending, _, _, f, l, depth => by
    simp only [read, Layout.map]
    cases l.object with
    | refused fault => rfl
    | members r => simp only [ObjectContent.map, map_bind, Record.map, readMembers_map]
    | variant vs =>
      simp only [ObjectContent.map, map_bind, readVariant, withoutVariant_map]
      rfl
  | .object ((key, value) :: rest) ending, α, β, f, l, depth => by
    simp only [read, Layout.map]
    cases l.object with
    | refused fault => rfl
    | members r => simp only [ObjectContent.map, map_bind, Record.map, readMembers_map]
    | variant vs =>
      simp only [ObjectContent.map, map_bind, readVariant, find_map]
      congr 1
      funext m
      congr 1
      funext name
      cases Variant.find vs name with
      | error fault => rfl
      | ok v =>
        have hvalue : value.read m (v.map f).content.layout
            = (value.read m v.content.layout).map f := by
          obtain ⟨name, content⟩ := v
          cases content with
          | bare a => exact read_null_map f a m value
          | value kind build =>
            show value.read m (kind.layout.map (f ∘ build))
              = (value.read m (kind.layout.map build)).map f
            rw [read_map value (f ∘ build), read_map value build, map_comp]
          | record r => exact read_record_map f r m value
        show (value.read m (v.map f).content.layout >>= fun b => ending.afterVariant rest >>=
            fun _ => pure b) = (value.read m v.content.layout >>= fun a =>
              ending.afterVariant rest >>= fun _ => (pure a : Except Fault α).map f)
        rw [hvalue]
        cases value.read m v.content.layout with
        | error fault => rfl
        | ok a => cases ending.afterVariant rest <;> rfl
termination_by p => sizeOf p

/-! ## A value or null -/

/-- Does a part begin like the word `null`? -/
def isNull : Part → Bool
  | .token (.word .null) | .token (.brokenWord .null _) => true
  | _ => false

/-- What does not look like `null` is read as the value itself. -/
theorem read_orNull (l : Layout α) (depth : Nat) {p : Part} (hp : p.isNull = false) :
    p.read depth l.orNull = (p.read depth l).map some := by
  have hmap : p.read depth l.orNull = p.read depth (l.map some) := by
    cases p with
    | token t =>
      rw [read, read]
      simp only [Layout.orNull, Layout.map]
      split
      · simp [isNull] at hp
      · simp [isNull] at hp
      · rfl
    | list items ending =>
      rw [read, read]
      rfl
    | object members ending =>
      rw [read, read]
      rfl
  rw [hmap, read_map]

/-! ## Lists and variants -/

theorem readItems_cons (l : Layout α) (depth : Nat) (p : Part) (ps : List Part) :
    readItems depth l (p :: ps)
      = (p.read depth l >>= fun a => readItems depth l ps >>= fun as => .ok (a, as)).map
          fun as => as.1 :: as.2 := by
  rw [readItems, map_bind]
  congr 1
  funext a
  rw [map_bind]
  rfl

theorem read_items (kind : Kind) (build : List kind.Carrier → Except Fault α) (depth : Nat)
    (ps : List Part) :
    (Part.list ps .closed).read depth (.items kind build)
      = descend depth >>= fun m => readItems m kind.layout ps >>= build := by
  rw [read]
  rfl

/-- A variant with its content is read by the layout of the content, one bracket further in. -/
theorem read_tagged {vs : List (Variant α)} {name : String} {content : Content α}
    (h : Variant.find vs name = .ok ⟨name, content⟩) (depth : Nat) (p : Part) :
    (Part.object [(some (.ofText name), p)] .closed).read depth (.choice vs)
      = descend depth >>= fun m => p.read m content.layout := by
  rw [read]
  show (descend depth >>= fun m => readVariant m vs .closed [(some (.ofText name), p)]) = _
  congr 1
  funext m
  have hname : Key.name (some (.ofText name)) = .ok name := Quoted.decode_ofText name
  rw [readVariant, hname]
  show (Variant.find vs name >>= fun v => _) = _
  rw [h]
  show (p.read m content.layout >>= fun a => Except.ok a) = _
  cases p.read m content.layout <;> rfl

/-- A variant without content is read from its name. -/
theorem read_bare {vs : List (Variant α)} {name : String} {a : α}
    (h : Variant.find vs name = .ok ⟨name, .bare a⟩) (depth : Nat) :
    (Part.token (.quoted (.ofText name))).read depth (.choice vs) = .ok a := by
  rw [read]
  show ((Quoted.ofText name).decode >>= fun name => Variant.find vs name >>= Variant.bare) = _
  rw [Quoted.decode_ofText]
  show (Variant.find vs name >>= Variant.bare) = _
  rw [h]
  rfl

end Json.Part

/-! ## Records -/

/-- A row of which the fields `gs` are still missing: where they sit among all the fields, and how a
row of all fields is made of theirs. -/
structure PartialRow.Frame (fs gs : List Field) where
  embed : PartialRow gs → PartialRow fs
  embedRow : Row gs → Row fs
  any_name : ∀ g ∈ gs, (fs.any fun f => f.name == g.name) = true
  has_embed : ∀ g ∈ gs, ∀ p, PartialRow.has g.name fs (embed p) = PartialRow.has g.name gs p
  fill_embed : ∀ g ∈ gs, ∀ read p,
    PartialRow.fill g.name read fs (embed p) = (PartialRow.fill g.name read gs p).map embed
  complete_embed : ∀ p, PartialRow.complete fs (embed p) = (PartialRow.complete gs p).map embedRow

namespace PartialRow.Frame

/-- The frame of a row without any value. -/
def self (fs : List Field) : Frame fs fs where
  embed := id
  embedRow := id
  any_name g hg := List.any_eq_true.2 ⟨g, hg, beq_self_eq_true _⟩
  has_embed _ _ _ := rfl
  fill_embed g _ read p := by
    show PartialRow.fill g.name read fs p = (PartialRow.fill g.name read fs p).map id
    cases PartialRow.fill g.name read fs p <;> rfl
  complete_embed p := by
    show PartialRow.complete fs p = (PartialRow.complete fs p).map id
    cases PartialRow.complete fs p <;> rfl

/-- The frame once the first missing field has a value. -/
def tail {fs gs : List Field} {g : Field} (frame : Frame fs (g :: gs))
    (hg : ∀ h ∈ gs, g.name ≠ h.name) (v : g.kind.Carrier) : Frame fs gs where
  embed p := frame.embed (some v, p)
  embedRow row := frame.embedRow (v, row)
  any_name h hh := frame.any_name h (List.mem_cons_of_mem g hh)
  has_embed h hh p := by
    rw [frame.has_embed h (List.mem_cons_of_mem g hh), PartialRow.has]
    simp [hg h hh]
  fill_embed h hh read p := by
    rw [frame.fill_embed h (List.mem_cons_of_mem g hh), PartialRow.fill]
    simp only [beq_iff_eq, hg h hh, if_false]
    cases PartialRow.fill h.name read gs p <;> rfl
  complete_embed p := by
    rw [frame.complete_embed, PartialRow.complete]
    show ((PartialRow.complete gs p).map fun row => (v, row)).map frame.embedRow = _
    cases PartialRow.complete gs p <;> rfl

/-- The place of the first missing field is free. -/
theorem checkNew {fs gs : List Field} {g : Field} (frame : Frame fs (g :: gs)) :
    PartialRow.checkNew g.name fs (frame.embed (.empty (g :: gs))) = .ok () := by
  have hhas : PartialRow.has g.name fs (frame.embed (.empty (g :: gs))) = false := by
    rw [frame.has_embed g List.mem_cons_self, PartialRow.empty, PartialRow.has]
    simp
  rw [PartialRow.checkNew, hhas]
  rfl

end PartialRow.Frame

namespace Json.Part

variable {α : Type}

/-- Reads one member of a record into a row. -/
def readMember (n : Nat) (fs : List Field) (row : PartialRow fs) (m : Key × Part) :
    Except Fault (PartialRow fs) := do
  let name ← Key.name m.1
  row.checkNew name fs
  if fs.any fun f => f.name == name then
    row.fill name (fun kind => m.2.read n kind.layout) fs
  else
    m.2.check
    return row

theorem readMembers_cons {n : Nat} (r : Record α) (ending : ObjectEnding)
    (row : PartialRow r.fields) (m : Key × Part) (rest : List (Key × Part)) :
    readMembers n r ending row (m :: rest)
      = readMember n r.fields row m >>= fun row => readMembers n r ending row rest := by
  obtain ⟨key, p⟩ := m
  rw [readMembers, readMember]
  simp only [bind_assoc]
  congr 1
  funext name
  congr 1
  funext _
  split
  · rfl
  · simp only [bind_assoc, pure_bind]

/-- A member that names the first missing field gives it a value. -/
theorem readMember_frame (n : Nat) {fs gs : List Field} {g : Field}
    (frame : PartialRow.Frame fs (g :: gs)) (hg : ∀ h ∈ gs, g.name ≠ h.name) (p : Part) :
    readMember n fs (frame.embed (.empty (g :: gs))) (some (.ofText g.name), p)
      = (p.read n g.kind.layout).map fun v => (frame.tail hg v).embed (.empty gs) := by
  have hmem : g ∈ g :: gs := List.mem_cons_self
  have hname : Key.name (some (.ofText g.name)) = .ok g.name := Quoted.decode_ofText g.name
  rw [readMember, hname]
  show (PartialRow.checkNew g.name fs (frame.embed (.empty (g :: gs))) >>= fun _ =>
    if (fs.any fun f => f.name == g.name) = true then
      PartialRow.fill g.name (fun kind => p.read n kind.layout) fs
        (frame.embed (.empty (g :: gs)))
    else _) = _
  rw [frame.checkNew, frame.any_name g hmem, if_pos rfl, frame.fill_embed g hmem, PartialRow.empty,
    PartialRow.fill, if_pos (beq_self_eq_true g.name)]
  show (((p.read n g.kind.layout).map fun v => _).map frame.embed) = _
  cases p.read n g.kind.layout <;> rfl

/-- Reads one part for each field, in order. -/
def readFields (depth : Nat) : (fs : List Field) → List Part → Except Fault (Row fs)
  | [], _ => .ok ()
  | f :: _, [] => .error (.missingMember f.name)
  | f :: fs, p :: ps => do
    let value ← p.read depth f.kind.layout
    let row ← readFields depth fs ps
    return (value, row)

/-- The members that name the fields in order. -/
def fieldMembers (fs : List Field) (ps : List Part) : List (Key × Part) :=
  List.zipWith (fun f p => (some (.ofText f.name), p)) fs ps

theorem readMembers_frame (depth : Nat) (title : String) {fs : List Field} (build : Row fs → α) :
    ∀ {gs : List Field} (frame : PartialRow.Frame fs gs), (gs.map Field.name).Nodup →
      ∀ ps : List Part, ps.length = gs.length →
        readMembers depth ⟨title, fs, build⟩ .closed (frame.embed (.empty gs)) (fieldMembers gs ps)
          = (readFields depth gs ps).map (build ∘ frame.embedRow)
  | [], frame, _, [], _ => by
    have hcomplete := frame.complete_embed ()
    show ((frame.embed ()).complete fs).map build = _
    rw [hcomplete]
    rfl
  | g :: gs, frame, hnodup, p :: ps, hlength => by
    have hg : ∀ h ∈ gs, g.name ≠ h.name := fun h hh heq =>
      (List.nodup_cons.1 hnodup).1 (heq ▸ List.mem_map_of_mem hh)
    rw [show fieldMembers (g :: gs) (p :: ps)
      = (some (.ofText g.name), p) :: fieldMembers gs ps from rfl, readMembers_cons,
      readMember_frame depth frame hg, readFields, map_bind]
    cases p.read depth g.kind.layout with
    | error fault => rfl
    | ok v =>
      have hrest := readMembers_frame depth title build (frame.tail hg v)
        (List.nodup_cons.1 hnodup).2 ps (Nat.succ.inj hlength)
      show readMembers depth ⟨title, fs, build⟩ .closed ((frame.tail hg v).embed (.empty gs))
        (fieldMembers gs ps) = (readFields depth gs ps >>= fun row => Except.ok (v, row)).map _
      rw [hrest]
      cases readFields depth gs ps <;> rfl

/-- A record whose members stand in the order of its fields. -/
theorem read_record (r : Record α) (hnodup : (r.fields.map Field.name).Nodup) (depth : Nat)
    (ps : List Part) (hlength : ps.length = r.fields.length) :
    (Part.object (fieldMembers r.fields ps) .closed).read depth (.record r)
      = descend depth >>= fun m => (readFields m r.fields ps).map r.build := by
  rw [read]
  show (descend depth >>= fun m =>
    readMembers m r .closed (.empty r.fields) (fieldMembers r.fields ps)) = _
  congr 1
  funext m
  exact readMembers_frame m r.title r.build (.self r.fields) hnodup ps hlength

end Json.Part

end SqlTree
