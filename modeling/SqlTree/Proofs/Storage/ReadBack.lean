import SqlTree.Proofs.Json.Depth
import SqlTree.Proofs.Storage.Read
import SqlTree.Proofs.Tree.Leaves
import SqlTree.Storage.Write

/-!
# Values that are read back

What is stored is read again with a limit on the brackets that may be opened. `ReadsBack` says how
that ends: never when the limit is below the depth, and else with the value itself, just when a
condition on it holds. The condition is that its doubles survive on their own (`Survive`).

The lemmas follow the ways of storing: a scalar, a list, a value or `null`, a record, a variant. A
type is then settled by naming its layout and what its parts do.
-/

namespace SqlTree

open Json

/-! ## Doubles on their own -/

/-- Does a double that is stored alone, as a constant, come back as it was? -/
def Double.Survives (x : Double) : Prop :=
  Kind.constant.read (Kind.constant.stored (.double x)) = .ok (.double x)

/-- Do all doubles among these leaves survive? -/
def Survive (ls : List Leaf) : Prop := ∀ x, Leaf.constant (.double x) ∈ ls → x.Survives

@[simp] theorem survive_nil : Survive [] := fun _ h => absurd h List.not_mem_nil

@[simp] theorem survive_append (ls ms : List Leaf) :
    Survive (ls ++ ms) ↔ Survive ls ∧ Survive ms := by
  constructor
  · intro h
    exact ⟨fun x hx => h x (List.mem_append_left ms hx),
      fun x hx => h x (List.mem_append_right ls hx)⟩
  · rintro ⟨hls, hms⟩ x hx
    rcases List.mem_append.1 hx with hx | hx
    · exact hls x hx
    · exact hms x hx

@[simp] theorem survive_name_cons (i : Ident) (ls : List Leaf) :
    Survive (.name i :: ls) ↔ Survive ls := by
  constructor
  · intro h x hx
    exact h x (List.mem_cons_of_mem _ hx)
  · intro h x hx
    rcases List.mem_cons.1 hx with hx | hx
    · cases hx
    · exact h x hx

@[simp] theorem survive_names (names : List Ident) : Survive (names.map .name) := by
  induction names with
  | nil => exact survive_nil
  | cons i rest ih => exact (survive_name_cons i _).2 ih

theorem survive_double (x : Double) : Survive [.constant (.double x)] ↔ x.Survives := by
  constructor
  · intro h
    exact h x (List.mem_singleton.2 rfl)
  · intro h y hy
    cases List.mem_singleton.1 hy
    exact h

/-- Leaves without a double survive. -/
theorem survive_of_no_double {ls : List Leaf} (h : ∀ x, Leaf.constant (.double x) ∉ ls) :
    Survive ls := fun x hx => absurd hx (h x)

/-! ## Readers that give a value back -/

/-- Reading, with a limit on the brackets that may be opened: it fails when the limit is below
`depth`, and else it gives `a` back just when `survives` holds. -/
structure ReadsBack {α : Type} (read : Nat → Except Fault α) (depth : Nat) (a : α)
    (survives : Prop) : Prop where
  depth_le {n : Nat} {b : α} (h : read n = .ok b) : depth ≤ n
  eq_ok_iff {n : Nat} (h : depth ≤ n) : read n = .ok a ↔ survives

namespace ReadsBack

variable {α β : Type} {read : Nat → Except Fault α} {depth : Nat} {a : α} {survives : Prop}

/-- A reader that opens no bracket and does not fail. -/
theorem always (h : ∀ n, read n = .ok a) : ReadsBack read 0 a True where
  depth_le {n _} _ := Nat.zero_le n
  eq_ok_iff {n} _ := iff_of_true (h n) trivial

theorem congr {survives' : Prop} (h : ReadsBack read depth a survives)
    (hiff : survives ↔ survives') : ReadsBack read depth a survives' where
  depth_le := h.depth_le
  eq_ok_iff hn := (h.eq_ok_iff hn).trans hiff

/-- The value is checked afterwards, and no other value would pass as the same. -/
theorem check {f : α → Except Fault β} {b : β} (h : ReadsBack read depth a survives)
    (hf : ∀ a', f a' = .ok b ↔ a' = a) :
    ReadsBack (fun n => read n >>= f) depth b survives where
  depth_le {n c} hc := by
    obtain ⟨a', ha', -⟩ := bind_eq_ok.1 hc
    exact h.depth_le ha'
  eq_ok_iff {n} hn := by
    have hbind : (read n >>= f) = .ok b ↔ read n = .ok a := by
      rw [bind_eq_ok]
      constructor
      · rintro ⟨a', ha', hb⟩
        rw [ha', (hf a').1 hb]
      · intro ha
        exact ⟨a, ha, (hf a).2 rfl⟩
    exact hbind.trans (h.eq_ok_iff hn)

/-- The value is put into something, from which it could be taken again. -/
theorem map {f : α → β} (hf : Function.Injective f) (h : ReadsBack read depth a survives) :
    ReadsBack (fun n => (read n).map f) depth (f a) survives := by
  have hcheck := h.check (f := fun a => .ok (f a)) (b := f a) fun a' => by
    constructor
    · intro ha'
      exact hf (Except.ok.inj ha')
    · rintro rfl
      rfl
  have hmap : (fun n => (read n).map f) = fun n => read n >>= fun a => .ok (f a) := by
    funext n
    cases read n <;> rfl
  rw [hmap]
  exact hcheck

/-- Two readers, one after the other. -/
theorem pair {read' : Nat → Except Fault β} {depth' : Nat} {b : β} {survives' : Prop}
    (h : ReadsBack read depth a survives) (h' : ReadsBack read' depth' b survives') :
    ReadsBack (fun n => read n >>= fun a => read' n >>= fun b => .ok (a, b)) (max depth depth')
      (a, b) (survives ∧ survives') where
  depth_le {n c} hc := by
    obtain ⟨a', ha', hc⟩ := bind_eq_ok.1 hc
    obtain ⟨b', hb', -⟩ := bind_eq_ok.1 hc
    exact Nat.max_le.2 ⟨h.depth_le ha', h'.depth_le hb'⟩
  eq_ok_iff {n} hn := by
    obtain ⟨hdepth, hdepth'⟩ := Nat.max_le.1 hn
    rw [← h.eq_ok_iff hdepth, ← h'.eq_ok_iff hdepth', bind_eq_ok]
    constructor
    · rintro ⟨a', ha', hc⟩
      obtain ⟨b', hb', hab⟩ := bind_eq_ok.1 hc
      obtain ⟨rfl, rfl⟩ := Prod.mk.inj (Except.ok.inj hab)
      exact ⟨ha', hb'⟩
    · rintro ⟨ha, hb⟩
      exact ⟨a, ha, bind_eq_ok.2 ⟨b, hb, rfl⟩⟩

/-- A reader behind a bracket. -/
theorem descend (h : ReadsBack read depth a survives) :
    ReadsBack (fun n => SqlTree.descend n >>= read) (depth + 1) a survives where
  depth_le {n b} hb := by
    obtain ⟨m, hm, hread⟩ := bind_eq_ok.1 hb
    have hle := h.depth_le hread
    rw [descend_eq_ok] at hm
    omega
  eq_ok_iff {n} hn := by
    obtain ⟨m, rfl⟩ : ∃ m, n = m + 1 := ⟨n - 1, by omega⟩
    exact h.eq_ok_iff (Nat.le_of_succ_le_succ hn)

end ReadsBack

/-! ## Documents that store a value -/

/-- The layout reads the value back from the document, if its doubles survive. -/
def Json.Document.Stores {α : Type} (d : Document) (l : Layout α) (a : α) (survives : Prop) :
    Prop := ReadsBack (fun n => d.part.read n l) d.depth a survives

/-- The document of a value stores it. -/
def Kind.Keeps (kind : Kind) (value : kind.Carrier) : Prop :=
  (kind.document value).Stores kind.layout value (Survive (kind.leaves value))

namespace Json.Document

variable {α β : Type} {d : Document} {l : Layout α} {a : α} {survives : Prop}

theorem Stores.congr {survives' : Prop} (h : d.Stores l a survives)
    (hiff : survives ↔ survives') : d.Stores l a survives' := ReadsBack.congr h hiff

theorem Stores.map {f : α → β} (hf : Function.Injective f) (h : d.Stores l a survives) :
    d.Stores (l.map f) (f a) survives := by
  have hread : (fun n => d.part.read n (l.map f)) = fun n => (d.part.read n l).map f := by
    funext n
    exact Part.read_map d.part f l n
  rw [Stores, hread]
  exact ReadsBack.map hf h

/-! ## Scalars -/

theorem stores_text (s : String) : (text s).Stores .text s True :=
  .always fun n => by
    rw [part, Part.read]
    exact Quoted.decode_ofText s

theorem stores_flag (b : Bool) : (boolean b).Stores .flag b True :=
  .always fun n => by
    rw [part, Part.read]
    rfl

theorem token_long (i : Int64) : Layout.long.token (.number (toString i.toInt).toList) = .ok i := by
  have hmin : Int64.minValue.toInt ≤ i.toInt := i.minValue_le_toInt
  have hmax : i.toInt ≤ Int64.maxValue.toInt := i.toInt_le
  have hint := Numeral.integer?_ofText_toString (n := i.toInt) hmin (by
    have : Int64.maxValue.toInt = 2 ^ 63 - 1 := rfl
    omega)
  simp only [Layout.long, Layout.scalar, hint]
  rw [if_pos ⟨hmin, hmax⟩, Int64.ofInt_toInt]

theorem stores_long (i : Int64) : (integer i.toInt).Stores .long i True :=
  .always fun n => by
    rw [part, Part.read]
    exact token_long i

theorem stores_double_token (x : Double) :
    (double x).Stores .double x (Layout.double.token x.token = .ok x) where
  depth_le {n _} _ := Nat.zero_le n
  eq_ok_iff {n} _ := by
    rw [part, Part.read]

/-! ## Lists -/

theorem readsBack_items {kind : Kind} :
    ∀ {values : List kind.Carrier}, (∀ v ∈ values, kind.Keeps v) →
      ReadsBack (fun n => Part.readItems n kind.layout (itemParts (values.map kind.document)))
        (itemsDepth (values.map kind.document)) values (Survive (values.flatMap kind.leaves))
  | [], _ => ReadsBack.congr (.always fun n => by rw [List.map_nil, itemParts, Part.readItems])
      (iff_of_true trivial survive_nil)
  | v :: rest, h => by
    have hv := h v List.mem_cons_self
    have hrest := readsBack_items fun w hw => h w (List.mem_cons_of_mem v hw)
    have hcons : Function.Injective fun p : kind.Carrier × List kind.Carrier => p.1 :: p.2 := by
      rintro ⟨v, vs⟩ ⟨w, ws⟩ heq
      obtain ⟨rfl, rfl⟩ := List.cons.inj heq
      rfl
    simp only [List.map_cons, itemParts, Part.readItems_cons, List.flatMap_cons]
    exact ReadsBack.congr ((ReadsBack.pair hv hrest).map hcons) (survive_append _ _).symm

/-- A list from which something is built that no other list would give. -/
theorem stores_list {kind : Kind} {build : List kind.Carrier → Except Fault α}
    {values : List kind.Carrier} (h : ∀ v ∈ values, kind.Keeps v)
    (hbuild : ∀ values', build values' = .ok a ↔ values' = values) :
    (list (values.map kind.document)).Stores (.items kind build) a
      (Survive (values.flatMap kind.leaves)) := by
  have hread := ((readsBack_items h).check hbuild).descend
  rw [Stores, part, depth]
  simp only [Part.read_items]
  exact hread

/-- A list that must have an element. -/
theorem stores_nonempty (kind : Kind) {build : List kind.Carrier → Except EmptyList α}
    {values : List kind.Carrier} (h : ∀ v ∈ values, kind.Keeps v)
    (hbuild : ∀ values', build values' = .ok a ↔ values' = values) :
    (list (values.map kind.document)).Stores (.nonempty kind build) a
      (Survive (values.flatMap kind.leaves)) := by
  refine stores_list h fun values' => ?_
  rw [← hbuild values']
  cases build values' <;> simp

/-! ## A value or null -/

theorem stores_none (l : Layout α) : Document.null.Stores l.orNull none True :=
  .always fun n => by
    rw [part, Part.read]
    rfl

theorem stores_some (hd : d.part.isNull = false) (h : d.Stores l a survives) :
    d.Stores l.orNull (some a) survives := by
  have hsome : Function.Injective (some : α → Option α) := fun _ _ => Option.some.inj
  rw [Stores]
  simp only [Part.read_orNull l _ hd]
  exact ReadsBack.map hsome h

/-! ## Variants -/

theorem stores_bare {vs : List (Variant α)} {name : String}
    (h : Variant.find vs name = .ok ⟨name, .bare a⟩) :
    (text name).Stores (.choice vs) a (Survive []) := by
  refine ReadsBack.congr (.always fun n => ?_) (iff_of_true trivial survive_nil)
  rw [part]
  exact Part.read_bare h n

theorem stores_tagged {vs : List (Variant α)} {name : String} {content : Content α}
    (hname : Variant.find vs name = .ok ⟨name, content⟩) (h : d.Stores content.layout a survives) :
    (tagged name d).Stores (.choice vs) a survives := by
  have hread := ReadsBack.descend h
  rw [Stores, depth_tagged, part_tagged]
  simp only [Part.read_tagged hname]
  exact hread

/-- A variant that holds one value. -/
theorem stores_variant (vs : List (Variant α)) (name : String) {kind : Kind}
    (build : kind.Carrier → α) {value : kind.Carrier}
    (hname : Variant.find vs name = .ok ⟨name, .value kind build⟩)
    (hbuild : Function.Injective build) (h : kind.Keeps value) :
    (tagged name (kind.document value)).Stores (.choice vs) (build value)
      (Survive (kind.leaves value)) :=
  stores_tagged hname (h.map hbuild)

end Json.Document

/-! ## Records -/

namespace Row

/-- The members that store the values of a row. -/
def members : (fs : List Field) → Row fs → List (String × Document)
  | [], _ => []
  | f :: fs, (value, row) => (f.name, f.kind.document value) :: members fs row

/-- The parts that stand for the values of a row. -/
def parts : (fs : List Field) → Row fs → List Part
  | [], _ => []
  | f :: fs, (value, row) => (f.kind.document value).part :: parts fs row

/-- The leaves of the values of a row. -/
def leaves : (fs : List Field) → Row fs → List Leaf
  | [], _ => []
  | f :: fs, (value, row) => f.kind.leaves value ++ leaves fs row

/-- The documents of all values of a row store them. -/
def Keeps : (fs : List Field) → Row fs → Prop
  | [], _ => True
  | f :: fs, (value, row) => f.kind.Keeps value ∧ Keeps fs row

theorem length_parts : ∀ (fs : List Field) (row : Row fs), (parts fs row).length = fs.length
  | [], _ => rfl
  | _ :: fs, (_, row) => congrArg (· + 1) (length_parts fs row)

theorem memberParts_members : ∀ (fs : List Field) (row : Row fs),
    Document.memberParts (members fs row) = Part.fieldMembers fs (parts fs row)
  | [], _ => rfl
  | f :: fs, (value, row) => by
    rw [members, Document.memberParts, memberParts_members fs row, parts]
    rfl

theorem readsBack_parts : ∀ {fs : List Field} {row : Row fs}, Keeps fs row →
    ReadsBack (fun n => Part.readFields n fs (parts fs row))
      (Document.membersDepth (members fs row)) row (Survive (leaves fs row))
  | [], _, _ => ReadsBack.congr (.always fun n => rfl) (iff_of_true trivial survive_nil)
  | f :: fs, (value, row), ⟨hvalue, hrow⟩ => by
    have hpair := ReadsBack.pair hvalue (readsBack_parts hrow)
    exact ReadsBack.congr hpair (survive_append _ _).symm

end Row

/-- A record that is built of values which their documents store. -/
theorem Json.Document.stores_record {α : Type} {d : Document} (r : Record α) (row : Row r.fields)
    {survives : Prop} (hd : d = .object (Row.members r.fields row))
    (hnames : (r.fields.map Field.name).Nodup) (hbuild : Function.Injective r.build)
    (h : Row.Keeps r.fields row) (hleaves : Survive (Row.leaves r.fields row) ↔ survives) :
    d.Stores (.record r) (r.build row) survives := by
  have hread := ((Row.readsBack_parts h).map hbuild).descend
  have hlength := Row.length_parts r.fields row
  rw [hd, Stores, part, depth, Row.memberParts_members]
  simp only [Part.read_record r hnames _ _ hlength]
  exact hread.congr hleaves

/-- A variant that holds a record. -/
theorem Json.Document.stores_fields {α : Type} {d : Document} (vs : List (Variant α))
    (name : String) {r : Record α} {survives : Prop}
    (hname : Variant.find vs name = .ok ⟨name, .record r⟩)
    (row : Row r.fields) (hd : d = .object (Row.members r.fields row))
    (hnames : (r.fields.map Field.name).Nodup) (hbuild : Function.Injective r.build)
    (h : Row.Keeps r.fields row) (hleaves : Survive (Row.leaves r.fields row) ↔ survives) :
    (tagged name d).Stores (.choice vs) (r.build row) survives :=
  stores_tagged hname (stores_record r row hd hnames hbuild h hleaves)

/-! ## Texts -/

/-- A text with one part as its outline is read as that part is. -/
theorem Kind.read_eq {kind : Kind} {text : String} {p : Part} (h : Outline.ofText text = [p]) :
    kind.read text = p.read maxDepth kind.layout := by
  rw [Kind.read, Layout.read, h]
  show (p.read maxDepth kind.layout >>= fun a => Except.ok a) = _
  cases p.read maxDepth kind.layout <;> rfl

/-- A text is read just if its outline is one part, and that part is read. -/
theorem Kind.read_eq_ok_iff {kind : Kind} {text : String} {value : kind.Carrier} :
    kind.read text = .ok value
      ↔ ∃ p, Outline.ofText text = [p] ∧ p.read maxDepth kind.layout = .ok value := by
  constructor
  · intro h
    rw [Kind.read, Layout.read] at h
    split at h
    · cases h
    · next p rest houtline =>
      obtain ⟨a, ha, h⟩ := bind_eq_ok.1 h
      split at h
      · next hrest =>
        cases h
        exact ⟨p, by rw [houtline, List.isEmpty_iff.1 hrest], ha⟩
      · cases h
  · rintro ⟨p, houtline, hread⟩
    rw [Kind.read_eq houtline, hread]

theorem Kind.read_print (kind : Kind) (d : Document) :
    kind.read (String.ofList d.print) = d.part.read maxDepth kind.layout :=
  Kind.read_eq (Outline.ofText_print d)

theorem Kind.read_stored (kind : Kind) (value : kind.Carrier) :
    kind.read (kind.stored value) = (kind.document value).part.read maxDepth kind.layout :=
  kind.read_print (kind.document value)

/-- A value that its document stores is read from its text, if the text is not nested too deep and
its doubles survive. -/
theorem Kind.read_stored_eq_ok_iff {kind : Kind} {value : kind.Carrier} (h : kind.Keeps value) :
    kind.read (kind.stored value) = .ok value
      ↔ bracketDepth (kind.stored value) ≤ maxDepth ∧ Survive (kind.leaves value) := by
  rw [Kind.read_stored, Kind.stored, bracketDepth_print]
  constructor
  · intro hread
    have hdepth := h.depth_le hread
    exact ⟨hdepth, (h.eq_ok_iff hdepth).1 hread⟩
  · rintro ⟨hdepth, hsurvive⟩
    exact (h.eq_ok_iff hdepth).2 hsurvive

end SqlTree
