import SqlTree.Proofs.Json.Spelling
import SqlTree.Proofs.Storage.Read

/-!
# The spelling of characters does not matter

A part is read just as its plain form is (`Part.toOption_read_plain`): what is read depends on the
units of quoted texts only, not on the escapes that spell them. Faults may differ, so results are
compared as options.

For a layout this is a matter of its tokens (`Layout.Legible`), and every kind has such a layout: a
quoted text is either decoded or refused.
-/

namespace SqlTree

open Json

variable {α β : Type}

/-! ## Results without faults -/

theorem toOption_bind {ε : Type} (x : Except ε α) (f : α → Except ε β) :
    (x >>= f).toOption = x.toOption.bind fun a => (f a).toOption := by
  cases x <;> rfl

theorem toOption_map {ε : Type} (x : Except ε α) (f : α → β) :
    (x.map f).toOption = x.toOption.map f := by
  cases x <;> rfl

theorem toOption_eq_some {ε : Type} {x : Except ε α} {a : α} :
    x.toOption = some a ↔ x = .ok a := by
  cases x <;> simp [Except.toOption]

/-! ## Quoted texts -/

namespace Json.Quoted

/-- The characters that units stand for, if each surrogate has its partner. -/
def decodeUnits : List Nat → Option (List Char)
  | [] => some []
  | u :: rest =>
    if isLow u then none
    else if isHigh u then
      match rest with
      | low :: rest => if isLow low then (decodeUnits rest).map (pair u low :: ·) else none
      | [] => none
    else (decodeUnits rest).map (Char.ofNat u :: ·)

theorem decodeUnits_low {u : Nat} (hlow : isLow u = true) (us : List Nat) :
    decodeUnits (u :: us) = none := by
  rw [decodeUnits.eq_def]
  simp [hlow]

theorem decodeUnits_single {u : Nat} (hlow : isLow u = false) (hhigh : isHigh u = false)
    (us : List Nat) : decodeUnits (u :: us) = (decodeUnits us).map (Char.ofNat u :: ·) := by
  rw [decodeUnits.eq_def]
  simp [hlow, hhigh]

theorem decodeUnits_pair {high low : Nat} (hhigh : isHigh high = true) (hlow : isLow low = true)
    (us : List Nat) :
    decodeUnits (high :: low :: us) = (decodeUnits us).map (pair high low :: ·) := by
  have hnot : isLow high = false := by
    simp only [isHigh, isLow, decide_eq_true_eq, decide_eq_false_iff_not] at *
    omega
  rw [decodeUnits.eq_def]
  simp [hhigh, hlow, hnot]

/-- A high surrogate needs a low one behind it. -/
theorem decodeUnits_unpaired {high : Nat} (hhigh : isHigh high = true) {us : List Nat}
    (h : ∀ u ∈ us.head?, isLow u = false) : decodeUnits (high :: us) = none := by
  rw [decodeUnits.eq_def]
  cases us with
  | nil => simp [hhigh]
  | cons u rest => simp [hhigh, h u rfl]

/-- The units of a character begin with no low surrogate. -/
theorem isLow_head_charUnits (c : Char) (us : List Nat) :
    ∀ u ∈ (charUnits c ++ us).head?, isLow u = false := by
  have hvalid : c.toNat < 0xD800 ∨ (0xDFFF < c.toNat ∧ c.toNat < 0x110000) := c.valid
  intro u hu
  simp only [isLow, decide_eq_false_iff_not]
  unfold charUnits at hu
  split at hu
  · obtain rfl : c.toNat = u := by simpa using hu
    omega
  · obtain rfl : 0xD800 + (c.toNat - 0x10000) / 0x400 = u := by simpa using hu
    omega

theorem decodeUnits_charUnits (c : Char) (us : List Nat) :
    decodeUnits (charUnits c ++ us) = (decodeUnits us).map (c :: ·) := by
  have hvalid : c.toNat < 0xD800 ∨ (0xDFFF < c.toNat ∧ c.toNat < 0x110000) := c.valid
  unfold charUnits
  split
  · have hlow : isLow c.toNat = false := by simp [isLow]; omega
    have hhigh : isHigh c.toNat = false := by simp [isHigh]; omega
    rw [List.singleton_append, decodeUnits_single hlow hhigh, Char.ofNat_toNat]
  · generalize hn : c.toNat - 0x10000 = n
    have hhigh : isHigh (0xD800 + n / 0x400) = true := by simp [isHigh]; omega
    have hlow : isLow (0xDC00 + n % 0x400) = true := by simp [isLow]; omega
    have hpair : pair (0xD800 + n / 0x400) (0xDC00 + n % 0x400) = c := by
      have hcode : 0x10000 + (0xD800 + n / 0x400 - 0xD800) * 0x400
          + (0xDC00 + n % 0x400 - 0xDC00) = c.toNat := by omega
      rw [pair, hcode, Char.ofNat_toNat]
    rw [List.cons_append, List.singleton_append, decodeUnits_pair hhigh hlow, hpair]

/-- Pieces denote what their units stand for, and only before a closing quote. -/
theorem toOption_decodePieces (ending : Ending) (ps : List Piece) :
    (decodePieces ending ps).toOption
      = ending.check.toOption.bind fun _ => decodeUnits (ps.flatMap Piece.units) := by
  have hmap (x : Option Unit) (y : Option (List Char)) (f : List Char → List Char) :
      (x.bind fun _ => y).map f = x.bind fun _ => y.map f := by
    cases x <;> rfl
  have hnone (x : Option Unit) : (none : Option (List Char)) = x.bind fun _ => none := by
    cases x <;> rfl
  fun_induction decodePieces ending ps with
  | case1 => cases ending <;> rfl
  | case2 c rest ih =>
    simp only [toOption_map, ih, List.flatMap_cons, Piece.units, decodeUnits_charUnits, hmap]
  | case3 code rest hlow =>
    simp only [List.flatMap_cons, Piece.units, List.singleton_append, decodeUnits_low hlow]
    exact hnone _
  | case4 code _ hhigh low rest hlow ih =>
    simp only [toOption_map, ih, List.flatMap_cons, Piece.units, List.singleton_append,
      decodeUnits_pair hhigh hlow, hmap]
  | case5 code _ hhigh low rest hlow =>
    have hhead : ∀ u ∈ (low :: rest.flatMap Piece.units).head?, isLow u = false := by
      simpa using hlow
    simp only [List.flatMap_cons, Piece.units, List.singleton_append,
      decodeUnits_unpaired hhigh hhead]
    exact hnone _
  | case6 code _ hhigh c rest =>
    have hhead := isLow_head_charUnits c (rest.flatMap Piece.units)
    simp only [List.flatMap_cons, Piece.units, List.singleton_append,
      decodeUnits_unpaired hhigh hhead]
    exact hnone _
  | case7 code _ hhigh =>
    have hhead : ∀ u ∈ ([] : List Nat).head?, isLow u = false := by simp
    simp only [List.flatMap_cons, List.flatMap_nil, Piece.units, List.singleton_append,
      decodeUnits_unpaired hhigh hhead]
    exact hnone _
  | case8 code rest hlow hhigh ih =>
    simp only [Bool.not_eq_true] at hlow hhigh
    simp only [toOption_map, ih, List.flatMap_cons, Piece.units, List.singleton_append,
      decodeUnits_single hlow hhigh, hmap]

theorem units_plain (q : Quoted) : q.plain.units = q.units := by
  rw [units, plain, List.flatMap_map]
  simp [Piece.units]

theorem toOption_decode (q : Quoted) :
    q.decode.toOption
      = (q.ending.check.toOption.bind fun _ => decodeUnits q.units).map String.ofList := by
  rw [decode, toOption_map, toOption_decodePieces]
  rfl

/-- A quoted text denotes what its units stand for, however they are spelled. -/
theorem toOption_decode_plain (q : Quoted) : q.plain.decode.toOption = q.decode.toOption := by
  rw [toOption_decode, toOption_decode, units_plain]
  rfl

end Json.Quoted

theorem Json.Key.toOption_name_plain (key : Key) :
    (Key.name (key.map Quoted.plain)).toOption = (Key.name key).toOption := by
  cases key with
  | none => rfl
  | some q => exact q.toOption_decode_plain

theorem Json.Key.check_plain (key : Key) : Key.check (key.map Quoted.plain) = Key.check key := by
  cases key <;> rfl

/-! ## Layouts -/

/-- A quoted text is read as its plain form is. -/
def Layout.Legible (l : Layout α) : Prop :=
  ∀ q : Quoted, (l.token (.quoted q.plain)).toOption = (l.token (.quoted q)).toOption

theorem Layout.legible_text : Layout.text.Legible := Quoted.toOption_decode_plain

theorem Layout.legible_choice (vs : List (Variant α)) : (Layout.choice vs).Legible := fun q => by
  show (q.plain.decode >>= fun name => Variant.find vs name >>= Variant.bare).toOption
    = (q.decode >>= fun name => Variant.find vs name >>= Variant.bare).toOption
  rw [toOption_bind, toOption_bind, q.toOption_decode_plain]

namespace Layout.Legible

variable {l : Layout α}

theorem map (h : l.Legible) (f : α → β) : (l.map f).Legible := fun q => by
  show ((l.token (.quoted q.plain)).map f).toOption = ((l.token (.quoted q)).map f).toOption
  rw [toOption_map, toOption_map, h q]

theorem orNull (h : l.Legible) : l.orNull.Legible := h.map some

end Layout.Legible

theorem Kind.legible : ∀ kind : Kind, kind.layout.Legible
  | .text => Layout.legible_text
  | .ident => Layout.legible_text.map Ident.mk
  | .maybe kind => (Kind.legible kind).orNull
  | .constant => Layout.legible_choice Constant.variants
  | .operator => Layout.legible_choice Operator.variants
  | .setOperator => Layout.legible_choice SetOperator.variants
  | .direction => Layout.legible_choice Direction.variants
  | .expr => Layout.legible_choice Expr.variants
  | .relation => Layout.legible_choice Relation.variants
  | .joinCondition => Layout.legible_choice JoinCondition.variants
  | .joinKind => Layout.legible_choice JoinKind.variants
  | .selectItem => Layout.legible_choice SelectItem.variants
  | .body => Layout.legible_choice Body.variants
  -- scalars of another form, lists and records refuse every quoted text
  | .flag | .long | .double | .many _ | .qualifiedName | .call | .binary | .join | .fromClause
  | .projection | .select | .orderItem | .cte | .query => fun _ => rfl

theorem Content.legible (c : Content α) : c.layout.Legible := by
  cases c with
  | bare a => exact fun _ => rfl
  | value kind build => exact (Kind.legible kind).map build
  | record r => exact fun _ => rfl

/-! ## Parts -/

theorem PartialRow.toOption_fill {name : String}
    {read read' : (kind : Kind) → Except Fault kind.Carrier}
    (h : ∀ kind, (read kind).toOption = (read' kind).toOption) :
    ∀ (fs : List Field) (row : PartialRow fs),
      (fill name read fs row).toOption = (fill name read' fs row).toOption
  | [], _ => rfl
  | f :: fs, (value, rest) => by
    rw [fill, fill]
    split
    · rw [toOption_map, toOption_map, h]
    · rw [toOption_map, toOption_map, toOption_fill h fs rest]

namespace Json.Part

mutual

theorem check_plain : ∀ p : Part, p.plain.check = p.check
  | .token (.quoted q) => rfl
  | .token (.opening _) | .token (.closing _) | .token .comma | .token .colon | .token (.word _)
  | .token (.number _) | .token (.brokenWord _ _) | .token (.brokenNumber _) | .token .stray => rfl
  | .list items ending => by
    rw [plain, check, check, checkItems_plain items]
  | .object members ending => by
    rw [plain, check, check, checkMembers_plain members]

theorem checkItems_plain : ∀ ps : List Part, checkItems (plainItems ps) = checkItems ps
  | [] => rfl
  | p :: rest => by
    rw [plainItems, checkItems, checkItems, check_plain p, checkItems_plain rest]

theorem checkMembers_plain :
    ∀ ms : List (Key × Part), checkMembers (plainMembers ms) = checkMembers ms
  | [] => rfl
  | (key, p) :: rest => by
    rw [plainMembers, checkMembers, checkMembers, Key.check_plain, check_plain p,
      checkMembers_plain rest]

end

mutual

/-- **A part is read as its plain form is.** -/
theorem toOption_read_plain : ∀ (p : Part) {α : Type} {l : Layout α}, l.Legible → ∀ n : Nat,
    (p.plain.read n l).toOption = (p.read n l).toOption
  | .token t, _, l, hl, n => by
    rw [plain, read, read]
    cases t with
    | quoted q => exact hl q
    | _ => rfl
  | .list items ending, _, l, hl, n => by
    rw [plain, read, read]
    cases l.list with
    | refused fault => rfl
    | items kind build => simp only [toOption_bind, toOption_readItems_plain items kind]
    | row r => simp only [toOption_bind, toOption_readRow_plain items]
  | .object members ending, α, l, hl, n => by
    rw [plain, read, read]
    cases l.object with
    | refused fault => rfl
    | members r => simp only [toOption_bind, toOption_readMembers_plain members]
    | variant vs =>
      cases members with
      | nil => rfl
      | cons member rest =>
        obtain ⟨key, p⟩ := member
        have hp (m : Nat) (v : Variant α) :
            (p.plain.read m v.content.layout).toOption = (p.read m v.content.layout).toOption :=
          toOption_read_plain p (Content.legible v.content) m
        have hrest : ending.afterVariant (plainMembers rest) = ending.afterVariant rest := by
          cases rest <;> rfl
        simp only [plainMembers, readVariant, toOption_bind, Key.toOption_name_plain, hp, hrest]

theorem toOption_readItems_plain : ∀ (ps : List Part) (kind : Kind) (n : Nat),
    (readItems n kind.layout (plainItems ps)).toOption = (readItems n kind.layout ps).toOption
  | [], _, _ => rfl
  | p :: rest, kind, n => by
    rw [plainItems, readItems, readItems]
    simp only [toOption_bind, toOption_read_plain p (Kind.legible kind),
      toOption_readItems_plain rest kind]

theorem toOption_readRow_plain {α : Type} : ∀ (ps : List Part) {n : Nat} {title : String}
    {total : Nat} {ending : ListEnding} {present : Nat} {fs : List Field} {build : Row fs → α},
    (readRow n title total ending present fs build (plainItems ps)).toOption
      = (readRow n title total ending present fs build ps).toOption
  | [], _, _, _, _, _, _, _ => rfl
  | p :: rest, _, _, _, _, _, [], _ => rfl
  | p :: rest, n, title, total, ending, present, f :: fs, build => by
    rw [plainItems, readRow, readRow]
    simp only [toOption_bind, toOption_read_plain p (Kind.legible f.kind),
      toOption_readRow_plain rest]

theorem toOption_readMembers_plain {α : Type} : ∀ (ms : List (Key × Part)) {n : Nat}
    {r : Record α} {ending : ObjectEnding} {row : PartialRow r.fields},
    (readMembers n r ending row (plainMembers ms)).toOption
      = (readMembers n r ending row ms).toOption
  | [], _, _, _, _ => rfl
  | (key, p) :: rest, n, r, ending, row => by
    have hread (kind : Kind) :
        (p.plain.read n kind.layout).toOption = (p.read n kind.layout).toOption :=
      toOption_read_plain p (Kind.legible kind) n
    rw [plainMembers, readMembers, readMembers]
    simp only [toOption_bind, Key.toOption_name_plain]
    congr 1
    funext name
    congr 1
    funext _
    split
    · simp only [toOption_bind, PartialRow.toOption_fill hread,
        toOption_readMembers_plain rest]
    · simp only [toOption_bind, check_plain, toOption_readMembers_plain rest]

end

end Json.Part

end SqlTree
