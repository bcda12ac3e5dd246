import SqlTree.Proofs.Sql.Flow

/-!
# Parentheses balance and lists stay apart

A reader of SQL that knows nothing but quotes and parentheses is a `Spot`: is it in a literal, and
how many parentheses are open. Where no name and no raw text has a parenthesis, a comma or a quote
in it, the SQL of every node brings such a reader back to where it was, never closes a parenthesis
that it has not opened (`IsBalanced`), and shows it no comma outside of parentheses unless its kind
may (`Kind.commas`). So the items of a list are found again by cutting the list at its commas.
-/

namespace SqlTree

open Template

/-! ## Reading quotes and parentheses -/

/-- Where a reader stands that counts parentheses outside of literals. A doubled quote closes its
literal and opens it again. -/
structure Spot where
  quoted : Bool
  depth : Nat
  deriving DecidableEq

namespace Spot

/-- Outside of literals, in so many parentheses. -/
def within (depth : Nat) : Spot := ⟨false, depth⟩

def step (s : Spot) (c : Char) : Spot :=
  if c = '\x27' then { s with quoted := !s.quoted }
  else if s.quoted then s
  else if c = '(' then { s with depth := s.depth + 1 }
  else if c = ')' then { s with depth := s.depth - 1 }
  else s

def run (s : Spot) (cs : List Char) : Spot := cs.foldl step s

/-- The characters outside of literals. -/
def bare (s : Spot) : List Char → List Char
  | [] => []
  | c :: rest =>
    if s.quoted ∨ c = '\x27' then bare (s.step c) rest else c :: bare (s.step c) rest

/-- The text cut at every comma that stands outside of literals and of parentheses. -/
def cut (s : Spot) : List Char → List (List Char)
  | [] => [[]]
  | c :: rest =>
    if c = ',' ∧ s = within 0 then [] :: cut (s.step c) rest
    else (cut (s.step c) rest).modifyHead (c :: ·)

theorem run_append (s : Spot) (cs ds : List Char) : s.run (cs ++ ds) = (s.run cs).run ds :=
  List.foldl_append

theorem bare_append (s : Spot) (cs ds : List Char) :
    s.bare (cs ++ ds) = s.bare cs ++ (s.run cs).bare ds := by
  induction cs generalizing s with
  | nil => rfl
  | cons c cs ih =>
    rw [List.cons_append, bare, bare, ih]
    split <;> rfl

/-- Is a scan at this place in a literal? Behind a quote that may close it, it is not. -/
def isQuoted : Piece.Place → Bool
  | .inside _ => true
  | .outside | .behindQuote _ => false

/-- The characters outside of literals are those that a scan leaves there. -/
theorem count_outside_scan (a : Char) (cs : List Char) {place : Piece.Place} {s : Spot}
    (h : s.quoted = isQuoted place) :
    (Piece.outside (Piece.scan place cs)).count (some a) = (s.bare cs).count a := by
  induction cs generalizing place s with
  | nil => cases place <;> rfl
  | cons c rest ih =>
    have hquote : (s.step '\x27').quoted = !s.quoted := rfl
    have hother (hc : c ≠ '\x27') : (s.step c).quoted = s.quoted := by
      rw [step, if_neg hc]
      split
      · rfl
      split
      · rfl
      split <;> rfl
    cases place with
    | inside contents =>
      rw [bare, if_pos (.inl h), Piece.scan]
      split
      · next hc =>
        subst hc
        exact ih (by rw [hquote, h]; rfl)
      · next hc => exact ih (by rw [hother hc, h]; rfl)
    | outside | behindQuote _ =>
      by_cases hc : c = '\x27'
      · subst hc
        rw [Piece.scan, if_pos rfl, bare, if_pos (.inr rfl)]
        exact ih (by rw [hquote, h]; rfl)
      · have hbare : ¬(s.quoted = true ∨ c = '\x27') := by
          simp [h, isQuoted, hc]
        have hrest := @ih .outside (s.step c) (by simp [hother hc, h, isQuoted])
        rw [Piece.scan, if_neg hc, bare, if_neg hbare, List.count_cons, ← hrest]
        simp [Piece.outside, List.count_cons]

end Spot

/-! ## Balance -/

/-- A list with as many closing parentheses as opening ones, and never more of them at the
beginning. -/
def IsBalanced (cs : List Char) : Prop :=
  (∀ ds, ds <+: cs → ds.count ')' ≤ ds.count '(') ∧ cs.count ')' = cs.count '('

namespace IsBalanced

variable {cs ds : List Char}

theorem plain (h : ∀ c ∈ cs, c ≠ '(' ∧ c ≠ ')') : IsBalanced cs := by
  have hclosing : ')' ∉ cs := fun hmem => (h _ hmem).2 rfl
  have hopening : '(' ∉ cs := fun hmem => (h _ hmem).1 rfl
  refine ⟨fun es hes => ?_, ?_⟩
  · rw [List.count_eq_zero.2 fun hmem => hclosing (hes.subset hmem)]
    exact Nat.zero_le _
  · rw [List.count_eq_zero.2 hclosing, List.count_eq_zero.2 hopening]

theorem append (h : IsBalanced cs) (h' : IsBalanced ds) : IsBalanced (cs ++ ds) := by
  obtain ⟨hnever, htotal⟩ := h
  obtain ⟨hnever', htotal'⟩ := h'
  refine ⟨fun es ⟨rest, hes⟩ => ?_, ?_⟩
  · rcases List.append_eq_append_iff.1 hes with ⟨fs, hcs, -⟩ | ⟨fs, rfl, hds⟩
    · exact hnever es ⟨fs, hcs.symm⟩
    · have hbehind := hnever' fs ⟨rest, hds.symm⟩
      rw [List.count_append, List.count_append]
      omega
  · rw [List.count_append, List.count_append, htotal, htotal']

/-- A balanced list in parentheses. -/
theorem parens (h : IsBalanced cs) : IsBalanced ('(' :: (cs ++ [')'])) := by
  obtain ⟨hnever, htotal⟩ := h
  refine ⟨fun es hes => ?_, ?_⟩
  · rcases List.prefix_cons_iff.1 hes with rfl | ⟨fs, rfl, hfs⟩
    · exact Nat.zero_le _
    rcases List.prefix_concat_iff.1 hfs with rfl | hfs
    · simp [List.count_append, htotal]
    · have hinside := hnever fs hfs
      simp
      omega
  · simp [List.count_append, htotal]

end IsBalanced

/-! ## Texts that leave a reader where it was -/

namespace Spot

/-- No comma of the text separates for a reader that comes from here. -/
def Uncut (s : Spot) (t : List Char) : Prop :=
  ∀ rest, s.cut (t ++ rest) = ((s.run t).cut rest).modifyHead (t ++ ·)

variable {s : Spot} {c : Char} {t u : List Char}

theorem uncut_nil : s.Uncut [] := by
  intro rest
  show s.cut rest = (s.cut rest).modifyHead _
  cases s.cut rest <;> rfl

theorem Uncut.append (ht : s.Uncut t) (hu : (s.run t).Uncut u) : s.Uncut (t ++ u) := by
  intro rest
  rw [List.append_assoc, ht, hu, run_append]
  cases ((s.run t).run u).cut rest <;> simp

theorem uncut_char (h : c = ',' → s ≠ within 0) : s.Uncut [c] := by
  intro rest
  rw [List.singleton_append, cut, if_neg]
  · rfl
  · rintro ⟨hc, hs⟩
    exact h hc hs

theorem bare_char (hs : s.quoted = false) (hc : c ≠ '\x27') : s.bare [c] = [c] := by
  rw [bare, if_neg]
  · rfl
  · simp [hs, hc]

theorem step_plain (h : c ∉ ['(', ')', '\x27']) (s : Spot) : s.step c = s := by
  simp only [List.mem_cons, List.not_mem_nil, or_false, not_or] at h
  obtain ⟨hopening, hclosing, hquote⟩ := h
  simp [step, hopening, hclosing, hquote]

end Spot

/-- A text in which a reader finds nothing but balanced parentheses, and no comma outside of them
unless `commas` is set. -/
structure Encloses (commas : Bool) (t : List Char) : Prop where
  returns : ∀ d, (Spot.within d).run t = .within d
  balanced : ∀ d, IsBalanced ((Spot.within d).bare t)
  uncut : ∀ d, (commas = true → 0 < d) → (Spot.within d).Uncut t

/-- A character that a reader takes no notice of. -/
def IsFree (c : Char) : Prop := c ∉ ['(', ')', ',', '\x27']

instance (c : Char) : Decidable (IsFree c) := inferInstanceAs (Decidable (_ ∉ _))

theorem IsSolid.isFree {c : Char} (h : IsSolid c) : IsFree c := by
  intro hmem
  refine h.2 ?_
  simp only [List.mem_cons, List.not_mem_nil, or_false] at hmem ⊢
  rcases hmem with rfl | rfl | rfl | rfl <;> simp

namespace Encloses

variable {commas : Bool} {s t : List Char}

theorem nil : Encloses commas [] where
  returns _ := rfl
  balanced _ := .plain (by simp [Spot.bare])
  uncut _ _ := Spot.uncut_nil

theorem append (hs : Encloses commas s) (ht : Encloses commas t) : Encloses commas (s ++ t) where
  returns d := by rw [Spot.run_append, hs.returns, ht.returns]
  balanced d := by
    rw [Spot.bare_append, hs.returns]
    exact (hs.balanced d).append (ht.balanced d)
  uncut d hd := by
    refine (hs.uncut d hd).append ?_
    rw [hs.returns]
    exact ht.uncut d hd

/-- A character other than quotes and parentheses. -/
theorem char {c : Char} (h : c ∉ ['(', ')', '\x27']) (hcomma : c = ',' → commas = true) :
    Encloses commas [c] where
  returns _ := Spot.step_plain h _
  balanced d := by
    have hne : c ≠ '(' ∧ c ≠ ')' ∧ c ≠ '\x27' := by simpa using h
    rw [Spot.bare_char rfl hne.2.2]
    refine .plain fun a ha => ?_
    obtain rfl := List.mem_singleton.1 ha
    exact ⟨hne.1, hne.2.1⟩
  uncut d hd := by
    refine Spot.uncut_char fun hc heq => ?_
    have hpos := hd (hcomma hc)
    cases heq
    exact absurd hpos (Nat.lt_irrefl 0)

theorem chars (h : ∀ c ∈ t, c ∉ ['(', ')', '\x27'] ∧ (c = ',' → commas = true)) :
    Encloses commas t := by
  induction t with
  | nil => exact .nil
  | cons c rest ih =>
    obtain ⟨hc, hcomma⟩ := h c List.mem_cons_self
    have hrest := ih fun d hd => h d (List.mem_cons_of_mem c hd)
    exact (char hc hcomma).append hrest

theorem free (h : ∀ c ∈ t, IsFree c) : Encloses commas t := by
  refine chars fun c hc => ?_
  have hne : c ≠ '(' ∧ c ≠ ')' ∧ c ≠ ',' ∧ c ≠ '\x27' := by simpa [IsFree] using h c hc
  exact ⟨by simp [hne], fun hcomma => absurd hcomma hne.2.2.1⟩

/-- In parentheses there may be commas. -/
theorem parens (h : Encloses true t) : Encloses commas (['('] ++ t ++ [')']) where
  returns d := by
    have hopening : (Spot.within d).run ['('] = .within (d + 1) := rfl
    rw [Spot.run_append, Spot.run_append, hopening, h.returns]
    rfl
  balanced d := by
    have hopening : (Spot.within d).run ['('] = .within (d + 1) := rfl
    rw [Spot.bare_append, Spot.bare_append, Spot.run_append, hopening, h.returns,
      Spot.bare_char rfl (by decide), Spot.bare_char rfl (by decide)]
    exact (h.balanced (d + 1)).parens
  uncut d _ := by
    have hopening : (Spot.within d).run ['('] = .within (d + 1) := rfl
    refine .append (.append (Spot.uncut_char (by simp)) ?_) (Spot.uncut_char (by simp))
    rw [hopening]
    exact h.uncut (d + 1) fun _ => Nat.succ_pos d

/-- A reader in a literal stays there through all of its contents, and sees none of them. -/
theorem contents (d : Nat) (cs : List Char) :
    Spot.run ⟨true, d⟩ (doubled cs) = ⟨true, d⟩
      ∧ Spot.bare ⟨true, d⟩ (doubled cs) = []
      ∧ Spot.Uncut ⟨true, d⟩ (doubled cs) := by
  induction cs with
  | nil => exact ⟨rfl, rfl, Spot.uncut_nil⟩
  | cons c cs ih =>
    obtain ⟨hrun, hbare, huncut⟩ := ih
    -- the character alone, or twice if it is a quote
    obtain ⟨hrun', hbare', huncut'⟩ :
        Spot.run ⟨true, d⟩ (if c = '\x27' then [c, c] else [c]) = ⟨true, d⟩
          ∧ Spot.bare ⟨true, d⟩ (if c = '\x27' then [c, c] else [c]) = []
          ∧ Spot.Uncut ⟨true, d⟩ (if c = '\x27' then [c, c] else [c]) := by
      split
      · next hc =>
        subst hc
        have hfirst : Spot.Uncut ⟨true, d⟩ ['\x27'] := Spot.uncut_char (by simp)
        exact ⟨rfl, rfl, hfirst.append (Spot.uncut_char (by simp))⟩
      · next hc =>
        have hquoted : Spot.mk true d ≠ .within 0 := by simp [Spot.within]
        exact ⟨by simp [Spot.run, Spot.step, hc], by simp [Spot.bare],
          Spot.uncut_char fun _ => hquoted⟩
    rw [doubled_cons, Spot.run_append, Spot.bare_append, hrun', hbare', hbare]
    refine ⟨hrun, rfl, huncut'.append ?_⟩
    rw [hrun']
    exact huncut

/-- A literal is closed again, whatever it holds. -/
theorem literal (s : String) : Encloses commas (quoted s).toList := by
  have hquoted : (quoted s).toList = ['\x27'] ++ doubled s.toList ++ ['\x27'] := by
    simp [quoted]
  have hopening (d : Nat) : (Spot.within d).run ['\x27'] = ⟨true, d⟩ := rfl
  have hcontents (d : Nat) := contents d s.toList
  rw [hquoted]
  refine ⟨fun d => ?_, fun d => ?_, fun d _ => ?_⟩
  · rw [Spot.run_append, Spot.run_append, hopening, (hcontents d).1]
    rfl
  · rw [Spot.bare_append, Spot.bare_append, Spot.run_append, hopening, (hcontents d).1,
      (hcontents d).2.1]
    exact .plain (by simp [Spot.bare])
  · refine .append (.append (Spot.uncut_char (by simp)) ?_) (Spot.uncut_char (by simp))
    rw [hopening]
    exact (hcontents d).2.2

end Encloses

/-- SQL made of words without parentheses, commas and quotes encloses what it opens. -/
theorem Flow.encloses {word : String → Prop} (hword : ∀ t, word t → ∀ c ∈ t.toList, IsFree c)
    {commas : Bool} {p q : Flow.Place} {t : String} (h : Flow word commas p q t) :
    Encloses commas t.toList := by
  induction h with
  | nothing => exact .nil
  | append _ _ ihs iht =>
    rw [String.toList_append]
    exact ihs.append iht
  | keyword hk =>
    refine .free fun c hc => ?_
    rcases hk.2.1 c hc with rfl | hsolid
    · decide
    · exact hsolid.isFree
  | word ht => exact .free (hword _ ht)
  | literal s => exact .literal s
  | point => exact .free (by simp [IsFree])
  | comma => exact .chars (by simp)
  | parens _ iht =>
    rw [String.toList_append, String.toList_append]
    exact iht.parens
  | noParens => exact Encloses.parens .nil

/-! ## Lists -/

/-- A text without the blank that it begins with. -/
def dropBlank : List Char → List Char
  | ' ' :: rest => rest
  | cs => cs

/-- The items of a list that is separated by commas, each without the blank behind the comma. -/
def listItems (text : String) : List String :=
  match (Spot.within 0).cut text.toList with
  | [] => []
  | first :: rest => String.ofList first :: rest.map (String.ofList ∘ dropBlank)

theorem cut_joined (texts : List String) (t : String)
    (h : ∀ u ∈ t :: texts, Encloses false u.toList) :
    (Spot.within 0).cut (joined ", " (t :: texts)).toList
      = t.toList :: texts.map fun u => ' ' :: u.toList := by
  induction texts generalizing t with
  | nil =>
    have ht := (h t List.mem_cons_self).uncut 0 (by decide) []
    rw [List.append_nil, (h t List.mem_cons_self).returns] at ht
    simpa [joined, Spot.cut] using ht
  | cons u rest ih =>
    have ht := (h t List.mem_cons_self)
    have hrest := ih u fun v hv => h v (List.mem_cons_of_mem t hv)
    have hblank := Spot.uncut_char (s := .within 0) (c := ' ') (by decide)
    calc (Spot.within 0).cut (joined ", " (t :: u :: rest)).toList
        = (Spot.within 0).cut (t.toList ++ ',' :: ([' '] ++ (joined ", " (u :: rest)).toList)) := by
          simp [joined]
      _ = t.toList :: (Spot.within 0).cut ([' '] ++ (joined ", " (u :: rest)).toList) := by
          rw [ht.uncut 0 (by decide), ht.returns, Spot.cut, if_pos ⟨rfl, rfl⟩]
          simp [Spot.step_plain]
      _ = t.toList :: (u :: rest).map fun v => ' ' :: v.toList := by
          rw [hblank]
          have hstep : (Spot.within 0).run [' '] = .within 0 := rfl
          rw [hstep, hrest]
          rfl

theorem listItems_joined {texts : List String} (hne : texts ≠ [])
    (h : ∀ t ∈ texts, Encloses false t.toList) : listItems (joined ", " texts) = texts := by
  cases texts with
  | nil => exact absurd rfl hne
  | cons t rest =>
    rw [listItems, cut_joined rest t h]
    simp [dropBlank, Function.comp_def]

/-! ## Nodes -/

/-- The kinds whose lists are written between commas. -/
def listedKinds : List Kind := [.expr, .selectItem, .orderItem, .cte, .ident]

theorem isSome_sqlText?_of_listed {kind : Kind} (h : kind ∈ listedKinds) :
    kind.sqlText?.isSome = true := by
  have hall : ∀ kind ∈ listedKinds, kind.sqlText?.isSome = true := by decide
  exact hall kind h

theorem commas_eq_false_of_listed {kind : Kind} (h : kind ∈ listedKinds) :
    kind.commas = false := by
  have hall : ∀ kind ∈ listedKinds, kind.commas = false := by decide
  exact hall kind h

namespace Node

open Piece

/-- No name and no raw text of the node has a parenthesis, a comma or a quote in it. -/
def IsPure (n : Node) : Prop := ∀ l ∈ n.leaves, l.IsWord fun t => ∀ c ∈ t.toList, IsFree c

theorem IsPure.encloses {n : Node} (h : n.IsPure) {text : String} (htext : n.sqlText? = some text) :
    Encloses n.kind.commas text.toList := by
  have hworded : n.Worded fun t => ∀ c ∈ t.toList, IsFree c :=
    ⟨h, fun _ => by simp⟩
  exact (hworded.flows text htext).encloses fun _ ht => ht

/-- **Parentheses balance and lists stay apart.** Where no name and no raw text has a parenthesis,
a comma or a quote in it, the SQL of a node has outside of its literals as many closing parentheses
as opening ones, and no beginning of it has more; and a list of expressions, projected items,
ordered items, named queries or names that is written between commas, cut at its commas outside of
literals and parentheses, gives back the SQL of the items. -/
theorem balanced_listItems :
    (∀ (n : Node) (sql : Logged String), n.toSql? = some sql → n.IsPure →
      (∀ s, s <+: sql.value.toList →
        (outside (scan .outside s)).count (some ')') ≤ (outside (scan .outside s)).count (some '('))
      ∧ (outside (pieces sql.value)).count (some ')')
        = (outside (pieces sql.value)).count (some '('))
    ∧ ∀ (b : Buffer) (ns : List Node), ns ≠ [] → (∀ n ∈ ns, n.kind ∈ listedKinds ∧ n.IsPure) →
      ∃ text, (b.commaSeparated ns).sql = b.sql ++ text
        ∧ (listItems text).map some = ns.map fun n => n.toSql?.map Logged.value := by
  refine ⟨fun n sql hsql hpure => ?balanced, fun b ns hne hns => ?listed⟩
  case balanced =>
    have hbalanced := (hpure.encloses (sqlText?_of_toSql? hsql)).balanced 0
    have hcount (a : Char) (s : List Char) :
        (outside (scan .outside s)).count (some a) = ((Spot.within 0).bare s).count a :=
      Spot.count_outside_scan a s rfl
    refine ⟨fun s ⟨rest, hs⟩ => ?_, ?_⟩
    · rw [hcount, hcount]
      refine hbalanced.1 _ ⟨((Spot.within 0).run s).bare rest, ?_⟩
      rw [← Spot.bare_append, hs]
    · rw [pieces, hcount, hcount]
      exact hbalanced.2
  case listed =>
    have htext {n : Node} (hn : n ∈ ns) : n.sqlText? = some n.sqlText := by
      obtain ⟨sqlText, hkind⟩ := Option.isSome_iff_exists.1 (isSome_sqlText?_of_listed (hns n hn).1)
      rw [Node.sqlText, sqlText?, hkind]
      rfl
    have hencloses : ∀ t ∈ ns.map Node.sqlText, Encloses false t.toList := by
      intro t ht
      obtain ⟨n, hn, rfl⟩ := List.mem_map.1 ht
      obtain ⟨hkind, hpure⟩ := hns n hn
      have hn := hpure.encloses (htext hn)
      rw [commas_eq_false_of_listed hkind] at hn
      exact hn
    have hmap : ns.map Node.sqlText ≠ [] := by simpa using hne
    refine ⟨joined ", " (ns.map Node.sqlText), ?_, ?_⟩
    · rw [Buffer.commaSeparated, map_write, Buffer.separated_ofText, Writer.ofText_apply,
        Buffer.sql_push]
    · rw [listItems_joined hmap hencloses, List.map_map]
      exact List.map_congr_left fun n hn => by rw [toSql?_value, htext hn, Function.comp]

/-- A call with a literal that holds parentheses, commas and a quote. -/
def callOfMarks : Node :=
  ⟨.expr, .call ⟨.single ⟨"f"⟩, [.constant (.text "), \x27("), .identifier ⟨"b"⟩]⟩⟩

/-- What stands in the literal neither opens nor separates anything. -/
theorem balanced_callOfMarks :
    ∃ sql text, callOfMarks.toSql? = some sql
      ∧ (outside (pieces sql.value)).count (some ')')
        = (outside (pieces sql.value)).count (some '(')
      ∧ (Buffer.commaSeparated {} [callOfMarks, ⟨.ident, ⟨"c"⟩⟩]).sql = "" ++ text
      ∧ (listItems text).map some
        = [callOfMarks, ⟨.ident, ⟨"c"⟩⟩].map fun n => n.toSql?.map Logged.value := by
  have hcall : callOfMarks.IsPure := by
    simp [callOfMarks, IsPure, leaves, Kind.leaves, Expr.leaves, Call.leaves, QualifiedName.leaves,
      QualifiedName.parts, QualifiedName.single, Leaf.IsWord]
    decide
  have hname : (⟨.ident, ⟨"c"⟩⟩ : Node).IsPure := by
    simp [IsPure, leaves, Kind.leaves, Leaf.IsWord]
    decide
  obtain ⟨hbalanced, hlisted⟩ := balanced_listItems
  obtain ⟨text, htext, hitems⟩ := hlisted {} [callOfMarks, ⟨.ident, ⟨"c"⟩⟩] (List.cons_ne_nil _ _)
    (List.forall_mem_cons.2 ⟨⟨by decide, hcall⟩, List.forall_mem_singleton.2 ⟨by decide, hname⟩⟩)
  exact ⟨_, text, rfl, (hbalanced callOfMarks _ rfl hcall).2, htext, hitems⟩

end Node

end SqlTree
