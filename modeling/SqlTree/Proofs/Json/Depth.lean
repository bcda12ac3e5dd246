import SqlTree.Proofs.Json.Document

/-!
# How deep a text is nested

`bracketDepth text` is the largest number of brackets that are open at once at some point of a text,
counted character by character; brackets inside quoted texts do not count. It knows nothing of
documents. For the text of a document it is the nesting of that document (`bracketDepth_print`).
-/

namespace SqlTree.Json

/-! ## Counting brackets -/

/-- Where a reader that only counts brackets stands. -/
inductive Nesting.Place where
  | outside
  | quoted
  /-- inside a quoted text, behind a backslash -/
  | escape
  deriving DecidableEq

/-- How many brackets are open, and where the reader stands. -/
structure Nesting where
  opened : Nat
  place : Nesting.Place
  deriving DecidableEq

namespace Nesting

/-- Outside of quoted texts, with so many brackets open. -/
def outside (opened : Nat) : Nesting := ⟨opened, .outside⟩

/-- Reads one character. -/
def step (n : Nesting) (c : Char) : Nesting :=
  match n.place with
  | .outside =>
    if c = '\x22' then { n with place := .quoted }
    else if c = '[' ∨ c = '\x7b' then { n with opened := n.opened + 1 }
    else if c = ']' ∨ c = '\x7d' then { n with opened := n.opened - 1 }
    else n
  | .quoted =>
    if c = '\x22' then { n with place := .outside }
    else if c = '\\' then { n with place := .escape }
    else n
  | .escape => { n with place := .quoted }

/-- The largest number of brackets open at a point of a text. -/
def peak : Nesting → List Char → Nat
  | n, [] => n.opened
  | n, c :: rest => max n.opened (peak (n.step c) rest)

theorem opened_le_peak (n : Nesting) (text : List Char) : n.opened ≤ n.peak text := by
  cases text with
  | nil => exact Nat.le_refl _
  | cons c rest => exact Nat.le_max_left _ _

theorem peak_cons_of_step {n : Nesting} {c : Char} (h : (n.step c).opened = n.opened)
    (rest : List Char) : n.peak (c :: rest) = (n.step c).peak rest := by
  have := opened_le_peak (n.step c) rest
  rw [peak]
  omega

end Nesting

/-- The largest number of brackets that are open at once in a text. -/
def bracketDepth (text : String) : Nat := (Nesting.outside 0).peak text.toList

mutual

/-- How deep lists and objects are nested. -/
def Document.depth : Document → Nat
  | .null | .boolean _ | .integer _ | .double _ | .text _ => 0
  | .list items => Document.itemsDepth items + 1
  | .object members => Document.membersDepth members + 1

def Document.itemsDepth : List Document → Nat
  | [] => 0
  | d :: rest => max d.depth (Document.itemsDepth rest)

def Document.membersDepth : List (String × Document) → Nat
  | [] => 0
  | (_, d) :: rest => max d.depth (Document.membersDepth rest)

end

theorem Document.depth_tagged (name : String) (d : Document) :
    (tagged name d).depth = d.depth + 1 := by
  simp [tagged, depth, membersDepth]

/-! ## Texts without brackets -/

namespace Nesting

/-- A character that opens, closes and quotes nothing. -/
def isPlain (c : Char) : Bool :=
  c ≠ '\x22' && c ≠ '[' && c ≠ '\x7b' && c ≠ ']' && c ≠ '\x7d'

theorem step_outside {c : Char} (hc : isPlain c = true) (k : Nat) :
    (outside k).step c = outside k := by
  simp [isPlain] at hc
  simp [step, outside, hc]

theorem peak_plain {text : List Char} (h : ∀ c ∈ text, isPlain c = true) (k : Nat)
    (rest : List Char) : (outside k).peak (text ++ rest) = (outside k).peak rest := by
  induction text with
  | nil => rfl
  | cons c text ih =>
    have hstep := step_outside (h c List.mem_cons_self) k
    rw [List.cons_append, peak_cons_of_step (by rw [hstep]), hstep]
    exact ih fun c hc => h c (List.mem_cons_of_mem _ hc)

/-! ## Quoted texts -/

theorem peak_escape (k : Nat) (c : Char) (rest : List Char) :
    peak ⟨k, .quoted⟩ (Quoted.escape c ++ rest) = peak ⟨k, .quoted⟩ rest := by
  -- behind a backslash any character is passed over
  have hnamed (named : Char) :
      peak ⟨k, .quoted⟩ ('\\' :: named :: rest) = peak ⟨k, .quoted⟩ rest := by
    rw [peak_cons_of_step rfl, peak_cons_of_step rfl]
    rfl
  have hplain {x : Char} (hq : x ≠ '\x22') (hb : x ≠ '\\') (rest : List Char) :
      peak ⟨k, .quoted⟩ (x :: rest) = peak ⟨k, .quoted⟩ rest := by
    have hstep : step ⟨k, .quoted⟩ x = ⟨k, .quoted⟩ := by simp [step, hq, hb]
    rw [peak_cons_of_step (by rw [hstep]), hstep]
  have hdigit (d : Nat) (hd : d < 16) : Nat.digitChar d ≠ '\x22' ∧ Nat.digitChar d ≠ '\\' := by
    revert d
    decide
  unfold Quoted.escape
  split
  · exact hnamed c
  split
  · exact hnamed 'b'
  split
  · exact hnamed 'f'
  split
  · exact hnamed 'n'
  split
  · exact hnamed 'r'
  split
  · exact hnamed 't'
  split
  · next hcontrol =>
    have hlt : c.toNat < 0x20 := by simpa [Quoted.isControl] using hcontrol
    have hhigh := hdigit (c.toNat / 16) (by omega)
    have hlow := hdigit (c.toNat % 16) (by omega)
    show peak ⟨k, .quoted⟩ ('\\' :: 'u' :: '0' :: '0' :: _ :: _ :: rest) = _
    rw [peak_cons_of_step rfl, peak_cons_of_step rfl]
    show peak ⟨k, .quoted⟩ ('0' :: '0' :: _ :: _ :: rest) = _
    rw [hplain (by decide) (by decide), hplain (by decide) (by decide), hplain hhigh.1 hhigh.2,
      hplain hlow.1 hlow.2]
  · next hquote _ _ _ _ _ _ =>
    exact hplain (fun h => hquote (.inl h)) (fun h => hquote (.inr h)) rest

theorem peak_flatMap_escape (k : Nat) (cs rest : List Char) :
    peak ⟨k, .quoted⟩ (cs.flatMap Quoted.escape ++ rest) = peak ⟨k, .quoted⟩ rest := by
  induction cs with
  | nil => rfl
  | cons c cs ih => rw [List.flatMap_cons, List.append_assoc, peak_escape, ih]

theorem peak_quote (k : Nat) (s : String) (rest : List Char) :
    (outside k).peak (Quoted.quote s ++ rest) = (outside k).peak rest := by
  rw [Quoted.quote, List.cons_append, List.append_assoc, peak_cons_of_step rfl]
  show peak ⟨k, .quoted⟩ _ = _
  rw [peak_flatMap_escape, List.singleton_append, peak_cons_of_step rfl]
  rfl

end Nesting

/-! ## Numbers -/

namespace Numeral

theorem isPlain_of_step {p q : Place} {c : Char} (h : p.step c = .go q) :
    Nesting.isPlain c = true := by
  by_cases hc : Nesting.isPlain c = true
  · exact hc
  · exfalso
    simp only [Nesting.isPlain, ne_eq, decide_not, Bool.and_eq_true, Bool.not_eq_eq_eq_not,
      Bool.not_true, decide_eq_false_iff_not] at hc
    obtain rfl | rfl | rfl | rfl | rfl :
        c = '\x22' ∨ c = '[' ∨ c = '\x7b' ∨ c = ']' ∨ c = '\x7d' := by
      by_contra hne
      simp only [not_or] at hne
      simp [hne] at hc
    all_goals cases p <;> simp [Place.step, Place.step.stepWhole, Place.step.stepFraction] at h

theorem IsNumeral.isPlain {text : List Char} (h : IsNumeral text) :
    ∀ c ∈ text, Nesting.isPlain c = true := h.forall_mem isPlain_of_step rfl

end Numeral

/-! ## Documents -/

namespace Nesting

open Document

theorem peak_double (k : Nat) (x : Double) (rest : List Char) :
    (outside k).peak (x.stored.toList ++ rest) = (outside k).peak rest := by
  refine peak_plain ?_ k rest
  by_cases hx : x.isFinite = true
  · exact (Double.isNumeral_stored hx).isPlain
  · rw [Double.stored, if_neg hx]
    simp [isPlain]

theorem peak_open {b : Char} (hb : b = '[' ∨ b = '\x7b') (k : Nat) (rest : List Char) :
    (outside k).peak (b :: rest) = max k ((outside (k + 1)).peak rest) := by
  rcases hb with rfl | rfl <;> rfl

theorem peak_close {b : Char} (hb : b = ']' ∨ b = '\x7d') (k : Nat) (rest : List Char) :
    (outside (k + 1)).peak (b :: rest) = max (k + 1) ((outside k).peak rest) := by
  rcases hb with rfl | rfl <;> rfl

theorem peak_separator {c : Char} (hc : c = ',' ∨ c = ':') (k : Nat) (rest : List Char) :
    (outside k).peak (c :: rest) = (outside k).peak rest := by
  rcases hc with rfl | rfl <;> exact peak_cons_of_step rfl rest

/-- What is not nested adds nothing to what follows. -/
theorem max_peak (k : Nat) (rest : List Char) :
    max (k + 0) ((outside k).peak rest) = (outside k).peak rest :=
  max_eq_right (opened_le_peak (outside k) rest)

mutual

/-- In the text of a document as many brackets are open as the document is deep, above those that
are open around it. -/
theorem peak_print : ∀ (d : Document) (k : Nat) (rest : List Char),
    (outside k).peak (d.print ++ rest) = max (k + d.depth) ((outside k).peak rest)
  | .null, k, rest | .boolean true, k, rest | .boolean false, k, rest => by
    rw [print, peak_plain (by simp [isPlain]), depth, max_peak]
  | .integer n, k, rest => by
    rw [print, peak_plain (Numeral.isNumeral_toString n).isPlain, depth, max_peak]
  | .double x, k, rest => by
    rw [print, peak_double, depth, max_peak]
  | .text s, k, rest => by
    rw [print, peak_quote, depth, max_peak]
  | .list [], k, rest => by
    show (outside k).peak ('[' :: ']' :: rest) = _
    rw [peak_open (.inl rfl), peak_close (.inl rfl), depth, itemsDepth]
    omega
  | .list (d :: items), k, rest => by
    rw [print, commas_eq_between, printItems, between]
    simp only [List.cons_append, List.append_assoc, List.nil_append]
    rw [peak_open (.inl rfl), peak_print d, peak_printItems items, peak_close (.inl rfl), depth,
      itemsDepth]
    omega
  | .object [], k, rest => by
    show (outside k).peak ('\x7b' :: '\x7d' :: rest) = _
    rw [peak_open (.inr rfl), peak_close (.inr rfl), depth, membersDepth]
    omega
  | .object ((name, d) :: members), k, rest => by
    rw [print, commas_eq_between, printMembers, between]
    simp only [List.cons_append, List.append_assoc, List.nil_append]
    rw [peak_open (.inr rfl), peak_quote, peak_separator (.inr rfl), peak_print d,
      peak_printMembers members, peak_close (.inr rfl), depth, membersDepth]
    omega

theorem peak_printItems : ∀ (items : List Document) (k : Nat) (rest : List Char),
    (outside k).peak ((printItems items).flatMap (',' :: ·) ++ rest)
      = max (k + itemsDepth items) ((outside k).peak rest)
  | [], k, rest => by
    rw [printItems, List.flatMap_nil, List.nil_append, itemsDepth, max_peak]
  | d :: items, k, rest => by
    rw [printItems, List.flatMap_cons]
    simp only [List.cons_append, List.append_assoc]
    rw [peak_separator (.inl rfl), peak_print d, peak_printItems items, itemsDepth]
    omega

theorem peak_printMembers : ∀ (members : List (String × Document)) (k : Nat) (rest : List Char),
    (outside k).peak ((printMembers members).flatMap (',' :: ·) ++ rest)
      = max (k + membersDepth members) ((outside k).peak rest)
  | [], k, rest => by
    rw [printMembers, List.flatMap_nil, List.nil_append, membersDepth, max_peak]
  | (name, d) :: members, k, rest => by
    rw [printMembers, List.flatMap_cons]
    simp only [List.cons_append, List.append_assoc]
    rw [peak_separator (.inl rfl), peak_quote, peak_separator (.inr rfl), peak_print d,
      peak_printMembers members, membersDepth]
    omega

end

end Nesting

/-- The brackets of a printed document are nested as the document is. -/
theorem bracketDepth_print (d : Document) : bracketDepth (String.ofList d.print) = d.depth := by
  have h := Nesting.peak_print d 0 []
  rw [List.append_nil] at h
  rw [bracketDepth, String.toList_ofList, h]
  show max (0 + d.depth) 0 = d.depth
  omega

end SqlTree.Json
