import SqlTree.Proofs.Sql.Lexing

/-!
# Reading lexemes

A reader takes what it wants from the front of a list of lexemes and leaves the rest.

`Reads r ts a stop` says that `r` takes just `ts` and gives `a`, before any rest that is empty or
begins with a lexeme that `stop` allows. The lemmas put what reads a whole together from what reads
its parts: one thing after another (`Reads.bind`), one of several by how they open (`Reads.opening`,
`Reads.otherwise`), something that may be absent (`Reads.opened`), and lists (`Reads.many`,
`Reads.commaSeparated`).
-/

namespace SqlTree

/-- A reader of the lexemes in front. -/
abbrev Reader (α : Type) := StateT (List Lexeme) Option α

namespace Reader

variable {α β : Type}

/-- Takes just these lexemes. -/
def exactly (expected : List Lexeme) : Reader Unit := fun ts =>
  if expected.isPrefixOf ts then some ((), ts.drop expected.length) else none

/-- Goes on behind the first opening that stands there, and otherwise without one. -/
def choose (alternatives : List (List Lexeme × Reader α)) (otherwise : Reader α) : Reader α :=
  fun ts =>
    match alternatives.find? fun alternative => alternative.1.isPrefixOf ts with
    | some (opening, r) => r (ts.drop opening.length)
    | none => otherwise ts

/-- Reads something behind its opening, if that is there. -/
def opened (opening : List Lexeme) (r : Reader α) : Reader (Option α) :=
  choose [(opening, some <$> r)] (pure none)

/-- Are these lexemes there? -/
def flag (expected : List Lexeme) : Reader Bool := choose [(expected, pure true)] (pure false)

/-- Reads something with a closing parenthesis behind it. -/
def closed (r : Reader α) : Reader α := do
  let a ← r
  exactly [.mark ')']
  return a

/-- Goes on from a value step by step until there is no step any more, or not one allowed. -/
def iterate (step : α → Reader (Option α)) : Nat → α → Reader α
  | 0, a => pure a
  | n + 1, a => do
    match ← step a with
    | some b => iterate step n b
    | none => return a

/-- Goes on from a value until there is no step any more. -/
def repeatedly (step : α → Reader (Option α)) (a : α) : Reader α := fun ts =>
  iterate step ts.length a ts

/-- Reads one thing after another until there is none. -/
def many (r : Reader (Option α)) : Reader (List α) :=
  repeatedly (fun as => (Option.map fun a => as ++ [a]) <$> r) []

/-- Reads a list that is not empty. -/
def commaSeparated (item : Reader α) : Reader (List α) := do
  let a ← item
  let rest ← many (opened [.mark ','] item)
  return a :: rest

/-- Reads a list that is not empty, between its opening and closing, or nothing. -/
def clause (opening closing : List Lexeme) (item : Reader α) : Reader (List α) :=
  choose [(opening, do
    let as ← commaSeparated item
    exactly closing
    return as)] (pure [])

/-- Reads a list that may be empty, up to a closing parenthesis. -/
def enclosed (item : Reader α) : Reader (List α) :=
  choose [([.mark ')'], pure [])] (closed (commaSeparated item))

end Reader

open Reader

/-! ## What may follow -/

/-- Does the list begin with such a lexeme, if it is not empty? -/
def Before (stop : Lexeme → Bool) (rest : List Lexeme) : Prop := ∀ t ∈ rest.head?, stop t = true

variable {stop stop' : Lexeme → Bool}

theorem Before.nil : Before stop [] := by
  simp [Before]

theorem Before.cons {t : Lexeme} (h : stop t = true) (rest : List Lexeme) :
    Before stop (t :: rest) := by
  intro u hu
  cases hu
  exact h

theorem Before.append {ts rest : List Lexeme} (h : Before stop ts) (hrest : Before stop rest) :
    Before stop (ts ++ rest) := by
  cases ts with
  | nil => exact hrest
  | cons t ts => exact h

theorem Before.mono {rest : List Lexeme} (h : Before stop rest)
    (hstop : ∀ t, stop t = true → stop' t = true) : Before stop' rest :=
  fun t ht => hstop t (h t ht)

/-- Does the list begin with such a lexeme? -/
def Opens (p : Lexeme → Bool) : List Lexeme → Prop
  | [] => False
  | t :: _ => p t = true

variable {p : Lexeme → Bool}

theorem Opens.append {ts : List Lexeme} (h : Opens p ts) (us : List Lexeme) :
    Opens p (ts ++ us) := by
  cases ts with
  | nil => exact h.elim
  | cons t ts => exact h

theorem Opens.ne_nil {ts : List Lexeme} (h : Opens p ts) : ts ≠ [] := by
  rintro rfl
  exact h

theorem Opens.before {ts : List Lexeme} (h : Opens p ts) : Before p ts := by
  cases ts with
  | nil => exact .nil
  | cons t ts => exact .cons h ts

theorem Opens.mono {ts : List Lexeme} {p' : Lexeme → Bool} (h : Opens p ts)
    (hp : ∀ t, p t = true → p' t = true) : Opens p' ts := by
  cases ts with
  | nil => exact h
  | cons t ts => exact hp t h

/-! ## One after another -/

/-- The reader takes just these lexemes and gives this value, before what may follow. -/
def Reads {α : Type} (r : Reader α) (ts : List Lexeme) (a : α) (stop : Lexeme → Bool) : Prop :=
  ∀ rest, Before stop rest → r (ts ++ rest) = some (a, rest)

variable {α β : Type} {r : Reader α} {f : α → Reader β} {ts us : List Lexeme} {a : α} {b : β}

theorem Reads.mono (h : Reads r ts a stop) (hstop : ∀ t, stop' t = true → stop t = true) :
    Reads r ts a stop' := fun rest hrest => h rest (hrest.mono hstop)

theorem Reads.pure (a : α) : Reads (Pure.pure a) [] a stop := fun _ _ => rfl

theorem Reads.bind (h : Reads r ts a stop) (h' : Reads (f a) us b stop')
    (hnext : ∀ rest, Before stop' rest → Before stop (us ++ rest)) :
    Reads (r >>= f) (ts ++ us) b stop' := by
  intro rest hrest
  have hr := h (us ++ rest) (hnext rest hrest)
  rw [List.append_assoc]
  show (r (ts ++ (us ++ rest))).bind (fun p => f p.1 p.2) = some (b, rest)
  rw [hr, Option.bind_some, h' rest hrest]

theorem Reads.map (h : Reads r ts a stop) (g : α → β) : Reads (g <$> r) ts (g a) stop := by
  intro rest hrest
  show (r (ts ++ rest)).bind (fun p => some (g p.1, p.2)) = some (g a, rest)
  rw [h rest hrest, Option.bind_some]

/-- The last of several readers. -/
theorem Reads.bind_pure (h : Reads r ts a stop) (g : α → β) :
    Reads (r >>= fun a => Pure.pure (g a)) ts (g a) stop := h.map g

theorem Reads.exactly (ts : List Lexeme) : Reads (exactly ts) ts () stop := by
  intro rest _
  have hprefix : ts.isPrefixOf (ts ++ rest) = true := by
    rw [List.isPrefixOf_iff_prefix]
    exact List.prefix_append ts rest
  rw [Reader.exactly, if_pos hprefix, List.drop_left]

theorem Reads.exactly_bind {f : Unit → Reader β} (h : Reads (f ()) us b stop) (ts : List Lexeme) :
    Reads (Reader.exactly ts >>= f) (ts ++ us) b stop := by
  have hexactly : Reads (Reader.exactly ts) ts () fun _ => true := Reads.exactly ts
  exact hexactly.bind h fun _ _ _ _ => rfl

theorem Reads.closed (h : Reads r ts a stop) (hstop : stop (.mark ')') = true) :
    Reads (closed r) (ts ++ [.mark ')']) a stop' :=
  h.bind ((Reads.exactly [.mark ')']).bind_pure fun _ => a) fun _ _ => .cons hstop _

/-! ## One of several -/

/-- A reader that an opening turns into another. -/
theorem Reads.opening {r' : Reader α} (os : List Lexeme) (hr : ∀ rest, r' (os ++ rest) = r rest)
    (h : Reads r ts a stop) : Reads r' (os ++ ts) a stop := by
  intro rest hrest
  rw [List.append_assoc, hr, h rest hrest]

variable {alternatives : List (List Lexeme × Reader α)}

/-- No opening stands there if they all begin with something else. -/
theorem choose_otherwise
    (hopenings : (alternatives.all fun o => o.1.head?.any fun t => !p t) = true)
    (h : Before p ts) : choose alternatives r ts = r ts := by
  have hnone : (alternatives.find? fun o => o.1.isPrefixOf ts) = none := by
    rw [List.find?_eq_none]
    rintro ⟨opening, r'⟩ hmem hprefix
    have hopening := List.all_eq_true.1 hopenings _ hmem
    cases opening with
    | nil => cases hopening
    | cons o os =>
      obtain ⟨rest, rfl⟩ := List.isPrefixOf_iff_prefix.1 hprefix
      have ho := h o rfl
      simp [ho] at hopening
  rw [choose, hnone]

theorem Reads.otherwise
    (hopenings : (alternatives.all fun o => o.1.head?.any fun t => !p t) = true)
    (hnext : ∀ rest, Before stop rest → Before p (ts ++ rest)) (h : Reads r ts a stop) :
    Reads (choose alternatives r) ts a stop := by
  intro rest hrest
  rw [choose_otherwise hopenings (hnext rest hrest), h rest hrest]

/-- The only opening there is. -/
theorem choose_append {r' : Reader α} (os rest : List Lexeme) :
    choose [(os, r)] r' (os ++ rest) = r rest := by
  have hprefix : os.isPrefixOf (os ++ rest) = true := by
    rw [List.isPrefixOf_iff_prefix]
    exact List.prefix_append os rest
  simp [choose, hprefix]

theorem opened_none {o : Lexeme} {os : List Lexeme} (ho : stop o = false) (h : Before stop ts) :
    opened (o :: os) r ts = some (none, ts) :=
  choose_otherwise (by simp [ho]) h

theorem Reads.flag (stop : Lexeme → Bool) {o : Lexeme} {os : List Lexeme} (ho : stop o = false)
    (b : Bool) :
    Reads (flag (o :: os)) (if b then o :: os else []) b stop := by
  intro rest hrest
  cases b with
  | true => exact choose_append (o :: os) rest
  | false => exact choose_otherwise (by simp [ho]) hrest

/-- Something that may be absent. -/
theorem Reads.opened {g : α → List Lexeme} {o : Lexeme} {os : List Lexeme} {value : Option α}
    (ho : stop o = false) (h : ∀ a ∈ value, Reads r (g a) a stop')
    (hstop : ∀ t, stop t = true → stop' t = true) :
    Reads (opened (o :: os) r) (Lexeme.clause? (o :: os) (value.map g)) value stop := by
  cases value with
  | none => exact fun rest hrest => opened_none ho hrest
  | some a => exact ((h a rfl).mono hstop |>.map some).opening (o :: os) (choose_append (o :: os))

theorem Reads.orElse_left {r' : Reader α} (h : Reads r ts a stop) : Reads (r <|> r') ts a stop := by
  intro rest hrest
  show (r (ts ++ rest)).orElse _ = _
  rw [h rest hrest]
  rfl

theorem Reads.orElse_right {r' : Reader α} (hr : ∀ rest, Before stop rest → r (ts ++ rest) = none)
    (h : Reads r' ts a stop) : Reads (r <|> r') ts a stop := by
  intro rest hrest
  show (r (ts ++ rest)).orElse _ = _
  rw [hr rest hrest]
  exact h rest hrest

/-! ## One step after another -/

/-- From this value the steps lead to that one, however many more are allowed. -/
def Ends (step : α → Reader (Option α)) (a : α) (ts : List Lexeme) (b : α) (rest : List Lexeme) :
    Prop := ∀ n, ts.length ≤ n → iterate step n a ts = some (b, rest)

variable {step : α → Reader (Option α)} {a' c : α} {rest : List Lexeme}

theorem Ends.last (h : step a rest = some (none, rest)) : Ends step a rest a rest := by
  intro n _
  cases n with
  | zero => rfl
  | succ n =>
    show (step a rest).bind _ = _
    rw [h]
    rfl

theorem Ends.more (hne : us ≠ []) (h : step a (us ++ ts) = some (some a', ts))
    (hends : Ends step a' ts c rest) : Ends step a (us ++ ts) c rest := by
  intro n hn
  have hpos := List.length_pos_iff.2 hne
  rw [List.length_append] at hn
  cases n with
  | zero => omega
  | succ n =>
    show (step a (us ++ ts)).bind _ = _
    rw [h]
    exact hends n (by omega)

/-- What has been read goes on with the steps that follow. -/
theorem bind_repeatedly {r : Reader α} (h : r ts = some (a, us)) (hends : Ends step a us c rest) :
    (r >>= repeatedly step) ts = some (c, rest) := by
  show (r ts).bind (fun p => repeatedly step p.1 p.2) = _
  rw [h, Option.bind_some]
  exact hends us.length le_rfl

/-! ## Lists -/

variable {g : α → List Lexeme} {as : List α} {next : Lexeme → Bool}

/-- Things that follow each other without anything between them. -/
theorem Reads.many {r : Reader (Option α)} (h : ∀ a ∈ as, Reads r (g a) (some a) next)
    (hopens : ∀ a ∈ as, Opens next (g a)) (hnext : ∀ t, stop t = true → next t = true)
    (hstop : ∀ rest, Before stop rest → r rest = some (none, rest)) :
    Reads (many r) (as.flatMap g) as stop := by
  intro rest hrest
  have hends (bs : List α) : Ends (fun as => (Option.map fun a => as ++ [a]) <$> r) bs
      (as.flatMap g ++ rest) (bs ++ as) rest := by
    induction as generalizing bs with
    | nil =>
      rw [List.flatMap_nil, List.nil_append, List.append_nil]
      refine Ends.last ?_
      show (r rest).bind (fun p => some (p.1.map _, p.2)) = _
      rw [hstop rest hrest]
      rfl
    | cons a as ih =>
      have hmem : ∀ b ∈ as, b ∈ a :: as := fun b hb => List.mem_cons_of_mem a hb
      have hrec := ih (fun b hb => h b (hmem b hb)) (fun b hb => hopens b (hmem b hb)) (bs ++ [a])
      rw [List.append_assoc, List.singleton_append] at hrec
      have hfollows : Before next (as.flatMap g ++ rest) := by
        refine Before.append ?_ (hrest.mono hnext)
        cases as with
        | nil => exact .nil
        | cons b as => exact ((hopens b (hmem b List.mem_cons_self)).append _).before
      rw [List.flatMap_cons, List.append_assoc]
      exact Ends.more (hopens a List.mem_cons_self).ne_nil
        ((h a List.mem_cons_self).map _ _ hfollows) hrec
  exact hends [] _ le_rfl

variable {item : Reader α}

/-- A list with commas that is not empty. -/
theorem Reads.commaSeparated (h : ∀ b ∈ a :: as, Reads item (g b) b next)
    (hcomma : next (.mark ',') = true) (hnext : ∀ t, stop t = true → next t = true)
    (hstop : stop (.mark ',') = false) :
    Reads (commaSeparated item) (Json.between (.mark ',') ((a :: as).map g)) (a :: as) stop := by
  have hmore : ∀ b ∈ as, Reads (Reader.opened [.mark ','] item) (.mark ',' :: g b) (some b) next :=
    fun b hb =>
      ((h b (List.mem_cons_of_mem a hb)).map some).opening [.mark ','] (choose_append _)
  have hrest : Reads (Reader.many (Reader.opened [.mark ','] item))
      (as.flatMap fun b => .mark ',' :: g b) as stop :=
    Reads.many hmore (fun b _ => hcomma) hnext fun rest hrest => opened_none hstop hrest
  have hfollows : ∀ rest, Before stop rest →
      Before next ((as.flatMap fun b => .mark ',' :: g b) ++ rest) := by
    intro rest hbefore
    cases as with
    | nil => exact hbefore.mono hnext
    | cons b as => exact .cons hcomma _
  have hall := Reads.bind
    (f := fun a => List.cons a <$> Reader.many (Reader.opened [.mark ','] item))
    (h a List.mem_cons_self) (hrest.map (List.cons a)) hfollows
  rw [List.map_cons, Json.between, List.flatMap_map]
  exact hall

/-- A list behind an opening, or nothing. -/
theorem Reads.clause {o : Lexeme} {os cs : List Lexeme} (ho : stop o = false)
    (h : ∀ a ∈ as, Reads item (g a) a next) (hcomma : next (.mark ',') = true)
    {last : Lexeme → Bool} (hnext : ∀ t, last t = true → next t = true)
    (hlast : last (.mark ',') = false)
    (hstop : ∀ rest, Before stop rest → Before last (cs ++ rest)) :
    Reads (clause (o :: os) cs item) (Lexeme.clause (o :: os) cs (as.map g)) as stop := by
  cases as with
  | nil => exact fun rest hrest => choose_otherwise (by simp [ho]) hrest
  | cons a as =>
    have hlist := Reads.commaSeparated h hcomma hnext hlast
    have hclosed := Reads.bind (f := fun as => do Reader.exactly cs; Pure.pure as) hlist
      ((Reads.exactly cs).bind_pure fun _ => a :: as) hstop
    exact hclosed.opening (o :: os) (choose_append (o :: os))

/-- A list up to a closing parenthesis. -/
theorem Reads.enclosed (h : ∀ a ∈ as, Reads item (g a) a next) (hcomma : next (.mark ',') = true)
    (hclosing : next (.mark ')') = true)
    (hopens : ∀ a ∈ as, Opens (· != .mark ')') (g a)) :
    Reads (enclosed item) (Json.between (.mark ',') (as.map g) ++ [.mark ')']) as stop := by
  cases as with
  | nil => exact (Reads.pure []).opening [.mark ')'] (choose_append [.mark ')'])
  | cons a as =>
    have hlist : Reads (Reader.commaSeparated item)
        (Json.between (.mark ',') ((a :: as).map g)) (a :: as) (· == .mark ')') :=
      Reads.commaSeparated h hcomma (by simp [hclosing]) rfl
    refine (hlist.closed rfl).otherwise (p := (· != .mark ')')) rfl fun rest _ => ?_
    rw [List.map_cons, Json.between, List.append_assoc, List.append_assoc]
    exact ((hopens a List.mem_cons_self).append _).before

end SqlTree
