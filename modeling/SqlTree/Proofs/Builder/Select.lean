import Mathlib.Data.List.Basic
import Mathlib.Data.List.Induction
import SqlTree.Builder.Select
import SqlTree.Proofs.Builder.Runs

/-!
# Selects built by any sequence of calls

A `Call` is one call on a builder, and `afterCalls?` is the builder behind a sequence of them, if
each has a phase that admits it. The sequences that have one are just those in which the relation is
named at most once and no join comes earlier (`Admitted`).

`Clauses` holds what a builder holds without its phase: whether there is a relation is found out
when it is needed, and a join without one is dropped. Builders go with it step by step
(`clauses_call?`), so what they end with is read off the calls clause by clause, and the join that
would be dropped is never called.
-/

namespace SqlTree

theorem FromClause.foldl_join (relation : Relation) (joins more : List Join) :
    more.foldl FromClause.join ⟨relation, joins⟩ = ⟨relation, joins ++ more⟩ := by
  induction more generalizing joins with
  | nil => simp
  | cons j rest ih =>
    rw [List.foldl_cons, FromClause.join, ih]
    simp

namespace SelectBuilder

/-! ## Calls -/

/-- A call on a builder. -/
inductive Call where
  | distinct
  | filter (condition : Expr)
  | groupBy (exprs : List Expr)
  | having (condition : Expr)
  | fromRelation (relation : Relation)
  | join (kind : JoinKind) (relation : Relation)

/-- The clause that a call is about. -/
inductive Clause where
  | distinct
  | condition
  | grouping
  | groupCondition
  | source
  | joins
  deriving DecidableEq

namespace Call

def clause : Call → Clause
  | distinct => .distinct
  | filter _ => .condition
  | groupBy _ => .grouping
  | having _ => .groupCondition
  | fromRelation _ => .source
  | join _ _ => .joins

def isDistinct : Call → Bool
  | distinct => true
  | _ => false

def condition? : Call → Option Expr
  | filter condition => some condition
  | _ => none

def grouped? : Call → Option (List Expr)
  | groupBy exprs => some exprs
  | _ => none

def groupCondition? : Call → Option Expr
  | having condition => some condition
  | _ => none

def relation? : Call → Option Relation
  | fromRelation relation => some relation
  | _ => none

def join? : Call → Option Join
  | join kind relation => some ⟨relation, kind⟩
  | _ => none

end Call

/-- A builder in some phase. -/
abbrev Any := Σ phase, SelectBuilder phase

/-- The builder behind a call, if its phase admits the call. -/
def call? : Any → Call → Option Any
  | ⟨phase, b⟩, .distinct => some ⟨phase, b.distinct⟩
  | ⟨phase, b⟩, .filter condition => some ⟨phase, b.filter condition⟩
  | ⟨phase, b⟩, .groupBy exprs => some ⟨phase, b.groupBy exprs⟩
  | ⟨phase, b⟩, .having condition => some ⟨phase, b.having condition⟩
  | ⟨.projected, b⟩, .fromRelation relation => some ⟨.sourced, b.fromRelation relation⟩
  | ⟨.sourced, b⟩, .join kind relation => some ⟨.sourced, b.join kind relation⟩
  | ⟨.sourced, _⟩, .fromRelation _ | ⟨.projected, _⟩, .join _ _ => none

/-- The builder behind a projection and a sequence of calls, if every call is admitted. -/
def afterCalls? (items : List SelectItem) (calls : List Call) : Option Any :=
  calls.foldlM call? ⟨.projected, SelectStart.start.select items⟩

/-- Calls of the four clauses that come in any order, with at most one relation among them, and
joins only behind it. -/
def Admitted (calls : List Call) : Prop :=
  (∀ c ∈ calls, c.clause ≠ .source ∧ c.clause ≠ .joins)
  ∨ ∃ before relation after, calls = before ++ .fromRelation relation :: after
    ∧ (∀ c ∈ before, c.clause ≠ .source ∧ c.clause ≠ .joins) ∧ ∀ c ∈ after, c.clause ≠ .source

/-! ## Which sequences are admitted -/

/-- The clauses whose calls leave a phase as it is. -/
def Phase.Admits : Phase → Call → Prop
  | .projected, c => c.clause ≠ .source ∧ c.clause ≠ .joins
  | .sourced, c => c.clause ≠ .source

theorem call?_of_admits {phase : Phase} {c : Call} (h : phase.Admits c) (b : SelectBuilder phase) :
    ∃ b' : SelectBuilder phase, call? ⟨phase, b⟩ c = some ⟨phase, b'⟩ := by
  cases c with
  | distinct | filter | groupBy | having => exact ⟨_, rfl⟩
  | fromRelation relation => cases phase <;> simp [Phase.Admits, Call.clause] at h
  | join kind relation =>
    cases phase with
    | projected => simp [Phase.Admits, Call.clause] at h
    | sourced => exact ⟨_, rfl⟩

/-- Calls that a phase admits lead to a builder of the same phase. -/
theorem foldlM_of_admits (phase : Phase) {calls : List Call} (h : ∀ c ∈ calls, phase.Admits c)
    (b : SelectBuilder phase) :
    ∃ b' : SelectBuilder phase, calls.foldlM call? ⟨phase, b⟩ = some ⟨phase, b'⟩ := by
  induction calls generalizing b with
  | nil => exact ⟨b, rfl⟩
  | cons c rest ih =>
    obtain ⟨hc, hrest⟩ := List.forall_mem_cons.1 h
    obtain ⟨b', hb'⟩ := call?_of_admits hc b
    obtain ⟨b'', hb''⟩ := ih hrest b'
    exact ⟨b'', by rw [List.foldlM_cons, hb']; exact hb''⟩

theorem admits_of_foldlM_sourced {calls : List Call} {b : SelectBuilder .sourced} {b' : Any}
    (h : calls.foldlM call? ⟨.sourced, b⟩ = some b') : ∀ c ∈ calls, c.clause ≠ .source := by
  induction calls generalizing b with
  | nil => simp
  | cons c rest ih =>
    rw [List.foldlM_cons] at h
    cases c with
    | fromRelation relation => simp [call?] at h
    | distinct | filter | groupBy | having | join =>
      exact List.forall_mem_cons.2 ⟨by simp [Call.clause], ih h⟩

theorem admitted_of_foldlM_projected {calls : List Call} {b : SelectBuilder .projected} {b' : Any}
    (h : calls.foldlM call? ⟨.projected, b⟩ = some b') : Admitted calls := by
  induction calls generalizing b with
  | nil => exact .inl (by simp)
  | cons c rest ih =>
    rw [List.foldlM_cons] at h
    cases c with
    | join kind relation => simp [call?] at h
    | fromRelation relation =>
      exact .inr ⟨[], relation, rest, rfl, by simp, admits_of_foldlM_sourced h⟩
    | distinct | filter | groupBy | having =>
      rcases ih h with hrest | ⟨before, relation, after, rfl, hbefore, hafter⟩
      · exact .inl (List.forall_mem_cons.2 ⟨by simp [Call.clause], hrest⟩)
      · exact .inr ⟨_ :: before, relation, after, rfl,
          List.forall_mem_cons.2 ⟨by simp [Call.clause], hbefore⟩, hafter⟩

theorem isSome_afterCalls?_iff (items : List SelectItem) (calls : List Call) :
    (afterCalls? items calls).isSome = true ↔ Admitted calls := by
  constructor
  · intro h
    obtain ⟨b, hb⟩ := Option.isSome_iff_exists.1 h
    exact admitted_of_foldlM_projected hb
  · rintro (hcalls | ⟨before, relation, after, rfl, hbefore, hafter⟩)
    · obtain ⟨b, hb⟩ := foldlM_of_admits .projected hcalls (SelectStart.start.select items)
      rw [afterCalls?, hb, Option.isSome_some]
    · obtain ⟨b, hb⟩ := foldlM_of_admits .projected hbefore
        (SelectStart.start.select items)
      obtain ⟨b', hb'⟩ := foldlM_of_admits .sourced hafter (b.fromRelation relation)
      have hcalls : afterCalls? items (before ++ .fromRelation relation :: after)
          = some ⟨.sourced, b'⟩ := by
        rw [afterCalls?, List.foldlM_append, hb]
        exact hb'
      rw [hcalls, Option.isSome_some]

/-! ## Clauses without a phase -/

/-- What has been said of a select so far. -/
structure Clauses where
  items : List SelectItem
  isDistinct : Bool
  source : Option FromClause
  condition : Option Expr
  grouping : List Expr
  groupCondition : Option Expr

namespace Clauses

/-- A projection and nothing else. -/
def ofItems (items : List SelectItem) : Clauses := ⟨items, false, none, none, [], none⟩

/-- What a call adds. A join is dropped if there is no relation yet. -/
def call (k : Clauses) : Call → Clauses
  | .distinct => { k with isDistinct := true }
  | .filter condition => { k with condition := some condition }
  | .groupBy exprs => { k with grouping := k.grouping ++ exprs }
  | .having condition => { k with groupCondition := some condition }
  | .fromRelation relation => { k with source := some (.ofRelation relation) }
  | .join kind relation => { k with source := k.source.map (·.join ⟨relation, kind⟩) }

/-- What a projection and a sequence of calls say. -/
def ofCalls (items : List SelectItem) (calls : List Call) : Clauses :=
  calls.foldl call (.ofItems items)

@[simp] theorem ofCalls_append_singleton (items : List SelectItem) (calls : List Call) (c : Call) :
    ofCalls items (calls ++ [c]) = (ofCalls items calls).call c := by
  simp [ofCalls]

/-- The select with these clauses. -/
def toSelect (k : Clauses) (projection : Projection) : Select :=
  { distinct := k.isDistinct
    projection
    source := k.source
    condition := k.condition
    groupBy := k.grouping
    having := k.groupCondition }

end Clauses

/-- What a builder holds. -/
def clauses {phase : Phase} (b : SelectBuilder phase) : Clauses :=
  ⟨b.items, b.isDistinct, phase.source? b.source, b.condition, b.grouping, b.groupCondition⟩

/-- One call changes what a builder holds as it changes the clauses. -/
theorem clauses_call? {b b' : Any} {c : Call} (h : call? b c = some b') :
    b'.2.clauses = b.2.clauses.call c := by
  obtain ⟨phase, b⟩ := b
  cases c with
  | distinct | filter | groupBy | having =>
    cases h
    rfl
  | fromRelation relation =>
    cases phase with
    | projected =>
      cases h
      rfl
    | sourced => simp [call?] at h
  | join kind relation =>
    cases phase with
    | projected => simp [call?] at h
    | sourced =>
      cases h
      rfl

theorem clauses_foldlM {calls : List Call} {b b' : Any} (h : calls.foldlM call? b = some b') :
    b'.2.clauses = calls.foldl Clauses.call b.2.clauses := by
  induction calls generalizing b with
  | nil =>
    cases h
    rfl
  | cons c rest ih =>
    rw [List.foldlM_cons] at h
    obtain ⟨b₁, hb₁, hrest⟩ := Option.bind_eq_some_iff.1 h
    rw [List.foldl_cons, ih hrest, clauses_call? hb₁]

theorem clauses_afterCalls? {items : List SelectItem} {calls : List Call} {b : Any}
    (h : afterCalls? items calls = some b) : b.2.clauses = .ofCalls items calls := clauses_foldlM h

/-- A select is built from what the builder holds, and from nothing else. -/
theorem build_eq {phase : Phase} (b : SelectBuilder phase) :
    b.build = match Projection.ofItems b.clauses.items with
      | .ok projection => ⟨.ok (b.clauses.toSelect projection), []⟩
      | .error what => ⟨.error (.empty what), [.rejectedSelect what.message]⟩ := by
  show b.build = match Projection.ofItems b.items with
    | .ok _ => _
    | .error _ => _
  unfold build
  cases Projection.ofItems b.items <;> rfl

/-! ## What the clauses end with -/

namespace Clauses

@[simp] theorem items_call (k : Clauses) (c : Call) : (k.call c).items = k.items := by
  cases c <;> rfl

@[simp] theorem isDistinct_call (k : Clauses) (c : Call) :
    (k.call c).isDistinct = (k.isDistinct || c.isDistinct) := by
  cases c <;> simp [call, Call.isDistinct]

@[simp] theorem condition_call (k : Clauses) (c : Call) :
    (k.call c).condition = c.condition?.or k.condition := by
  cases c <;> rfl

@[simp] theorem grouping_call (k : Clauses) (c : Call) :
    (k.call c).grouping = k.grouping ++ c.grouped?.toList.flatten := by
  cases c <;> simp [call, Call.grouped?]

@[simp] theorem groupCondition_call (k : Clauses) (c : Call) :
    (k.call c).groupCondition = c.groupCondition?.or k.groupCondition := by
  cases c <;> rfl

/-- No call but that of the relation itself sets one; what it does to one is to join to it. -/
theorem source_call {c : Call} (h : c.clause ≠ .source) (k : Clauses) :
    (k.call c).source
      = k.source.map fun source => c.join?.toList.foldl FromClause.join source := by
  cases c with
  | fromRelation relation => simp [Call.clause] at h
  | join kind relation => rfl
  | distinct | filter | groupBy | having => simp [call, Call.join?]

theorem items_ofCalls (items : List SelectItem) (calls : List Call) :
    (ofCalls items calls).items = items := Calls.kept_foldl (·.items) items_call (ofItems items) calls

theorem isDistinct_ofCalls (items : List SelectItem) (calls : List Call) :
    (ofCalls items calls).isDistinct = calls.any Call.isDistinct := by
  induction calls using List.reverseRecOn with
  | nil => rfl
  | append_singleton calls c ih => simp [ih]

theorem grouping_ofCalls (items : List SelectItem) (calls : List Call) :
    (ofCalls items calls).grouping = (calls.filterMap Call.grouped?).flatten := by
  have hgrouping := Calls.appended_foldl (·.grouping) grouping_call (ofItems items) calls
  rw [ofCalls, hgrouping, List.filterMap_eq_flatMap_toList, ← List.flatMap_id, List.flatMap_assoc]
  simp [ofItems]

/-- Of what each call says anew, the last call's word counts. -/
theorem last_ofCalls {α : Type} {held : Clauses → Option α} {said : Call → Option α}
    (hcall : ∀ k c, held (k.call c) = (said c).or (held k)) (items : List SelectItem)
    (hitems : held (.ofItems items) = none) (calls : List Call) :
    held (ofCalls items calls) = (calls.filterMap said).getLast? := by
  rw [ofCalls, Calls.last_foldl held hcall, hitems, Option.or_none]

theorem source_foldl {calls : List Call} (h : ∀ c ∈ calls, c.clause ≠ .source) (k : Clauses) :
    (calls.foldl call k).source
      = k.source.map fun source => (calls.filterMap Call.join?).foldl FromClause.join source := by
  induction calls generalizing k with
  | nil => simp
  | cons c rest ih =>
    obtain ⟨hc, hrest⟩ := List.forall_mem_cons.1 h
    rw [List.foldl_cons, ih hrest, source_call hc]
    cases k.source with
    | none => rfl
    | some source => cases hj : c.join? <;> simp [hj]

end Clauses

/-- The relation that was named, with everything that was joined. -/
def sourceOf (calls : List Call) : Option FromClause :=
  (calls.filterMap Call.relation?).head?.map (⟨·, calls.filterMap Call.join?⟩)

theorem filterMap_relation? {calls : List Call} (h : ∀ c ∈ calls, c.clause ≠ .source) :
    calls.filterMap Call.relation? = [] := by
  refine List.filterMap_eq_nil_iff.2 fun c hc => ?_
  cases c with
  | fromRelation relation => exact absurd rfl (h _ hc)
  | _ => rfl

theorem filterMap_join? {calls : List Call} (h : ∀ c ∈ calls, c.clause ≠ .joins) :
    calls.filterMap Call.join? = [] := by
  refine List.filterMap_eq_nil_iff.2 fun c hc => ?_
  cases c with
  | join kind relation => exact absurd rfl (h _ hc)
  | _ => rfl

/-- In a sequence that is admitted no join is dropped. -/
theorem source_ofCalls {calls : List Call} (h : Admitted calls) (items : List SelectItem) :
    (Clauses.ofCalls items calls).source = sourceOf calls := by
  rcases h with hcalls | ⟨before, relation, after, rfl, hbefore, hafter⟩
  · rw [Clauses.ofCalls, Clauses.source_foldl fun c hc => (hcalls c hc).1, sourceOf,
      filterMap_relation? fun c hc => (hcalls c hc).1]
    rfl
  · have hjoins := filterMap_join? fun c hc => (hbefore c hc).2
    have hrelation := filterMap_relation? fun c hc => (hbefore c hc).1
    rw [Clauses.ofCalls, List.foldl_append, List.foldl_cons, Clauses.source_foldl hafter, sourceOf,
      List.filterMap_append, List.filterMap_append, hjoins, hrelation]
    show some ((after.filterMap Call.join?).foldl FromClause.join ⟨relation, []⟩) = _
    rw [FromClause.foldl_join]
    rfl

/-- Whoever joins finds a relation: the builder is sourced, and what it holds is there. -/
theorem exists_sourced_of_join {items : List SelectItem} {before after : List Call}
    {kind : JoinKind} {relation : Relation} {b : Any}
    (h : afterCalls? items (before ++ .join kind relation :: after) = some b) :
    ∃ b₀ : SelectBuilder .sourced, afterCalls? items before = some ⟨.sourced, b₀⟩
      ∧ (Clauses.ofCalls items before).source = some b₀.source := by
  rw [afterCalls?, List.foldlM_append] at h
  obtain ⟨⟨phase, b₀⟩, hbefore, hafter⟩ := Option.bind_eq_some_iff.1 h
  rw [List.foldlM_cons] at hafter
  cases phase with
  | projected => simp [call?] at hafter
  | sourced => exact ⟨b₀, hbefore, by rw [← clauses_afterCalls? hbefore]; rfl⟩

/-! ## Built selects -/

/-- The select that a projection and a sequence of calls describe, clause by clause. -/
def described (projection : Projection) (calls : List Call) : Select :=
  { distinct := calls.any Call.isDistinct
    projection
    source := sourceOf calls
    condition := (calls.filterMap Call.condition?).getLast?
    groupBy := (calls.filterMap Call.grouped?).flatten
    having := (calls.filterMap Call.groupCondition?).getLast? }

theorem toSelect_ofCalls {calls : List Call} (h : Admitted calls) (items : List SelectItem)
    (projection : Projection) :
    (Clauses.ofCalls items calls).toSelect projection = described projection calls := by
  have hcondition := Clauses.last_ofCalls Clauses.condition_call items rfl calls
  have hhaving := Clauses.last_ofCalls Clauses.groupCondition_call items rfl calls
  rw [Clauses.toSelect, described, Clauses.isDistinct_ofCalls, source_ofCalls h,
    Clauses.grouping_ofCalls, hcondition, hhaving]

theorem build_of_afterCalls? {items : List SelectItem} {calls : List Call} {b : Any}
    (h : afterCalls? items calls = some b) :
    b.2.build = match Projection.ofItems items with
      | .ok projection => ⟨.ok (described projection calls), []⟩
      | .error what => ⟨.error (.empty what), [.rejectedSelect what.message]⟩ := by
  have hadmitted : Admitted calls :=
    (isSome_afterCalls?_iff items calls).1 (by rw [h, Option.isSome_some])
  rw [build_eq, clauses_afterCalls? h, Clauses.items_ofCalls]
  cases Projection.ofItems items with
  | error what => rfl
  | ok projection => simp only [toSelect_ofCalls hadmitted]

theorem any_filter_clause (calls : List Call) :
    (calls.filter (·.clause == .distinct)).any Call.isDistinct = calls.any Call.isDistinct := by
  rw [List.any_filter]
  congr 1
  funext c
  cases c <;> rfl

/-- Only the order of calls to the same clause matters. -/
theorem described_congr {calls calls' : List Call}
    (h : ∀ clause, calls.filter (·.clause == clause) = calls'.filter (·.clause == clause))
    (projection : Projection) : described projection calls = described projection calls' := by
  have hsaid {α : Type} {said : Call → Option α} (clause : Clause)
      (hclause : ∀ c, c.clause ≠ clause → said c = none) :
      calls.filterMap said = calls'.filterMap said := by
    rw [← Calls.filterMap_filter_clause hclause, h, Calls.filterMap_filter_clause hclause]
  have hdistinct : calls.any Call.isDistinct = calls'.any Call.isDistinct := by
    rw [← any_filter_clause, h, any_filter_clause]
  have hcondition : calls.filterMap Call.condition? = calls'.filterMap Call.condition? :=
    hsaid .condition fun c => by cases c <;> simp [Call.clause, Call.condition?]
  have hgrouping : calls.filterMap Call.grouped? = calls'.filterMap Call.grouped? :=
    hsaid .grouping fun c => by cases c <;> simp [Call.clause, Call.grouped?]
  have hhaving : calls.filterMap Call.groupCondition? = calls'.filterMap Call.groupCondition? :=
    hsaid .groupCondition fun c => by
      cases c <;> simp [Call.clause, Call.groupCondition?]
  have hsource : calls.filterMap Call.relation? = calls'.filterMap Call.relation? :=
    hsaid .source fun c => by cases c <;> simp [Call.clause, Call.relation?]
  have hjoins : calls.filterMap Call.join? = calls'.filterMap Call.join? :=
    hsaid .joins fun c => by cases c <;> simp [Call.clause, Call.join?]
  rw [described, described, sourceOf, sourceOf, hdistinct, hcondition, hgrouping, hhaving, hsource,
    hjoins]

/-- **Building a select from any sequence of calls.** A sequence has a builder behind it just when
it names the relation at most once and joins only behind it. Building then fails just when the
projection is empty; otherwise every clause of the select is read off the calls about it: the
last condition, all groupings, the relation with all joins in order. So calls to different clauses
may change places, and no join is ever called without a relation to join to. -/
theorem build_afterCalls? (items : List SelectItem) (calls : List Call) :
    ((afterCalls? items calls).isSome = true ↔ Admitted calls)
    ∧ ∀ b, afterCalls? items calls = some b →
      (b.2.build.value = .error (.empty .projection) ↔ items = [])
      ∧ (∀ projection, items = projection.items → b.2.build.value = .ok
          { distinct := calls.any Call.isDistinct
            projection
            source := (calls.filterMap Call.relation?).head?.map
              (⟨·, calls.filterMap Call.join?⟩)
            condition := (calls.filterMap Call.condition?).getLast?
            groupBy := (calls.filterMap Call.grouped?).flatten
            having := (calls.filterMap Call.groupCondition?).getLast? })
      ∧ (∀ calls' b', afterCalls? items calls' = some b' →
          (∀ clause, calls.filter (·.clause == clause) = calls'.filter (·.clause == clause)) →
          b.2.build = b'.2.build)
      ∧ b.2.clauses = .ofCalls items calls
      ∧ ∀ before kind relation after, calls = before ++ .join kind relation :: after →
          ∃ b₀ : SelectBuilder .sourced, afterCalls? items before = some ⟨.sourced, b₀⟩
            ∧ (Clauses.ofCalls items before).source = some b₀.source := by
  refine ⟨isSome_afterCalls?_iff items calls, fun b hb => ⟨?_, ?_, ?_, ?_, ?_⟩⟩
  · rw [build_of_afterCalls? hb]
    cases items with
    | nil => simp [Projection.ofItems]
    | cons first rest => simp [Projection.ofItems]
  · rintro projection rfl
    rw [build_of_afterCalls? hb, Projection.ofItems_items]
    rfl
  · intro calls' b' hb' h
    rw [build_of_afterCalls? hb, build_of_afterCalls? hb']
    cases Projection.ofItems items with
    | error what => rfl
    | ok projection => simp only [described_congr h]
  · exact clauses_afterCalls? hb
  · rintro before kind relation after rfl
    exact exists_sourced_of_join hb

/-- Two conditions, two groupings and a join, around a relation: the last condition stays, the
groupings add up, and naming the relation first changes nothing. -/
theorem build_interleaved :
    let first : Expr := .identifier ⟨"a"⟩
    let second : Expr := .identifier ⟨"b"⟩
    let users : Relation := .named (.single ⟨"users"⟩)
    let posts : Relation := .named (.single ⟨"posts"⟩)
    let calls : List Call := [.groupBy [first], .filter first, .fromRelation users, .distinct,
      .join .cross posts, .filter second, .groupBy [second, first]]
    let calls' : List Call := [.fromRelation users, .join .cross posts, .groupBy [first],
      .filter first, .groupBy [second, first], .filter second, .distinct]
    ∃ b b', afterCalls? [.wildcard] calls = some b ∧ afterCalls? [.wildcard] calls' = some b'
      ∧ b.2.build.value = .ok
          { distinct := true
            projection := .single .wildcard
            source := some ⟨users, [⟨posts, .cross⟩]⟩
            condition := some second
            groupBy := [first, second, first]
            having := none }
      ∧ b.2.build = b'.2.build := by
  intro first second users posts calls calls'
  have h := (build_afterCalls? [.wildcard] calls).2 _ rfl
  have hclauses (clause : Clause) :
      calls.filter (·.clause == clause) = calls'.filter (·.clause == clause) := by
    cases clause <;> rfl
  exact ⟨_, _, rfl, rfl, h.2.1 (.single .wildcard) rfl, h.2.2.1 calls' _ rfl hclauses⟩

end SelectBuilder

end SqlTree
