import SqlTree.Proofs.Builder.Query
import SqlTree.Proofs.Builder.Select
import SqlTree.Proofs.Sql.Compositional

/-!
# What a run reports

An `Operation` is one thing that is asked for, an `Entry` the operation with its `Answer`, and a run
goes through any sequence of operations on one shared buffer. What a run reports is the reports of
its entries one behind the other (`events_run`): a tree that is written on its own is reported once,
with the bytes of its whole text, for the trees within it are written into the same buffer; a select
or a stored query that is refused is reported once; nothing else is.
-/

namespace SqlTree

/-! ## Operations -/

/-- Making something without reading or writing text. -/
inductive Construction where
  | node (n : Node)
  | name (parts : List Ident)
  | projection (items : List SelectItem)
  | finite (x : Double)
  | startSelect (items : List SelectItem)
  | callSelect (b : SelectBuilder.Any) (c : SelectBuilder.Call)
  | startQuery (core : QueryBuilder.Core)
  | callQuery (b : QueryBuilder) (c : QueryBuilder.Call)
  | finishQuery (b : QueryBuilder)

/-- One thing that is asked for. -/
inductive Operation where
  /-- writing into the shared buffer -/
  | act (action : Action)
  | toSql (n : Node)
  | display (n : Node)
  | fingerprint (q : Query)
  | store (n : Node)
  /-- reading a stored query -/
  | ofJson (text : String)
  /-- reading a stored tree of any kind, without a report -/
  | ofText (kind : Kind) (text : String)
  | build (b : SelectBuilder.Any)
  | construct (c : Construction)

/-- What comes back. -/
inductive Answer where
  | written
  | absent
  | text (text : String)
  | node (n : Node)
  | selectBuilder (b : SelectBuilder.Any)
  | queryBuilder (b : QueryBuilder)
  | refused (e : TreeError)
  | unread (fault : Json.Fault)

namespace Answer

/-- The text, if there is one. -/
def ofText? : Option String → Answer
  | some t => text t
  | none => absent

/-- The tree, unless it was refused. -/
def ofResult (kind : Kind) : Except TreeError kind.Carrier → Answer
  | .ok tree => node ⟨kind, tree⟩
  | .error e => refused e

end Answer

def Construction.answer : Construction → Answer
  | node n => .node n
  | name parts => .ofResult .qualifiedName ((QualifiedName.ofParts parts).mapError .empty)
  | projection items => .ofResult .projection ((Projection.ofItems items).mapError .empty)
  | finite x => .ofResult .constant (Constant.finite x)
  | startSelect items => .selectBuilder ⟨_, SelectStart.start.select items⟩
  | callSelect b c =>
    match SelectBuilder.call? b c with
    | some b' => .selectBuilder b'
    | none => .absent
  | startQuery core => .queryBuilder (.ofBody core.toBody)
  | callQuery b c => .queryBuilder (b.call c)
  | finishQuery b => .node ⟨.query, b.build⟩

namespace Operation

/-- Writes a tree on its own, if it can be. -/
def written? : Option (Logged String) → Logged Answer
  | some sql => .text <$> sql
  | none => pure .absent

/-- Performs an operation on the shared buffer. -/
def perform (b : Buffer) : Operation → Logged (Buffer × Answer)
  | act action => return (b.perform action, .written)
  | toSql n => return (b, ← written? n.toSql?)
  | display n => return (b, ← written? n.display?)
  | fingerprint q => return (b, .text (← q.fingerprint))
  | store n => return (b, .text n.stored)
  | ofJson text => return (b, .ofResult .query (← Query.ofJson text))
  | ofText kind text =>
    match Node.ofText kind text with
    | .ok n => return (b, .node n)
    | .error fault => return (b, .unread fault)
  | build s => return (b, .ofResult .select (← s.2.build))
  | construct c => return (b, c.answer)

/-- The action on the shared buffer, if the operation is one. -/
def action? : Operation → Option Action
  | act action => some action
  | _ => none

end Operation

/-! ## Entries -/

/-- An operation and its answer. -/
structure Entry where
  operation : Operation
  answer : Answer

/-- What is shown of a node to people. -/
def Node.shownText? (n : Node) : Option String := if n.kind.isShown then n.sqlText? else none

namespace Entry

/-- The report of a text that was written on its own. -/
def ofSql : Option String → List Event
  | some sql => [.rendered sql.utf8ByteSize]
  | none => []

/-- What is reported of an operation with its answer. -/
def report : Entry → List Event
  | ⟨.toSql n, _⟩ => ofSql n.sqlText?
  | ⟨.display n, _⟩ => ofSql n.shownText?
  | ⟨.fingerprint q, _⟩ => [.rendered q.sqlText.utf8ByteSize]
  | ⟨.build s, _⟩ => if s.2.items = [] then [.rejectedSelect EmptyList.projection.message] else []
  | ⟨.ofJson _, .refused (.undecodable fault)⟩ => [.rejectedTree fault.message]
  | _ => []

/-- The answers that the reported operations may have. -/
def Fits : Entry → Prop
  | ⟨.toSql n, a⟩ => a = .ofText? n.sqlText?
  | ⟨.display n, a⟩ => a = .ofText? n.shownText?
  | ⟨.fingerprint q, a⟩ => a = .text (Digest.ofText q.sqlText)
  | ⟨.build s, a⟩ =>
    if s.2.items = [] then a = .refused (.empty .projection)
    else ∃ select, a = .node ⟨.select, select⟩
  | ⟨.ofJson _, a⟩ =>
    (∃ q, a = .node ⟨.query, q⟩) ∨ ∃ fault, a = .refused (.undecodable fault)
  | _ => True

end Entry

namespace Operation

/-- Performs operations one after the other on one buffer. -/
def run (b : Buffer) : List Operation → Logged (Buffer × List Entry)
  | [] => return (b, [])
  | o :: rest => do
    let (b', a) ← o.perform b
    let (b'', entries) ← run b' rest
    return (b'', ⟨o, a⟩ :: entries)

/-! ## One operation -/

/-- However large a thing is, writing it on its own is one report. -/
theorem toSql_eq {α : Type} [Render α] {a : α} {sql : String}
    (h : (SqlTree.toSql a).value = sql) :
    SqlTree.toSql a = ⟨sql, [.rendered sql.utf8ByteSize]⟩ := by
  subst h
  rfl

/-- A tree that is written on its own is reported once, with the bytes of its whole text. -/
theorem written?_toSql? (n : Node) :
    written? n.toSql? = ⟨.ofText? n.sqlText?, Entry.ofSql n.sqlText?⟩ := by
  rw [Node.toSql?, Node.writer?_eq, Option.map_map]
  cases h : n.sqlText? with
  | none => rfl
  | some sql =>
    have hsql : n.sqlText = sql := by rw [Node.sqlText, h, Option.getD_some]
    rw [Option.map_some, Function.comp_apply, toSql_eq (n.value_toSql.trans hsql)]
    rfl

theorem written?_display? (n : Node) :
    written? n.display? = ⟨.ofText? n.shownText?, Entry.ofSql n.shownText?⟩ := by
  rw [Node.display?, Node.shownText?]
  split
  · exact written?_toSql? n
  · rfl

theorem fingerprint_eq (q : Query) :
    q.fingerprint = ⟨Digest.ofText q.sqlText, [.rendered q.sqlText.utf8ByteSize]⟩ := by
  rw [Query.fingerprint, toSql_eq q.value_toSql]
  rfl

/-- One operation: its report is that of its entry, its answer fits, and nothing but an action
touches the shared buffer. -/
theorem perform_spec (b : Buffer) (o : Operation) :
    (o.perform b).events = Entry.report ⟨o, (o.perform b).value.2⟩
    ∧ Entry.Fits ⟨o, (o.perform b).value.2⟩
    ∧ (o.perform b).value.1 = o.action?.toList.foldl Buffer.perform b := by
  cases o with
  | act action => exact ⟨rfl, trivial, rfl⟩
  | toSql n =>
    rw [perform, written?_toSql?]
    exact ⟨List.append_nil _, rfl, rfl⟩
  | display n =>
    rw [perform, written?_display?]
    exact ⟨List.append_nil _, rfl, rfl⟩
  | fingerprint q =>
    rw [perform, fingerprint_eq]
    exact ⟨rfl, rfl, rfl⟩
  | store n => exact ⟨rfl, trivial, rfl⟩
  | ofJson text =>
    rw [perform, Query.ofJson]
    cases Kind.query.read text with
    | ok q => exact ⟨rfl, .inl ⟨q, rfl⟩, rfl⟩
    | error fault => exact ⟨rfl, .inr ⟨fault, rfl⟩, rfl⟩
  | ofText kind text =>
    rw [perform]
    cases Node.ofText kind text <;> exact ⟨rfl, trivial, rfl⟩
  | build s =>
    have hbuild := s.2.build_eq
    rw [perform, hbuild, show s.2.clauses.items = s.2.items from rfl]
    by_cases hitems : s.2.items = []
    · rw [hitems]
      refine ⟨?_, ?_, rfl⟩
      · rw [Entry.report, if_pos hitems]
        rfl
      · rw [Entry.Fits, if_pos hitems]
        rfl
    · obtain ⟨first, rest, hcons⟩ := List.exists_cons_of_ne_nil hitems
      rw [hcons]
      refine ⟨?_, ?_, rfl⟩
      · rw [Entry.report, if_neg hitems]
        rfl
      · rw [Entry.Fits, if_neg hitems]
        exact ⟨_, rfl⟩
  | construct c => exact ⟨rfl, trivial, rfl⟩

/-! ## Runs -/

theorem run_cons (b : Buffer) (o : Operation) (rest : List Operation) :
    run b (o :: rest)
      = ⟨((run (o.perform b).value.1 rest).value.1,
          ⟨o, (o.perform b).value.2⟩ :: (run (o.perform b).value.1 rest).value.2),
        (o.perform b).events ++ (run (o.perform b).value.1 rest).events⟩ := by
  rw [run]
  exact congrArg (Logged.mk _) (congrArg _ (List.append_nil _))

/-- **What a run reports.** A run answers every operation in its turn. Its reports are those of its
entries, in their order: a tree that is written on its own, shown or fingerprinted is reported once,
with the bytes of its SQL, however many trees are within it; a select without items that is built
and a stored query that is not read are reported once each, the latter with the message inside the
error that is returned; everything else is silent. The shared buffer holds what the actions alone
leave in it. -/
theorem events_run (b : Buffer) (ops : List Operation) :
    (run b ops).value.2.map Entry.operation = ops
    ∧ (run b ops).events = (run b ops).value.2.flatMap Entry.report
    ∧ (∀ entry ∈ (run b ops).value.2, entry.Fits)
    ∧ (run b ops).value.1 = (ops.filterMap action?).foldl Buffer.perform b := by
  induction ops generalizing b with
  | nil => exact ⟨rfl, rfl, List.forall_mem_nil _, rfl⟩
  | cons o rest ih =>
    obtain ⟨hevents, hfits, hbuffer⟩ := perform_spec b o
    obtain ⟨hops, hreports, hall, hrest⟩ := ih (o.perform b).value.1
    rw [run_cons]
    refine ⟨?ops, ?reports, List.forall_mem_cons.2 ⟨hfits, hall⟩, ?buffer⟩
    case ops => rw [List.map_cons, hops]
    case reports => rw [hevents, hreports, List.flatMap_cons]
    case buffer =>
      rw [hrest, hbuffer, List.filterMap_cons]
      cases o.action? <;> rfl

/-- A query in parentheses in a query, with a name of one character and two bytes, is written on its
own and into the shared buffer, and the inner one is shown; a select without items is built, and one
with an item; a text that stores no query is read, and one that does. Four reports. -/
theorem events_run_nested :
    let inner : Query := .ofBody (.select (.ofProjection (.single (.expr (.identifier ⟨"é"⟩)))))
    let outer : Query := .ofBody (.query (.ofBody (.query inner)))
    let ops : List Operation := [.toSql ⟨.query, outer⟩, .act (.render ⟨.query, outer⟩),
      .display ⟨.query, inner⟩, .store ⟨.query, outer⟩,
      .build ⟨_, SelectStart.start.select []⟩, .build ⟨_, SelectStart.start.select [.wildcard]⟩,
      .ofJson "[]", .ofJson inner.toJson, .ofText .query "[]"]
    (run {} ops).events
      = [.rendered 13, .rendered 9,
          .rejectedSelect "SELECT requires at least one projection item",
          .rejectedTree "invalid length 0, expected struct Query with 5 elements"]
    ∧ Entry.Fits ⟨.toSql ⟨.query, outer⟩, .text "((SELECT é))"⟩
    ∧ (run {} ops).value.1.sql = "((SELECT é))" := by
  intro inner outer ops
  obtain ⟨-, hevents, hfits, hbuffer⟩ := events_run {} ops
  exact ⟨hevents.trans (by decide +kernel), hfits _ List.mem_cons_self,
    congrArg Buffer.sql (hbuffer.trans rfl)⟩

end Operation

end SqlTree
