import Mathlib.Data.List.Basic
import SqlTree.Builder.Query
import SqlTree.Proofs.Builder.Runs
import SqlTree.Proofs.Sql.Compositional

/-!
# Queries built by any sequence of calls

A query is built around a `Core`: a select, a whole query or a body. A `Call` is one call on a
builder, and `ofCalls` is the builder behind a core and a sequence of them. The body stays what the
core made it, named queries and orderings add up, and of limits and offsets the last one wins
(`build_ofCalls`); so calls about different clauses may change places. Without any call the query
has just the text of its core.
-/

namespace SqlTree.QueryBuilder

/-! ## Cores -/

/-- What a query is built around. -/
inductive Core where
  | select (select : Select)
  | query (query : Query)
  | body (body : Body)

namespace Core

/-- The body made of it. -/
def toBody : Core → Body
  | select s => .select s
  | query q => .query q
  | body b => b

/-- Its text as a body: a whole query stands in parentheses. -/
def sqlText : Core → String
  | select s => s.sqlText
  | query q => "(" ++ q.sqlText ++ ")"
  | body b => b.sqlText

theorem sqlText_toBody (core : Core) : core.toBody.sqlText = core.sqlText := by
  cases core <;> rfl

end Core

/-! ## Calls -/

/-- A call on a builder. -/
inductive Call where
  | named (name : Ident) (query : Query)
  | orderBy (expr : Expr) (direction : Option Direction)
  | limit (limit : Expr)
  | offset (offset : Expr)

/-- The clause that a call is about. -/
inductive Clause where
  | ctes
  | orderBy
  | limit
  | offset
  deriving DecidableEq

namespace Call

def clause : Call → Clause
  | named _ _ => .ctes
  | orderBy _ _ => .orderBy
  | limit _ => .limit
  | offset _ => .offset

def cte? : Call → Option Cte
  | named name query => some ⟨name, query⟩
  | _ => none

def orderItem? : Call → Option OrderItem
  | orderBy expr direction => some ⟨expr, direction⟩
  | _ => none

def limit? : Call → Option Expr
  | limit e => some e
  | _ => none

def offset? : Call → Option Expr
  | offset e => some e
  | _ => none

end Call

/-- The builder behind a call. -/
def call (b : QueryBuilder) : Call → QueryBuilder
  | .named name query => b.named name query
  | .orderBy expr direction => b.orderBy expr direction
  | .limit limit => b.limit limit
  | .offset offset => b.offset offset

/-- The builder behind a core and a sequence of calls. -/
def ofCalls (core : Core) (calls : List Call) : QueryBuilder :=
  calls.foldl call (.ofBody core.toBody)

/-! ## What one call does to each clause -/

section

variable (b : QueryBuilder) (c : Call)

@[simp] theorem body_call : (b.call c).query.body = b.query.body := by
  cases c <;> rfl

@[simp] theorem ctes_call : (b.call c).query.ctes = b.query.ctes ++ c.cte?.toList := by
  cases c <;> simp [call, named, orderBy, limit, offset, Call.cte?]

@[simp] theorem orderBy_call : (b.call c).query.orderBy = b.query.orderBy ++ c.orderItem?.toList := by
  cases c <;> simp [call, named, orderBy, limit, offset, Call.orderItem?]

@[simp] theorem limit_call : (b.call c).query.limit = c.limit?.or b.query.limit := by
  cases c <;> rfl

@[simp] theorem offset_call : (b.call c).query.offset = c.offset?.or b.query.offset := by
  cases c <;> rfl

end

/-! ## Built queries -/

/-- The query that a core and a sequence of calls describe, clause by clause. -/
def described (core : Core) (calls : List Call) : Query :=
  { ctes := calls.filterMap Call.cte?
    body := core.toBody
    orderBy := calls.filterMap Call.orderItem?
    limit := (calls.filterMap Call.limit?).getLast?
    offset := (calls.filterMap Call.offset?).getLast? }

theorem build_eq_described (core : Core) (calls : List Call) :
    (ofCalls core calls).build = described core calls := by
  have hbody := Calls.kept_foldl (·.query.body) body_call (ofBody core.toBody) calls
  have hctes := Calls.appended_foldl (·.query.ctes) ctes_call (ofBody core.toBody) calls
  have horder := Calls.appended_foldl (·.query.orderBy) orderBy_call (ofBody core.toBody) calls
  have hlimit := Calls.last_foldl (·.query.limit) limit_call (ofBody core.toBody) calls
  have hoffset := Calls.last_foldl (·.query.offset) offset_call (ofBody core.toBody) calls
  rw [← List.filterMap_eq_flatMap_toList] at hctes horder
  rw [build, ofCalls]
  generalize (calls.foldl call (ofBody core.toBody)).query = q at *
  obtain ⟨ctes, body, orderBy, limit, offset⟩ := q
  simp only [ofBody, Query.ofBody, List.nil_append, Option.or_none] at *
  rw [described, hbody, hctes, horder, hlimit, hoffset]

/-- Only the order of calls to the same clause matters. -/
theorem described_congr {calls calls' : List Call}
    (h : ∀ clause, calls.filter (·.clause == clause) = calls'.filter (·.clause == clause))
    (core : Core) : described core calls = described core calls' := by
  have hsaid {α : Type} {said : Call → Option α} (clause : Clause)
      (hclause : ∀ c : Call, c.clause ≠ clause → said c = none) :
      calls.filterMap said = calls'.filterMap said := by
    rw [← Calls.filterMap_filter_clause hclause, h, Calls.filterMap_filter_clause hclause]
  have hctes : calls.filterMap Call.cte? = calls'.filterMap Call.cte? :=
    hsaid .ctes fun c => by cases c <;> simp [Call.clause, Call.cte?]
  have horder : calls.filterMap Call.orderItem? = calls'.filterMap Call.orderItem? :=
    hsaid .orderBy fun c => by cases c <;> simp [Call.clause, Call.orderItem?]
  have hlimit : calls.filterMap Call.limit? = calls'.filterMap Call.limit? :=
    hsaid .limit fun c => by cases c <;> simp [Call.clause, Call.limit?]
  have hoffset : calls.filterMap Call.offset? = calls'.filterMap Call.offset? :=
    hsaid .offset fun c => by cases c <;> simp [Call.clause, Call.offset?]
  rw [described, described, hctes, horder, hlimit, hoffset]

/-- **Building a query from any sequence of calls.** The body is that of the core, the named queries
and the orderings are those of the calls in their order, and the limit and the offset are those that
were named last. So only the order of calls about the same clause matters, and two neighbours about
different clauses may change places. Without calls the query is written as its core is. -/
theorem build_ofCalls (core : Core) (calls : List Call) :
    (ofCalls core calls).build =
      { ctes := calls.filterMap Call.cte?
        body := core.toBody
        orderBy := calls.filterMap Call.orderItem?
        limit := (calls.filterMap Call.limit?).getLast?
        offset := (calls.filterMap Call.offset?).getLast? }
    ∧ (∀ calls' : List Call,
        (∀ clause, calls.filter (·.clause == clause) = calls'.filter (·.clause == clause)) →
        (ofCalls core calls).build = (ofCalls core calls').build)
    ∧ (∀ before c d after, calls = before ++ c :: d :: after → c.clause ≠ d.clause →
        (ofCalls core calls).build = (ofCalls core (before ++ d :: c :: after)).build)
    ∧ (toSql (ofCalls core []).build).value = core.sqlText := by
  have hcongr {calls' : List Call}
      (h : ∀ clause, calls.filter (·.clause == clause) = calls'.filter (·.clause == clause)) :
      (ofCalls core calls).build = (ofCalls core calls').build := by
    rw [build_eq_described, build_eq_described, described_congr h]
  refine ⟨build_eq_described core calls, fun calls' => hcongr, ?swap, ?bare⟩
  case swap =>
    rintro before c d after rfl hclause
    exact hcongr fun clause => Calls.filter_clause_swap hclause before after clause
  case bare =>
    have hbare : (ofCalls core []).build = .ofBody core.toBody := rfl
    rw [hbare, Query.value_toSql, Query.sqlText_ofBody, core.sqlText_toBody]

/-- Two limits, two offsets and two named queries around an ordering: the last limit and the last
offset stay, the named queries keep their order, and the ordering may come first. -/
theorem build_ofCalls_overwritten :
    let one : Expr := .constant (.long 1)
    let two : Expr := .constant (.long 2)
    let inner : Query := .ofBody (.select (.ofProjection (.single .wildcard)))
    let calls : List Call := [.limit one, .named ⟨"a"⟩ inner, .offset two, .orderBy one none,
      .limit two, .named ⟨"b"⟩ inner, .offset one]
    let calls' : List Call := [.orderBy one none, .limit one, .limit two, .named ⟨"a"⟩ inner,
      .named ⟨"b"⟩ inner, .offset two, .offset one]
    (ofCalls (.query inner) calls).build =
        { ctes := [⟨⟨"a"⟩, inner⟩, ⟨⟨"b"⟩, inner⟩]
          body := .query inner
          orderBy := [⟨one, none⟩]
          limit := some two
          offset := some one }
      ∧ (∀ clause, calls.filter (·.clause == clause) = calls'.filter (·.clause == clause))
      ∧ (ofCalls (.query inner) calls).build = (ofCalls (.query inner) calls').build
      ∧ (Call.limit one).clause ≠ (Call.named ⟨"a"⟩ inner).clause
      ∧ (ofCalls (.query inner) calls).build
          = (ofCalls (.query inner) (.named ⟨"a"⟩ inner :: .limit one :: calls.drop 2)).build
      ∧ (toSql (ofCalls (.query inner) []).build).value = "(SELECT *)" := by
  intro one two inner calls calls'
  have hclauses (clause : Clause) :
      calls.filter (·.clause == clause) = calls'.filter (·.clause == clause) := by
    cases clause <;> rfl
  have hne : (Call.limit one).clause ≠ (Call.named ⟨"a"⟩ inner).clause := by decide
  obtain ⟨hbuild, hcongr, hswap, hbare⟩ := build_ofCalls (.query inner) calls
  exact ⟨hbuild, hclauses, hcongr calls' hclauses, hne, hswap [] _ _ _ rfl hne, hbare⟩

end SqlTree.QueryBuilder
