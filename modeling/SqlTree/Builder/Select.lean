import SqlTree.Error
import SqlTree.Log
import SqlTree.Tree

/-!
# Building a select clause by clause

A select starts with its projection. A relation may be added once, and only then can anything be
joined to it: the phase is part of the type, and a builder in the sourced phase holds the relation
itself, so no join is ever without one. The other clauses come in any order; the last condition
wins, and groupings add up.

Only building can fail, for the projection may be empty.
-/

namespace SqlTree

namespace SelectBuilder

/-- Is there a relation yet? -/
inductive Phase where
  /-- `SelectState` -/
  | projected
  /-- `FromState` -/
  | sourced
  deriving DecidableEq

/-- What is known of the `FROM` clause in a phase. The `from` of `Parts` is `None` in the first phase
and never in the second. -/
abbrev Phase.Source : Phase → Type
  | .projected => Unit
  | .sourced => FromClause

/-- The `FROM` clause of the select. -/
def Phase.source? : (phase : Phase) → phase.Source → Option FromClause
  | .projected, _ => none
  | .sourced, source => some source

end SelectBuilder

/-- `SelectBuilder`, from its `select` on: the `Parts` of a select in the making. -/
structure SelectBuilder (phase : SelectBuilder.Phase) where
  items : List SelectItem
  isDistinct : Bool
  source : phase.Source
  condition : Option Expr
  grouping : List Expr
  groupCondition : Option Expr

/-- `SelectBuilder` in `InitialState`: a select without even a projection. -/
inductive SelectStart where
  /-- `SelectBuilder::new` -/
  | start

/-- `SelectBuilder::select`: sets the projection. -/
def SelectStart.select (_ : SelectStart) (items : List SelectItem) : SelectBuilder .projected where
  items := items
  isDistinct := false
  source := ()
  condition := none
  grouping := []
  groupCondition := none

namespace SelectBuilder

variable {phase : Phase}

/-- `SelectBuilder::from`: sets the relation of the `FROM` clause. -/
def fromRelation (b : SelectBuilder .projected) (relation : Relation) : SelectBuilder .sourced :=
  { b with source := .ofRelation relation }

/-- `SelectBuilder::join`: joins one more relation. -/
def join (b : SelectBuilder .sourced) (kind : JoinKind) (relation : Relation) :
    SelectBuilder .sourced :=
  { b with source := FromClause.join b.source ⟨relation, kind⟩ }

/-- `SelectBuilder::distinct`: drops repeated rows. -/
def distinct (b : SelectBuilder phase) : SelectBuilder phase := { b with isDistinct := true }

/-- `SelectBuilder::where_clause`: sets the `WHERE` condition. -/
def filter (b : SelectBuilder phase) (condition : Expr) : SelectBuilder phase :=
  { b with condition := some condition }

/-- `SelectBuilder::group_by`: adds to the `GROUP BY` clause. -/
def groupBy (b : SelectBuilder phase) (exprs : List Expr) : SelectBuilder phase :=
  { b with grouping := b.grouping ++ exprs }

/-- `SelectBuilder::having`: sets the `HAVING` condition. -/
def having (b : SelectBuilder phase) (condition : Expr) : SelectBuilder phase :=
  { b with groupCondition := some condition }

/-- `SelectBuilder::build`: the select, unless its projection is empty; that is reported. -/
def build (b : SelectBuilder phase) : Logged (Except TreeError Select) :=
  match Projection.ofItems b.items with
  | .ok projection =>
    return .ok
      { distinct := b.isDistinct
        projection
        source := phase.source? b.source
        condition := b.condition
        groupBy := b.grouping
        having := b.groupCondition }
  | .error what => do
    Logged.report (.rejectedSelect what.message)
    return .error (.empty what)

end SelectBuilder

end SqlTree
