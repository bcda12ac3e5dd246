import SqlTree.Tree

/-!
# Kinds of stored values

A document says nothing about what it holds: its reader has to know. A `Kind` names what is to be
read, and its carrier is the type of what reading yields.
-/

namespace SqlTree

/-- What a part of a document is read as. -/
inductive Kind where
  | text
  | flag
  | long
  | double
  /-- a value or `null`; a member that may be left out -/
  | maybe (kind : Kind)
  /-- a list of values -/
  | many (kind : Kind)
  | ident
  | qualifiedName
  | constant
  | operator
  | setOperator
  | direction
  | expr
  | call
  | binary
  | relation
  | joinCondition
  | joinKind
  | join
  | fromClause
  | selectItem
  | projection
  | select
  | body
  | orderItem
  | cte
  | query
  deriving DecidableEq

/-- The type of the values of a kind. -/
abbrev Kind.Carrier : Kind → Type
  | .text => String
  | .flag => Bool
  | .long => Int64
  | .double => Double
  | .maybe kind => Option kind.Carrier
  | .many kind => List kind.Carrier
  | .ident => Ident
  | .qualifiedName => QualifiedName
  | .constant => Constant
  | .operator => Operator
  | .setOperator => SetOperator
  | .direction => Direction
  | .expr => Expr
  | .call => Call
  | .binary => Binary
  | .relation => Relation
  | .joinCondition => JoinCondition
  | .joinKind => JoinKind
  | .join => Join
  | .fromClause => FromClause
  | .selectItem => SelectItem
  | .projection => Projection
  | .select => Select
  | .body => Body
  | .orderItem => OrderItem
  | .cte => Cte
  | .query => Query

end SqlTree
