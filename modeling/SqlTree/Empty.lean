/-!
# Lists that may not be empty

A `SELECT` without items and a name without segments have no SQL form. Both are refused where they
would be made, and where a stored tree holds them.
-/

namespace SqlTree

/-- The lists of a tree that hold at least one element. An empty one is refused, as
`EmptyProjection` or as `EmptyObjectName`. -/
inductive EmptyList where
  | projection
  | name
  deriving DecidableEq

def EmptyList.message : EmptyList → String
  | .projection => "SELECT requires at least one projection item"
  | .name => "object name requires at least one identifier"

end SqlTree
