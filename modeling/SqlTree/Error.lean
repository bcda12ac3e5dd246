import SqlTree.Empty
import SqlTree.Json.Fault

/-!
# Errors

What can go wrong when a tree is built or read back. Writing a tree never fails.
-/

namespace SqlTree

/-- `AstError`: why a tree, or a part of one, cannot be made. -/
inductive TreeError where
  /-- `EmptyProjection` or `EmptyObjectName` -/
  | empty (what : EmptyList)
  /-- `NonFiniteDouble` -/
  | nonFiniteDouble (x : Double)
  /-- `Decode` -/
  | undecodable (fault : Json.Fault)
  deriving DecidableEq

def TreeError.message : TreeError → String
  | .empty what => what.message
  | .nonFiniteDouble x => "double literal must be finite, got " ++ x.sql
  | .undecodable fault => "failed to decode query tree: " ++ fault.message

end SqlTree
