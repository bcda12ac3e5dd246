import SqlTree.Error
import SqlTree.Log
import SqlTree.Storage.Read
import SqlTree.Storage.Write

/-!
# Stored queries
-/

namespace SqlTree

/-- `Query::to_json`: the text that a query is stored as. -/
def Query.toJson (q : Query) : String := Kind.query.stored q

/-- `Query::from_json`: the query that a text stores. A refusal is reported. -/
def Query.ofJson (text : String) : Logged (Except TreeError Query) :=
  match Kind.query.read text with
  | .ok q => return .ok q
  | .error fault => do
    Logged.report (.rejectedTree fault.message)
    return .error (.undecodable fault)

end SqlTree
