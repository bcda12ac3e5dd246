import SqlTree.Digest
import SqlTree.Log
import SqlTree.Sql.Write

/-!
# The SQL of a tree on its own

Asking for the text of a tree reports how long it is, once, however many subqueries it has: they are
all written into one buffer.
-/

namespace SqlTree

/-- `Render::to_sql`: the SQL of a tree. -/
def toSql {α : Type} [Render α] (a : α) : Logged String := do
  let text := Render.sql a
  Logged.report (.rendered text.utf8ByteSize)
  return text

/-- `Query::fingerprint`: a digest of the SQL. Queries with the same text have the same one. -/
def Query.fingerprint (q : Query) : Logged String := Digest.ofText <$> toSql q

end SqlTree
