import SqlTree.Sql.Render
import SqlTree.Storage.Query

/-!
# Nodes of any kind

A `Node` is a tree together with its kind, for callers who learn the kind only when they meet the
tree. Every kind can be stored and read; most can be written as SQL.
-/

namespace SqlTree

/-- How the trees of a kind are written as SQL, if they are. -/
def Kind.writer? : (kind : Kind) → Option (kind.Carrier → Writer)
  | .ident => some Render.write
  | .qualifiedName => some Render.write
  | .constant => some Render.write
  | .setOperator => some Render.write
  | .expr => some Render.write
  | .call => some Render.write
  | .binary => some Render.write
  | .relation => some Render.write
  | .joinCondition => some Render.write
  | .join => some Render.write
  | .fromClause => some Render.write
  | .selectItem => some Render.write
  | .select => some Render.write
  | .body => some Render.write
  | .orderItem => some Render.write
  | .cte => some Render.write
  | .query => some Render.write
  | .text | .flag | .long | .double | .maybe _ | .many _ | .operator | .direction | .joinKind
  | .projection => none

/-- The kinds whose SQL is also what is shown to people, as `impl_display!` lists them. -/
def Kind.isShown : Kind → Bool
  | .ident | .qualifiedName | .expr | .relation | .join | .fromClause | .selectItem | .select
  | .body | .orderItem | .cte | .query => true
  | _ => false

/-- A tree of any kind. -/
structure Node where
  kind : Kind
  tree : kind.Carrier

namespace Node

/-- How the node is written, if it is written at all. -/
def writer? (n : Node) : Option Writer := n.kind.writer?.map fun write => write n.tree

/-- Writes the node into a buffer. A node that has no SQL leaves no trace. -/
def write (n : Node) : Writer := n.writer?.getD id

instance : Render Node := ⟨write⟩

/-- The SQL of a node that has some. -/
def toSql? (n : Node) : Option (Logged String) := n.writer?.map fun _ => toSql n

/-- What is shown of a node of a kind that is shown. -/
def display? (n : Node) : Option (Logged String) := if n.kind.isShown then n.toSql? else none

/-- The text that the node is stored as. -/
def stored (n : Node) : String := n.kind.stored n.tree

/-- The node of a kind that a text stores. -/
def ofText (kind : Kind) (text : String) : Except Json.Fault Node :=
  (kind.read text).map (⟨kind, ·⟩)

/-- Are two nodes of one kind the same? -/
def same (m n : Node) : Bool :=
  if h : n.kind = m.kind then m.kind.same m.tree (h ▸ n.tree) else false

end Node

/-! ## A shared buffer -/

/-- One step of writing several things into one buffer. -/
inductive Action where
  | push (text : String)
  | render (n : Node)
  | commaSeparated (ns : List Node)

/-- Performs one step. -/
def Buffer.perform (b : Buffer) : Action → Buffer
  | .push text => b.push text
  | .render n => n.write b
  | .commaSeparated ns => b.commaSeparated ns

end SqlTree
