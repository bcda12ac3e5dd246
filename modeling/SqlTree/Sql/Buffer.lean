/-!
# The buffer that SQL is written into

Writing only ever appends. A `Writer` is a step from a buffer to a longer one; what it appends is
decided by what is written and never by what the buffer holds.
-/

namespace SqlTree

/-- `Renderer`: the text written so far. -/
structure Buffer where
  sql : String := ""
  deriving DecidableEq

/-- A step of writing: what a `render` does to the `Renderer`. -/
abbrev Writer := Buffer → Buffer

/-- `Render`: what can be written as SQL. -/
class Render (α : Type) where
  write : α → Writer

namespace Buffer

/-- Appends a text (`push_str`). -/
def push (b : Buffer) (text : String) : Buffer := ⟨b.sql ++ text⟩

@[simp] theorem sql_push (b : Buffer) (text : String) : (b.push text).sql = b.sql ++ text := rfl

/-- Appends what remains of a list after its first element, a separator before each. -/
def followedBy (separator : String) : List Writer → Writer
  | [], b => b
  | w :: rest, b => followedBy separator rest (w (b.push separator))

/-- Appends all of a list, a separator between neighbours. -/
def separated (separator : String) : List Writer → Writer
  | [], b => b
  | w :: rest, b => followedBy separator rest (w b)

/-- Appends a list between two texts; an empty list leaves no trace. -/
def listed (opening closing : String) : List Writer → Writer
  | [], b => b
  | w :: rest, b => (separated ", " (w :: rest) (b.push opening)).push closing

/-- Appends something behind a keyword, if it is there. -/
def optional (keyword : String) : Option Writer → Writer
  | none, b => b
  | some w, b => w (b.push keyword)

/-- `Renderer::comma_separated`: appends the items of a list, separated by a comma and a blank. -/
def commaSeparated {α : Type} [Render α] (b : Buffer) (items : List α) : Buffer :=
  separated ", " (items.map Render.write) b

end Buffer

/-- The SQL of a thing on its own. -/
def Render.sql {α : Type} [Render α] (a : α) : String := (Render.write a {}).sql

end SqlTree
