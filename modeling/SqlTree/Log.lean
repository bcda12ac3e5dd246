/-!
# Log events

What an operation reports besides its result. Nothing is printed here: events are collected in the
order in which they happen, and whoever runs the operation decides what to do with them.
-/

namespace SqlTree

/-- Something worth reporting. -/
inductive Event where
  /-- in `to_sql`: a tree was written on its own; so many bytes of UTF-8 -/
  | rendered (bytes : Nat)
  /-- in `SelectBuilder::build`: a select was not built -/
  | rejectedSelect (message : String)
  /-- in `Query::from_json`: a stored tree was not read -/
  | rejectedTree (message : String)
  deriving DecidableEq

/-- The line that an event leaves in a log. -/
def Event.line : Event → String
  | .rendered bytes => "TRACE rendered SQL bytes=" ++ toString bytes
  | .rejectedSelect message => "DEBUG rejected SELECT error=" ++ message
  | .rejectedTree message => "DEBUG rejected serialized query tree error=" ++ message

/-- A result, and the events on the way to it. -/
structure Logged (α : Type) where
  value : α
  events : List Event
  deriving DecidableEq

namespace Logged

/-- Reports one event. -/
def report (e : Event) : Logged Unit := ⟨(), [e]⟩

instance : Monad Logged where
  pure a := ⟨a, []⟩
  bind m f := ⟨(f m.value).value, m.events ++ (f m.value).events⟩

end Logged

end SqlTree
