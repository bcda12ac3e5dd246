import SqlTree.Empty

/-!
# Names

An identifier is any text; quoting is left to whoever chose it. A qualified name such as
`public.users` has at least one segment, which its shape guarantees.
-/

namespace SqlTree

/-- `Ident`: a bare SQL identifier. -/
structure Ident where
  text : String
  deriving DecidableEq

/-- `ObjectName`: a name with one or more segments. -/
structure QualifiedName where
  first : Ident
  rest : List Ident
  deriving DecidableEq

namespace QualifiedName

/-- The `ObjectName` of one `Ident`. -/
def single (segment : Ident) : QualifiedName := ⟨segment, []⟩

/-- `ObjectName::parts`: all segments, outermost first. -/
def parts (n : QualifiedName) : List Ident := n.first :: n.rest

/-- `ObjectName::new`: the name with these segments, of which there must be one. -/
def ofParts : List Ident → Except EmptyList QualifiedName
  | [] => .error .name
  | first :: rest => .ok ⟨first, rest⟩

/-- `ObjectName::child`: one more segment, so that `public` becomes `public.users`. -/
def child (n : QualifiedName) (segment : Ident) : QualifiedName :=
  { n with rest := n.rest ++ [segment] }

/-- `object_name!`: the name with these texts as segments. -/
def ofTexts (first : String) (rest : List String) : QualifiedName :=
  rest.foldl (fun n text => n.child ⟨text⟩) (single ⟨first⟩)

@[simp] theorem ofParts_parts (n : QualifiedName) : ofParts n.parts = .ok n := rfl

theorem parts_of_ofParts {parts : List Ident} {n : QualifiedName} (h : ofParts parts = .ok n) :
    n.parts = parts := by
  cases parts with
  | nil => simp [ofParts] at h
  | cons first rest =>
    simp only [ofParts, Except.ok.injEq] at h
    exact h ▸ rfl

end QualifiedName

end SqlTree
