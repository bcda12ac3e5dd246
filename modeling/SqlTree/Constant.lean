import SqlTree.Double.Text
import SqlTree.Error

/-!
# Constants

The values that are written into SQL as literals.
-/

namespace SqlTree

/-- `Value`: a literal value. A double is meant to be finite, since SQL has no literal for the
others; `Constant.finite` checks that. -/
inductive Constant where
  /-- `Long` -/
  | long (n : Int64)
  /-- `Double` -/
  | double (x : Double)
  /-- `SingleQuotedString` -/
  | text (s : String)
  /-- `Boolean` -/
  | boolean (b : Bool)
  /-- `Null` -/
  | null
  deriving DecidableEq

/-- `Value::double`: the literal of a finite number. -/
def Constant.finite (x : Double) : Except TreeError Constant :=
  if x.isFinite then .ok (.double x) else .error (.nonFiniteDouble x)

end SqlTree
