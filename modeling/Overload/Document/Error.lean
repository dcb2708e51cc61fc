import Overload.Hierarchy.Basic
import Overload.Json.Printer
import Overload.Text.Invisible
import Overload.TypeExpr.Reader

/-!
What can be wrong with a document. A malformed text is no JSON, or is not laid out as its place
demands; every other error concerns a JSON value that does not say what its place asks for.
-/
namespace Overload

inductive DocumentError where
  | malformed (cause : Json.SyntaxError)
  | unknownField (field : String) (known : List String)
  | missingField (field : String)
  | duplicateField (field : String)
  | wrongKind (found : Json) (wanted : String)
  | negativeCount (found : Int)
  | tooFewFields (length : Nat) (record : String) (fields : Nat)
  | tooManyFields (length : Nat)
  | unknownChoice (found : String) (known : List String)
  | notOneChoice
  | notTypeDocument
  | invalidType (cause : TypeExpr.SyntaxError)
  | invalidHierarchy (cause : HierarchyError)

namespace DocumentError

/-- Names to choose from: two of them with an `or`, more in a list. -/
def choiceText (names : List String) : String :=
  match names.map fun name => s!"`{name}`" with
  | [a] => a
  | [a, b] => s!"{a} or {b}"
  | quoted => "one of " ++ ", ".intercalate quoted

/-- A value as a message names it: a scalar by its text, an array or object by its kind. -/
def foundText : Json → String
  | .null => "null"
  | .bool b => s!"boolean `{b}`"
  | .integer n => s!"integer `{n}`"
  | .real x => s!"floating point `{(Json.real x).compact}`"
  | .string s => s!"string {Text.quoted s}"
  | .array _ => "sequence"
  | .object _ => "map"

def message : DocumentError → String
  | malformed cause => cause.message
  | unknownField field known => s!"unknown field `{field}`, expected {choiceText known}"
  | missingField field => s!"missing field `{field}`"
  | duplicateField field => s!"duplicate field `{field}`"
  | wrongKind found wanted => s!"invalid type: {foundText found}, expected {wanted}"
  | negativeCount found => s!"invalid value: integer `{found}`, expected usize"
  | tooFewFields length record fields =>
      s!"invalid length {length}, expected struct {record} with {fields} elements"
  | tooManyFields length => s!"invalid length {length}, expected fewer elements in array"
  | unknownChoice found known => s!"unknown variant `{found}`, expected {choiceText known}"
  | notOneChoice => "invalid value: map, expected map with a single key"
  | notTypeDocument => "data did not match any variant of untagged enum Repr"
  | invalidType cause => cause.message
  | invalidHierarchy cause => cause.message

end DocumentError

end Overload
