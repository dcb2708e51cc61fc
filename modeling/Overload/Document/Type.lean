import Overload.Document.Record
import Overload.TypeExpr.Printer

/-!
Documents of types. A type is written as its text. It is read from its text, or from a record with
the text and further annotations.
-/
namespace Overload

open Document

namespace Annotation

def layout : Layout Annotation where
  name := "Annotation"
  blank := { name := "" }
  fields :=
    [.needed "name" .string fun name a => { a with name },
     .optional "values" .table fun values a => { a with values }]

def decoder : Decoder Annotation := layout.decoder

/-- Values are written only where there are any. -/
def toJson (a : Annotation) : Json :=
  .object (("name", .string a.name) ::
    if a.values.entries.isEmpty then [] else [("values", .object a.values.entries)])

end Annotation

namespace TypeExpr

/-- The text of a type, and annotations to add to those in the text. -/
structure Annotated where
  text : String
  annotations : List Annotation := []

def Annotated.layout : Layout Annotated where
  name := "Annotated"
  blank := { text := "" }
  fields :=
    [.needed "type" .string fun text t => { t with text },
     .optional "annotations" (.list Annotation.decoder) fun annotations t =>
      { t with annotations }]

def Annotated.parse (t : Annotated) : Except DocumentError TypeExpr := do
  let type ← (TypeExpr.parse t.text).mapError .invalidType
  .ok (type.annotate t.annotations)

/-- Whatever is wrong with the layout of a document of a type, it is no document of a type. -/
def ofJson : Json → Except DocumentError TypeExpr
  | .string text => Annotated.parse { text }
  | value =>
      match Annotated.layout.ofJson value with
      | .ok t => t.parse
      | .error _ => .error .notTypeDocument

def decoder : Decoder TypeExpr := .whole ofJson

def toJson (t : TypeExpr) : Json := .string t.text

end TypeExpr

end Overload
