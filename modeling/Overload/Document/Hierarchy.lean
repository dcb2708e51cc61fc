import Overload.Document.Resolver
import Overload.Hierarchy.Builtin
import Overload.Hierarchy.Validity

/-!
Documents of declarations and hierarchies. A hierarchy is read only if it is valid.
-/
namespace Overload

open Document

namespace Declaration

def layout : Layout Declaration where
  name := "TypeDecl"
  blank := { name := "" }
  fields :=
    [.needed "name" .string fun name d => { d with name },
     .optional "params" (.list .string) fun params d => { d with params },
     .optional "extends" (.list TypeExpr.decoder) fun supertypes d => { d with supertypes },
     .optional "marker" .bool fun marker d => { d with marker },
     .optional "description" (.option .string) fun description d => { d with description }]

def decoder : Decoder Declaration := layout.decoder

/-- The member of an object for a list, which is written only where there is something in it. -/
def listMember (key : String) : List Json → List (String × Json)
  | [] => []
  | items => [(key, .array items)]

def toJson (d : Declaration) : Json :=
  .object (
    [("name", .string d.name)] ++
      listMember "params" (d.params.map .string) ++
      listMember "extends" (d.supertypes.map TypeExpr.toJson) ++
      flagMember "marker" d.marker ++
      optionalMember "description" (d.description.map .string))

end Declaration

/-- What a document says of a hierarchy: its top type, whether it starts from the builtin types, and
the types that it adds. -/
structure HierarchyOutline where
  top : Option String := none
  builtins : Bool := true
  types : List Declaration := []

namespace HierarchyOutline

def layout : Layout HierarchyOutline where
  name := "HierarchyDocument"
  blank := {}
  fields :=
    [.optional "top" (.option .string) fun top h => { h with top },
     .optional "builtins" .bool fun builtins h => { h with builtins },
     .optional "types" (.list Declaration.decoder) fun types h => { h with types }]

def hierarchy (outline : HierarchyOutline) : Except HierarchyError Hierarchy :=
  let top := outline.top.getD Hierarchy.defaultTop
  let base := if outline.builtins then Hierarchy.builtinUnder top else { top }
  base.extend outline.types

end HierarchyOutline

def Hierarchy.decoder : Decoder Hierarchy :=
  HierarchyOutline.layout.decoder.refine fun outline =>
    outline.hierarchy.mapError .invalidHierarchy

def DocumentError.hierarchyMessage (e : DocumentError) : String :=
  s!"invalid type hierarchy document: {e.message}"

end Overload
