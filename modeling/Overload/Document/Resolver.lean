import Overload.Document.Type
import Overload.Resolver

/-!
Documents of arguments and resolvers. A default that is null is there, and is not left out.
-/
namespace Overload

open Document

/-- The member of an object for a value that may be missing. -/
def optionalMember (key : String) : Option Json → List (String × Json)
  | some value => [(key, value)]
  | none => []

/-- The member of an object for a flag, which is written only where it is set. -/
def flagMember (key : String) (flag : Bool) : List (String × Json) :=
  if flag then [(key, .bool true)] else []

def typesToJson (ts : List TypeExpr) : Json := .array (ts.map TypeExpr.toJson)

namespace Argument

def layout : Layout Argument where
  name := "ArgumentSpec"
  blank := { name := "", type := .wildcard [] }
  fields :=
    [.needed "name" .string fun name a => { a with name },
     .needed "type" TypeExpr.decoder fun type a => { a with type },
     .optional "description" (.option .string) fun description a => { a with description },
     .optional "defaultValue" .any fun value a => { a with default := some value },
     .optional "context" .bool fun context a => { a with context },
     .optional "mappable" .bool fun mappable a => { a with mappable }]

def decoder : Decoder Argument := layout.decoder

def toJson (a : Argument) : Json :=
  .object (
    [("name", .string a.name), ("type", a.type.toJson)] ++
      optionalMember "description" (a.description.map .string) ++
      optionalMember "defaultValue" a.default ++
      flagMember "context" a.context ++
      flagMember "mappable" a.mappable)

end Argument

namespace Resolver

def layout : Layout Resolver where
  name := "ResolverDocument"
  blank := { name := "", resultType := .wildcard [] }
  fields :=
    [.needed "name" .string fun name r => { r with name },
     .needed "resultType" TypeExpr.decoder fun resultType r => { r with resultType },
     .optional "arguments" (.list Argument.decoder) fun arguments r => { r with arguments },
     .optional "receiverTypes" (.list TypeExpr.decoder) fun ts r => r.withReceivers ts,
     .optional "batched" .bool fun batched r => { r with batched },
     .optional "unionSource" .bool fun unionSource r => { r with unionSource },
     .optional "description" (.option .string) fun description r => { r with description }]

def decoder : Decoder Resolver := layout.decoder

def toJson (r : Resolver) : Json :=
  .object (
    [("name", .string r.name),
     ("resultType", r.resultType.toJson),
     ("arguments", .array (r.arguments.map Argument.toJson)),
     ("receiverTypes", typesToJson r.receivers),
     ("batched", .bool r.batched),
     ("unionSource", .bool r.unionSource)] ++
      optionalMember "description" (r.description.map .string))

end Resolver

end Overload
