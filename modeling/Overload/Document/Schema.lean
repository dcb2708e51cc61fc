import Overload.Catalog
import Overload.Document.Hierarchy
import Overload.Document.Options

/-!
Documents of schemas: the resolvers of all queries and mutations, with the hierarchy and the options
to build them under. The operations and the catalog that are built are only written.
-/
namespace Overload

open Document

structure Schema where
  hierarchy : Option Hierarchy := none
  options : Options := {}
  queries : List Resolver := []
  mutations : List Resolver := []

namespace Schema

def layout : Layout Schema where
  name := "SchemaFile"
  blank := {}
  fields :=
    [.optional "hierarchy" (.option Hierarchy.decoder) fun hierarchy s => { s with hierarchy },
     .optional "options" Options.decoder fun options s => { s with options },
     .optional "queries" (.list Resolver.decoder) fun queries s => { s with queries },
     .optional "mutations" (.list Resolver.decoder) fun mutations s => { s with mutations }]

def decoder : Decoder Schema := layout.decoder

end Schema

def Operation.toJson (op : Operation) : Json :=
  .object (
    [("name", .string op.name),
     ("resultType", op.resultType.toJson),
     ("receiverTypes", typesToJson op.receivers),
     ("arguments", .array (op.arguments.map Argument.toJson)),
     ("batched", .bool op.batched)] ++
      optionalMember "description" (op.description.map .string))

def Catalog.toJson (c : Catalog) : Json :=
  .object
    [("queries", .array (c.queries.map Operation.toJson)),
     ("mutations", .array (c.mutations.map Operation.toJson))]

end Overload
