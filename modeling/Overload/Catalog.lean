import Overload.Operation.Build

/-!
Catalogs: the queries and mutations of a schema, each made from the resolvers of its name.
-/
namespace Overload

structure Catalog where
  queries : List Operation := []
  mutations : List Operation := []

namespace Catalog

/-- One operation for each name, in the order in which the names first occur. -/
def buildAll (h : Hierarchy) (o : Options) (rs : List Resolver) :
    Except OperationError (List Operation) :=
  (groupBy Resolver.name rs).mapM fun group => Operation.build h o group.2

/-- The first name that makes no operation ends it, queries before mutations. -/
def build (h : Hierarchy) (o : Options) (queries mutations : List Resolver) :
    Except OperationError Catalog := do
  let queries ← buildAll h o queries
  let mutations ← buildAll h o mutations
  .ok { queries, mutations }

def query? (c : Catalog) (name : String) : Option Operation := c.queries.find? (·.name == name)

def mutation? (c : Catalog) (name : String) : Option Operation :=
  c.mutations.find? (·.name == name)

def size (c : Catalog) : Nat := c.queries.length + c.mutations.length

def isEmpty (c : Catalog) : Bool := c.queries.isEmpty && c.mutations.isEmpty

def groupEvents (h : Hierarchy) (o : Options) : List (String × List Resolver) → List Event
  | [] => []
  | (_, rs) :: groups =>
      Operation.buildEvents h o rs ++
        match Operation.build h o rs with
        | .ok _ => groupEvents h o groups
        | .error _ => []

def buildEvents (h : Hierarchy) (o : Options) (queries mutations : List Resolver) : List Event :=
  groupEvents h o (groupBy Resolver.name queries) ++
    match buildAll h o queries with
    | .error _ => []
    | .ok qs =>
        groupEvents h o (groupBy Resolver.name mutations) ++
          match buildAll h o mutations with
          | .error _ => []
          | .ok ms => [.built qs.length ms.length]

end Catalog

end Overload
