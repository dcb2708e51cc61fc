import Overload.TypeExpr.Basic

/-!
Resolvers: the overloads from which an operation is made.
-/
namespace Overload

/-- An argument of a resolver. A default of `null` is a default; none is not. A context argument is
supplied by the server, not by clients. -/
structure Argument where
  name : String
  type : TypeExpr
  description : Option String := none
  default : Option Json := none
  context : Bool := false
  mappable : Bool := false
deriving BEq

/-- A resolver of a name. Its receivers are the types that it can be called on, each once. A union
source asks for the union of the result types instead of their join. -/
structure Resolver where
  name : String
  resultType : TypeExpr
  arguments : List Argument := []
  receivers : List TypeExpr := []
  batched : Bool := false
  unionSource : Bool := false
  description : Option String := none
  distinct : TypeExpr.Distinct receivers := by first | exact TypeExpr.distinct_nil | decide

namespace Resolver

instance : BEq Resolver where
  beq r s :=
    r.name == s.name && r.resultType == s.resultType && r.arguments == s.arguments &&
      r.receivers == s.receivers && r.batched == s.batched && r.unionSource == s.unionSource &&
      r.description == s.description

def argument? (r : Resolver) (name : String) : Option Argument :=
  r.arguments.find? (·.name == name)

/-- Adds a receiver, unless the same type is one already. -/
def withReceiver (r : Resolver) (t : TypeExpr) : Resolver :=
  { r with
    receivers := TypeExpr.addType r.receivers t
    distinct := TypeExpr.distinct_addType r.distinct t }

def withReceivers (r : Resolver) (ts : List TypeExpr) : Resolver := ts.foldl withReceiver r

/-- The names of the arguments that clients supply. -/
def clientNames (r : Resolver) : List String :=
  (r.arguments.filter (!·.context)).map (·.name)

end Resolver

end Overload
