import Overload.Hierarchy.Basic
import Overload.Resolver
import Overload.TypeExpr.Printer

/-!
Operations: what the overloads of one name amount to together.
-/
namespace Overload

inductive ArgumentOrder where
  | firstOccurrence
  | alphabetical
deriving DecidableEq

structure Options where
  maxJoinDepth : Nat := 8
  argumentOrder : ArgumentOrder := .firstOccurrence
deriving DecidableEq

/-- The resolvers are those that the operation was made from, in their order. -/
structure Operation where
  name : String
  resultType : TypeExpr
  receivers : List TypeExpr
  arguments : List Argument
  batched : Bool
  resolvers : List Resolver

inductive OperationError where
  | noResolvers
  | incompatibleResults (operation : String) (types : List TypeExpr) (shared : TypeExpr)
  | differentReceivers (operation : String) (expected : List TypeExpr) (resolver : Nat)
      (found : List TypeExpr)
  | wrongType (operation : String) (cause : HierarchyError)

open TypeExpr in
def OperationError.message : OperationError → String
  | noResolvers => "cannot build an operation from an empty resolver set"
  | incompatibleResults operation types shared =>
      s!"resolvers for operation `{operation}` do not return compatible types: " ++
        s!"[{listText types}] only share `{shared.text}`"
  | differentReceivers operation expected resolver found =>
      s!"resolvers for operation `{operation}` expect different receiver types: " ++
        s!"resolver 0 expects [{listText expected}] " ++
        s!"but resolver {resolver} expects [{listText found}]"
  | wrongType operation cause => s!"operation `{operation}`: {cause.message}"

def firstText? (texts : List String) : Option String := texts.find? (· ≠ "")

def sameNames (as bs : List String) : Bool := as.all bs.contains && bs.all as.contains

namespace Operation

def description (op : Operation) : Option String :=
  firstText? (op.resolvers.filterMap (·.description))

def isOverloaded (op : Operation) : Bool := 1 < op.resolvers.length

def argument? (op : Operation) (name : String) : Option Argument :=
  op.arguments.find? (·.name == name)

/-- Which resolver serves a call with these arguments: the first whose clients supply exactly them,
and an only resolver in any case. -/
def resolverIndex? (op : Operation) (names : List String) : Option Nat :=
  (op.resolvers.findIdx? fun r => sameNames r.clientNames names).or
    (if op.resolvers.length = 1 then some 0 else none)

def resolverFor (op : Operation) (names : List String) : Option Resolver :=
  (op.resolverIndex? names).bind (op.resolvers[·]?)

end Operation

end Overload
