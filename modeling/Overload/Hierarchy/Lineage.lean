import Overload.Hierarchy.Basic

/-!
The lineage of a type: the type itself and all its supertypes, each with the parameters that the
type gives it, in breadth-first order and with the top type last.
-/
namespace Overload

/-- The arguments for the parameters of a declaration. A raw type leaves all of them open. -/
def Declaration.instantiate (d : Declaration) (args : List TypeExpr) :
    Except HierarchyError (List TypeExpr) :=
  if args = [] then .ok (d.params.map fun _ => .wildcard [])
  else if args.length = d.params.length then .ok args
  else .error (.arityMismatch d.name d.params.length args.length)

def Declaration.supertypesAt (d : Declaration) (args : List TypeExpr) : List TypeExpr :=
  d.supertypes.map (TypeExpr.substitute d.params args)

namespace Hierarchy

/-- What the search leaves aside: types without a name, the top type, and names met before. -/
def passesOver (h : Hierarchy) (seen : List String) (t : TypeExpr) : Bool :=
  match t.name? with
  | some name => name == h.top || seen.contains name
  | none => true

/-- The lineage of the types in the queue without the top type. Every round meets a new name, so
there need be one round more than there are declarations. -/
def lineageOf (h : Hierarchy) :
    Nat → List String → List TypeExpr → Except HierarchyError (List TypeExpr)
  | 0, _, _ => .ok []
  | rounds + 1, seen, queue =>
      match queue.dropWhile (h.passesOver seen) with
      | .named _ name params :: queue => do
          let d ← h.declaration name
          let args ← d.instantiate params
          let later ← lineageOf h rounds (name :: seen) (queue ++ d.supertypesAt args)
          .ok (.named [] name args :: later)
      | _ => .ok []

def lineage (h : Hierarchy) (t : TypeExpr) : Except HierarchyError (List TypeExpr) :=
  match t.name? with
  | none => .ok [h.topType]
  | some _ => do
      let entries ← h.lineageOf (h.declarations.length + 1) [] [t.bare]
      .ok (entries ++ [h.topType])

end Hierarchy

end Overload
