import Overload.Event
import Overload.Hierarchy.Basic
import Overload.Hierarchy.Lineage

/-!
Joins. The join of types is the nearest ancestor that they share: of the shared ancestors, those
that no other shared one extends are candidates, and the first candidate that says something about
its values is taken. Where the types disagree on a parameter of that ancestor, the parameter is
joined in turn, down to a given depth; beyond it, or where nothing is shared, it is left open.
-/
namespace Overload

namespace TypeExpr

mutual

/-- The types that a type stands for: the members of a union at any depth, without the annotations
on them. -/
def flatten : TypeExpr → List TypeExpr
  | union _ members => flattenAll members
  | t => [t.bare]

def flattenAll : List TypeExpr → List TypeExpr
  | [] => []
  | t :: ts => flatten t ++ flattenAll ts

end

/-- The first of the types, if all are the same type. -/
def agreed? : List TypeExpr → Option TypeExpr
  | [] => none
  | t :: ts => if ts.all (·.sameType t) then some t else none

def erasedName (t : TypeExpr) : String := t.name?.getD ""

end TypeExpr

open TypeExpr

def entryNamed? (name : String) (lineage : List TypeExpr) : Option TypeExpr :=
  findKey? erasedName name lineage

/-- The entries of the first lineage that all others have too, under any parameters. -/
def sharedEntries : List (List TypeExpr) → List TypeExpr
  | [] => []
  | first :: others => first.filter fun t => others.all fun l => (entryNamed? t.erasedName l).isSome

/-- What the lineages give for each parameter of a shared ancestor. -/
def columns (lineages : List (List TypeExpr)) (ancestor : TypeExpr) : List (List TypeExpr) :=
  let instances := lineages.filterMap (entryNamed? ancestor.erasedName)
  (List.range ancestor.params.length).map fun i => instances.filterMap fun t => t.params[i]?

/-- How a join comes out: as a type, or as a shared ancestor whose parameters are still to be
joined, each from a column. -/
inductive JoinPlan where
  | settled (t : TypeExpr)
  | ancestor (name : String) (columns : List (List TypeExpr))

/-- The type that a plan comes to, given a way to join a column of parameters. -/
def JoinPlan.resolve (onColumn : List TypeExpr → Except HierarchyError TypeExpr) :
    JoinPlan → Except HierarchyError TypeExpr
  | settled t => .ok t
  | ancestor name columns => do
      let params ← columns.mapM onColumn
      .ok (.named [] name params)

namespace Hierarchy

/-- The shared ancestors that no other shared one extends. -/
def minimalEntries (h : Hierarchy) (shared : List TypeExpr) : List TypeExpr :=
  shared.filter fun t =>
    !shared.any fun u =>
      u.erasedName != t.erasedName && h.isSubtypeName u.erasedName t.erasedName

/-- The first minimal ancestor that is not free of content, or else the first. -/
def chooseEntry? (h : Hierarchy) (minimal : List TypeExpr) : Option TypeExpr :=
  (minimal.find? fun t => !h.isContentFree t).or minimal.head?

def searchPlan (h : Hierarchy) (types : List TypeExpr) : Except HierarchyError JoinPlan := do
  let lineages ← types.mapM h.lineage
  match h.chooseEntry? (h.minimalEntries (sharedEntries lineages)) with
  | some ancestor => .ok (.ancestor ancestor.erasedName (columns lineages ancestor))
  | none => .ok (.settled h.topType)

/-- The plan for types none of which is a union. No types have the top type as their join, types
that agree have themselves, and an open parameter leaves all open. -/
def joinPlan (h : Hierarchy) (types : List TypeExpr) : Except HierarchyError JoinPlan :=
  match types with
  | [] => .ok (.settled h.topType)
  | _ =>
      match agreed? types with
      | some t => .ok (.settled t)
      | none =>
          if types.any isWildcard then .ok (.settled (.wildcard []))
          else h.searchPlan types

def joinBy (h : Hierarchy) (onColumn : List TypeExpr → Except HierarchyError TypeExpr)
    (types : List TypeExpr) : Except HierarchyError TypeExpr := do
  let plan ← h.joinPlan (flattenAll types)
  plan.resolve onColumn

/-- The join of a column of parameters: what they agree on, and otherwise their join if that says
something and the depth allows it. -/
def joinColumn (h : Hierarchy) : Nat → List TypeExpr → Except HierarchyError TypeExpr
  | 0, column => .ok ((agreed? column).getD (.wildcard []))
  | depth + 1, column =>
      match agreed? column with
      | some t => .ok t
      | none => do
          let t ← h.joinBy (joinColumn h depth) column
          .ok (if h.isContentFree t then .wildcard [] else t)

/-- The join of types, with parameters joined down to a depth. -/
def joinWithin (h : Hierarchy) (types : List TypeExpr) (depth : Nat) :
    Except HierarchyError TypeExpr :=
  h.joinBy (h.joinColumn depth) types

def defaultDepth : Nat := 8

def join (h : Hierarchy) (types : List TypeExpr) : Except HierarchyError TypeExpr :=
  h.joinWithin types defaultDepth

def columnEvents (join : List TypeExpr → Except HierarchyError TypeExpr)
    (events : List TypeExpr → List Event) : List (List TypeExpr) → List Event
  | [] => []
  | column :: columns =>
      match join column with
      | .ok _ => events column ++ columnEvents join events columns
      | .error _ => events column

def joinEventsBy (h : Hierarchy) (onColumn : List TypeExpr → Except HierarchyError TypeExpr)
    (events : List TypeExpr → List Event) (types : List TypeExpr) : List Event :=
  match h.joinPlan (flattenAll types) with
  | .ok (.ancestor name columns) =>
      columnEvents onColumn events columns ++
        match (JoinPlan.ancestor name columns).resolve onColumn with
        | .ok t => [.joined (flattenAll types).length t]
        | .error _ => []
  | _ => []

def joinColumnEvents (h : Hierarchy) : Nat → List TypeExpr → List Event
  | 0, _ => []
  | depth + 1, column =>
      match agreed? column with
      | some _ => []
      | none => h.joinEventsBy (h.joinColumn depth) (joinColumnEvents h depth) column

/-- A join that searches the lineages is reported, after the joins of its parameters. The first
error ends the report. -/
def joinEvents (h : Hierarchy) (types : List TypeExpr) (depth : Nat) : List Event :=
  h.joinEventsBy (h.joinColumn depth) (h.joinColumnEvents depth) types

end Hierarchy

end Overload
