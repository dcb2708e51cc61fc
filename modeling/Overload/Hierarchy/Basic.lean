import Overload.Sorted
import Overload.TypeExpr.Basic

/-!
Hierarchies of nominal types. A declaration names a type, its parameters and its supertypes, which
may mention the parameters. Every type extends the top type, which is not itself declared.
-/
namespace Overload

/-- A marker is a type without content of its own, such as one that says values can be copied. -/
structure Declaration where
  name : String
  params : List String := []
  supertypes : List TypeExpr := []
  marker : Bool := false
  description : Option String := none
deriving BEq

/-- The declarations stand in the order of their names, each name once. -/
@[ext]
structure Hierarchy where
  top : String
  declarations : List Declaration := []
  ascending : Ascending Declaration.name declarations := by
    first | exact .nil | decide +kernel

inductive HierarchyError where
  | unknownType (name : String)
  | arityMismatch (name : String) (expected actual : Nat)
  | duplicateType (name : String)
  | unknownSupertype (name supertype : String)
  | invalidSupertype (name supertype : String)
  | cyclic (name : String)
deriving DecidableEq

def HierarchyError.message : HierarchyError → String
  | unknownType name => s!"type `{name}` is not declared in the type hierarchy"
  | arityMismatch name expected actual =>
      s!"type `{name}` expects {expected} type parameter(s) but {actual} were supplied"
  | duplicateType name => s!"type `{name}` is declared more than once"
  | unknownSupertype name supertype => s!"type `{name}` extends undeclared type `{supertype}`"
  | invalidSupertype name supertype =>
      s!"type `{name}` cannot extend `{supertype}`: supertypes must be declared nominal types"
  | cyclic name => s!"type `{name}` is part of an inheritance cycle"

namespace Hierarchy

/-- Adds a declaration, instead of the one that has its name. -/
def insert (h : Hierarchy) (d : Declaration) : Hierarchy :=
  { h with
    declarations := insertSorted Declaration.name d h.declarations
    ascending := h.ascending.insertSorted d }

def including (h : Hierarchy) (ds : List Declaration) : Hierarchy := ds.foldl insert h

def topType (h : Hierarchy) : TypeExpr := .named [] h.top []

def get? (h : Hierarchy) (name : String) : Option Declaration :=
  findKey? Declaration.name name h.declarations

def declares (h : Hierarchy) (name : String) : Bool := (h.get? name).isSome

/-- Whether the name is that of the top type or of a declared one. -/
def contains (h : Hierarchy) (name : String) : Bool := name == h.top || h.declares name

def declaration (h : Hierarchy) (name : String) : Except HierarchyError Declaration :=
  match h.get? name with
  | some d => .ok d
  | none => .error (.unknownType name)

def isTop (h : Hierarchy) (t : TypeExpr) : Bool := t.name? == some h.top

/-- Whether a type says nothing about its values: the top type, a marker or an open parameter. -/
def isContentFree (h : Hierarchy) : TypeExpr → Bool
  | .wildcard _ => true
  | .named _ name _ => name == h.top || ((h.get? name).map Declaration.marker).getD false
  | .union _ _ => false

/-- How many parameters a declared name takes; the top type takes none. -/
def arity (h : Hierarchy) (name : String) : Except HierarchyError Nat :=
  if name = h.top then .ok 0
  else do return (← h.declaration name).params.length

mutual

/-- Every name in a type must be declared, and have as many parameters as declared or none. -/
def check (h : Hierarchy) : TypeExpr → Except HierarchyError Unit
  | .named _ name params => do
      let expected ← h.arity name
      if params ≠ [] ∧ params.length ≠ expected then
        .error (.arityMismatch name expected params.length)
      else h.checkAll params
  | .wildcard _ => .ok ()
  | .union _ members => h.checkAll members

def checkAll (h : Hierarchy) : List TypeExpr → Except HierarchyError Unit
  | [] => .ok ()
  | t :: ts => do
      h.check t
      h.checkAll ts

end

/-- The names of the declared supertypes; an undeclared name has none. -/
def supernames (h : Hierarchy) (name : String) : List String :=
  match h.get? name with
  | some d => d.supertypes.filterMap TypeExpr.name?
  | none => []

/-- The names met from the pending ones along supertypes, each once. Every round takes a name out
of the unseen ones, so there need be no more rounds than unseen names. -/
def reach (h : Hierarchy) : Nat → List String → List String → List String
  | 0, _, _ => []
  | rounds + 1, unseen, pending =>
      match pending.dropWhile (!unseen.contains ·) with
      | [] => []
      | name :: rest => name :: reach h rounds (unseen.erase name) (h.supernames name ++ rest)

def reachable (h : Hierarchy) (name : String) : List String :=
  h.reach h.declarations.length (h.declarations.map Declaration.name) [name]

/-- A name is a subtype of itself, of the top type, and of what its supertypes are subtypes of. -/
def isSubtypeName (h : Hierarchy) (sub sup : String) : Bool :=
  sub == sup || sup == h.top ||
    (h.reachable sub).any fun name => (h.supernames name).contains sup

end Hierarchy

end Overload
