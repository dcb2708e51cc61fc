import Overload.Hierarchy.Basic
import Overload.TypeExpr.Printer

/-!
Extending a hierarchy by declarations. The result has no name twice, only declared supertypes with
the right number of parameters, and no type among its own proper supertypes.
-/
namespace Overload.Hierarchy

mutual

/-- What stands as a parameter in a supertype: a variable of the declaration, an open parameter, or
a declared type whose parameters are of this kind again. -/
def validateParam (h : Hierarchy) (d : Declaration) : TypeExpr → Except HierarchyError Unit
  | .named _ name params =>
      if params = [] ∧ name ∈ d.params then .ok ()
      else if h.contains name then h.validateParams d params
      else .error (.unknownSupertype d.name name)
  | .wildcard _ => .ok ()
  | .union as members => .error (.invalidSupertype d.name (TypeExpr.union as members).text)

def validateParams (h : Hierarchy) (d : Declaration) : List TypeExpr → Except HierarchyError Unit
  | [] => .ok ()
  | t :: ts => do
      h.validateParam d t
      h.validateParams d ts

end

/-- A supertype is a declared type, raw or with the declared number of parameters. -/
def validateSupertype (h : Hierarchy) (d : Declaration) (t : TypeExpr) :
    Except HierarchyError Unit :=
  match t with
  | .named _ name params =>
      if params = [] ∧ name ∈ d.params then .error (.invalidSupertype d.name t.text)
      else if h.contains name then
        let expected := ((h.get? name).map (·.params.length)).getD 0
        if params ≠ [] ∧ params.length ≠ expected then
          .error (.arityMismatch name expected params.length)
        else h.validateParams d params
      else .error (.unknownSupertype d.name name)
  | _ => .error (.invalidSupertype d.name t.text)

def validateDeclaration (h : Hierarchy) (d : Declaration) : Except HierarchyError Unit :=
  d.supertypes.forM (h.validateSupertype d)

/-- Visits a name and all that it leads to, the last supertype first, and returns the names done
with. The names on the path are those whose supertypes are being visited; a supertype among them
closes a cycle. A path holds no name twice, which bounds the depth. -/
def visit (h : Hierarchy) :
    Nat → List String → List String → String → Except HierarchyError (List String)
  | 0, _, done, _ => .ok done
  | depth + 1, path, done, name =>
      if name ∈ done then .ok done
      else if (h.supernames name).any (name :: path).contains then .error (.cyclic name)
      else do
        let done ← (h.supernames name).reverse.foldlM (visit h depth (name :: path)) done
        .ok (name :: done)

/-- No declared name leads back to itself. -/
def validateAcyclic (h : Hierarchy) : Except HierarchyError Unit := do
  let _ ← (h.declarations.map Declaration.name).foldlM
    (h.visit (h.declarations.length + 1) []) []

def validate (h : Hierarchy) : Except HierarchyError Unit := do
  h.declarations.forM h.validateDeclaration
  h.validateAcyclic

/-- Adds a declaration whose name is new. -/
def declare (h : Hierarchy) (d : Declaration) : Except HierarchyError Hierarchy :=
  if h.contains d.name then .error (.duplicateType d.name)
  else .ok (h.insert d)

def extend (h : Hierarchy) (ds : List Declaration) : Except HierarchyError Hierarchy := do
  let extended ← ds.foldlM declare h
  extended.validate
  .ok extended

end Overload.Hierarchy
