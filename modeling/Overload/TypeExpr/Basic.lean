import Overload.Annotation

/-!
Type expressions: a name with parameters, an open parameter, or a union of types. Every node
carries annotations. Two expressions are the same type when they agree up to annotations; equality
takes the annotations into account at every level.
-/
namespace Overload

inductive TypeExpr where
  | named (annotations : List Annotation) (name : String) (params : List TypeExpr)
  | wildcard (annotations : List Annotation)
  | union (annotations : List Annotation) (members : List TypeExpr)

namespace TypeExpr

instance : Inhabited TypeExpr := ⟨.wildcard []⟩

def annotations : TypeExpr → List Annotation
  | named as _ _ | wildcard as | union as _ => as

/-- The same node with other annotations. What is below it keeps its own. -/
def setAnnotations (as : List Annotation) : TypeExpr → TypeExpr
  | named _ name params => named as name params
  | wildcard _ => wildcard as
  | union _ members => union as members

/-- Adds those annotations that the node does not carry yet. -/
def annotate (t : TypeExpr) (as : List Annotation) : TypeExpr :=
  t.setAnnotations (mergeAnnotations t.annotations as)

/-- Takes the annotations off the node, not off its parameters or members. -/
def bare (t : TypeExpr) : TypeExpr := t.setAnnotations []

def hasAnnotation (t : TypeExpr) (name : String) : Bool := t.annotations.any (·.name == name)

def name? : TypeExpr → Option String
  | named _ name _ => some name
  | _ => none

def params : TypeExpr → List TypeExpr
  | named _ _ params => params
  | _ => []

def members? : TypeExpr → Option (List TypeExpr)
  | union _ members => some members
  | _ => none

def isWildcard : TypeExpr → Bool
  | wildcard _ => true
  | _ => false

def isUnion : TypeExpr → Bool
  | union _ _ => true
  | _ => false

mutual

def same : TypeExpr → TypeExpr → Bool
  | named as a ps, named bs b qs => as == bs && a == b && sameAll ps qs
  | wildcard as, wildcard bs => as == bs
  | union as ps, union bs qs => as == bs && sameAll ps qs
  | _, _ => false

def sameAll : List TypeExpr → List TypeExpr → Bool
  | [], [] => true
  | p :: ps, q :: qs => same p q && sameAll ps qs
  | _, _ => false

end

instance : BEq TypeExpr := ⟨same⟩

mutual

/-- Equality up to annotations, at every level. -/
def sameType : TypeExpr → TypeExpr → Bool
  | named _ a ps, named _ b qs => a == b && sameTypes ps qs
  | wildcard _, wildcard _ => true
  | union _ ps, union _ qs => sameTypes ps qs
  | _, _ => false

def sameTypes : List TypeExpr → List TypeExpr → Bool
  | [], [] => true
  | p :: ps, q :: qs => sameType p q && sameTypes ps qs
  | _, _ => false

end

/-- Adds a type to the end of a list, unless the list has the same type already. -/
def addType (ts : List TypeExpr) (t : TypeExpr) : List TypeExpr :=
  if ts.any (·.sameType t) then ts else ts ++ [t]

def Distinct (ts : List TypeExpr) : Prop := ts.Pairwise fun a b => a.sameType b = false

instance (ts : List TypeExpr) : Decidable (Distinct ts) :=
  inferInstanceAs (Decidable (ts.Pairwise fun a b => a.sameType b = false))

theorem distinct_nil : Distinct [] := List.Pairwise.nil

theorem distinct_addType {ts : List TypeExpr} (distinct : Distinct ts) (t : TypeExpr) :
    Distinct (addType ts t) := by
  unfold addType
  split
  · exact distinct
  · rename_i new
    refine List.pairwise_append.mpr ⟨distinct, List.pairwise_singleton _ _, fun a ha b hb => ?_⟩
    rw [List.mem_singleton.mp hb, Bool.eq_false_iff]
    exact fun same => new (List.any_eq_true.mpr ⟨a, ha, same⟩)

/-- The members of a union, and any other type by itself. -/
def alternatives : TypeExpr → List TypeExpr
  | union _ members => members
  | t => [t]

/-- The union of the types: a union among them gives its members, and of members that are the same
type the first is kept. -/
def unionOf (ts : List TypeExpr) : TypeExpr :=
  union [] ((ts.flatMap alternatives).foldl addType [])

mutual

/-- Replaces type variables by arguments. A variable is a name without parameters; it takes its
annotations with it, and one without an argument becomes an open parameter. -/
def substitute (vars : List String) (args : List TypeExpr) : TypeExpr → TypeExpr
  | named as name [] =>
      match vars.idxOf? name with
      | some i => args[i]?.getD (wildcard [])
      | none => named as name []
  | named as name (p :: ps) => named as name (substitute vars args p :: substituteAll vars args ps)
  | wildcard as => wildcard as
  | union as members => union as (substituteAll vars args members)

def substituteAll (vars : List String) (args : List TypeExpr) : List TypeExpr → List TypeExpr
  | [] => []
  | t :: ts => substitute vars args t :: substituteAll vars args ts

end

end TypeExpr

end Overload
