import Overload.Json.Basic

/-!
Annotations of a type: a name and a table of values.
-/
namespace Overload

structure Annotation where
  name : String
  values : Json.Table := .empty

namespace Annotation

def withValue (a : Annotation) (key : String) (value : Json) : Annotation :=
  { a with values := a.values.insert key value }

def value? (a : Annotation) (key : String) : Option Json :=
  a.values.value? key

def same (a b : Annotation) : Bool :=
  a.name == b.name && Json.sameMembers a.values.entries b.values.entries

instance : BEq Annotation := ⟨same⟩

end Annotation

/-- The annotations of both lists in order, those of the second that the first lacks. -/
def mergeAnnotations (as bs : List Annotation) : List Annotation :=
  bs.foldl (fun merged b => if merged.contains b then merged else merged ++ [b]) as

end Overload
