import Overload.Binary64.Basic
import Overload.Sorted

/-!
JSON values. A number is an integer or a binary number, and the two are never equal. The members
of an object stand in a list: as written where a text was read, and sorted by key with each key
once in a canonical value.
-/
namespace Overload

universe u

inductive Json where
  | null
  | bool (value : Bool)
  | integer (value : Int)
  | real (value : Binary64)
  | string (value : String)
  | array (items : List Json)
  | object (members : List (String × Json))

namespace Json

instance : Inhabited Json := ⟨.null⟩

mutual

/-- Equality of values: numbers by value, objects member by member. -/
def same : Json → Json → Bool
  | .null, .null => true
  | .bool a, .bool b => a == b
  | .integer a, .integer b => a == b
  | .real a, .real b => a == b
  | .string a, .string b => a == b
  | .array as, .array bs => sameItems as bs
  | .object as, .object bs => sameMembers as bs
  | _, _ => false

def sameItems : List Json → List Json → Bool
  | [], [] => true
  | a :: as, b :: bs => same a b && sameItems as bs
  | _, _ => false

def sameMembers : List (String × Json) → List (String × Json) → Bool
  | [], [] => true
  | (k, a) :: as, (l, b) :: bs => k == l && same a b && sameMembers as bs
  | _, _ => false

end

instance : BEq Json := ⟨same⟩

mutual

/-- Sorts the members of every object by key. Of members with one key the last counts. -/
def canonical : Json → Json
  | .array items => .array (canonicalItems items)
  | .object members => .object (canonicalMembers members)
  | value => value

def canonicalItems : List Json → List Json
  | [] => []
  | item :: items => canonical item :: canonicalItems items

def canonicalMembers : List (String × Json) → List (String × Json)
  | [] => []
  | (key, value) :: members => insertNew Prod.fst (key, canonical value) (canonicalMembers members)

end

theorem ascending_canonicalMembers (members : List (String × Json)) :
    Ascending Prod.fst (canonicalMembers members) := by
  induction members with
  | nil => exact .nil
  | cons member members ih => exact ih.insertNew _

/-- Values by keys, in ascending order of the keys. -/
@[ext]
structure Table where
  entries : List (String × Json)
  ascending : Ascending Prod.fst entries

namespace Table

def empty : Table := ⟨[], .nil⟩

def insert (t : Table) (key : String) (value : Json) : Table where
  entries := insertSorted Prod.fst (key, value) t.entries
  ascending := t.ascending.insertSorted (key, value)

def value? (t : Table) (key : String) : Option Json :=
  (findKey? Prod.fst key t.entries).map Prod.snd

def map {α : Type} (f : String × Json → α) (t : Table) : List α := t.entries.map f

/-- The members of an object as a table. Of members with one key the last counts. -/
def ofMembers (members : List (String × Json)) : Table where
  entries := canonicalMembers members
  ascending := ascending_canonicalMembers members

instance : Coe (List (String × Json)) Table := ⟨ofMembers⟩

/-- The empty list stands for the empty table also where the type of its items is left open. -/
instance {α : Type u} : CoeDep (List α) ([] : List α) Table := ⟨empty⟩

end Table

mutual

/-- How many arrays and objects are nested in one another at the deepest place. -/
def depth : Json → Nat
  | .array items => depthItems items + 1
  | .object members => depthMembers members + 1
  | _ => 0

def depthItems : List Json → Nat
  | [] => 0
  | item :: items => max (depth item) (depthItems items)

def depthMembers : List (String × Json) → Nat
  | [] => 0
  | (_, value) :: members => max (depth value) (depthMembers members)

end

end Json

end Overload
