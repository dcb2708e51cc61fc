import Overload.Sorted

/-!
Groups of a list by a text key, in the order in which the keys first occur. A group keeps the order
of the list. The list is gone through once; a table says where the group of each key stands.
-/
namespace Overload

structure Groups (α : Type) where
  groups : List (String × List α) := []
  /-- The index of the group of each key, in the order of the keys. -/
  places : List (String × Nat) := []

namespace Groups

variable {α : Type}

def place? (gs : Groups α) (k : String) : Option Nat := (findKey? Prod.fst k gs.places).map Prod.snd

/-- Puts an element at the end of the group of its key, or into a new group at the end. -/
def add (key : α → String) (gs : Groups α) (x : α) : Groups α :=
  match (gs.place? (key x)).filter (· < gs.groups.length) with
  | some i => { gs with groups := gs.groups.modify i fun g => (g.1, g.2 ++ [x]) }
  | none =>
      { groups := gs.groups ++ [(key x, [x])]
        places := insertSorted Prod.fst (key x, gs.groups.length) gs.places }

end Groups

def groupBy {α : Type} (key : α → String) (xs : List α) : List (String × List α) :=
  (xs.foldl (Groups.add key) {}).groups

end Overload
