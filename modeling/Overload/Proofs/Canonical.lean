import Mathlib.Data.String.Basic
import Overload.Proofs.Annotation

/-!
Tables in ascending order of their keys, and values whose objects are such tables. Building the
table of an object from the back, where the first member with a key stays, gives what inserting
from the front gives, where the last one replaces the others.
-/
namespace Overload

variable {α : Type} {key : α → String} {x y : α} {ys : List α}

theorem insertSorted_of_lt (h : key x < key y) : insertSorted key x (y :: ys) = x :: y :: ys :=
  if_pos h

theorem insertSorted_of_eq (h : key x = key y) : insertSorted key x (y :: ys) = x :: ys := by
  rw [insertSorted, if_neg (by simp [h]), if_pos h]

theorem insertSorted_of_gt (h : key y < key x) :
    insertSorted key x (y :: ys) = y :: insertSorted key x ys := by
  rw [insertSorted, if_neg h.not_gt, if_neg h.ne']

theorem insertNew_of_lt (h : key x < key y) : insertNew key x (y :: ys) = x :: y :: ys :=
  if_pos h

theorem insertNew_of_eq (h : key x = key y) : insertNew key x (y :: ys) = y :: ys := by
  rw [insertNew, if_neg (by simp [h]), if_pos h]

theorem insertNew_of_gt (h : key y < key x) :
    insertNew key x (y :: ys) = y :: insertNew key x ys := by
  rw [insertNew, if_neg h.not_gt, if_neg h.ne']

theorem insertSorted_insertNew (x y : α) (zs : List α) :
    insertSorted key y (insertNew key x zs) = insertNew key x (insertSorted key y zs) := by
  induction zs with
  | nil =>
      change insertSorted key y [x] = insertNew key x [y]
      obtain h | h | h := lt_trichotomy (key x) (key y)
      · rw [insertSorted_of_gt h, insertNew_of_lt h]
        rfl
      · rw [insertSorted_of_eq h.symm, insertNew_of_eq h]
      · rw [insertSorted_of_lt h, insertNew_of_gt h]
        rfl
  | cons z zs ih =>
      obtain hx | hx | hx := lt_trichotomy (key x) (key z)
      · obtain hy | hy | hy := lt_trichotomy (key y) (key z)
        · rw [insertNew_of_lt hx, insertSorted_of_lt hy]
          obtain h | h | h := lt_trichotomy (key x) (key y)
          · rw [insertSorted_of_gt h, insertSorted_of_lt hy, insertNew_of_lt h]
          · rw [insertSorted_of_eq h.symm, insertNew_of_eq h]
          · rw [insertSorted_of_lt h, insertNew_of_gt h, insertNew_of_lt hx]
        · have h : key x < key y := hy ▸ hx
          rw [insertNew_of_lt hx, insertSorted_of_gt h, insertSorted_of_eq hy, insertNew_of_lt h]
        · rw [insertNew_of_lt hx, insertSorted_of_gt (hx.trans hy), insertSorted_of_gt hy,
            insertNew_of_lt hx]
      · rw [insertNew_of_eq hx]
        obtain hy | hy | hy := lt_trichotomy (key y) (key z)
        · rw [insertSorted_of_lt hy, insertNew_of_gt (hx ▸ hy), insertNew_of_eq hx]
        · rw [insertSorted_of_eq hy, insertNew_of_eq (hx.trans hy.symm)]
        · rw [insertSorted_of_gt hy, insertNew_of_eq hx]
      · rw [insertNew_of_gt hx]
        obtain hy | hy | hy := lt_trichotomy (key y) (key z)
        · rw [insertSorted_of_lt hy, insertSorted_of_lt hy, insertNew_of_gt (hy.trans hx),
            insertNew_of_gt hx]
        · rw [insertSorted_of_eq hy, insertSorted_of_eq hy, insertNew_of_gt (hy ▸ hx)]
        · rw [insertSorted_of_gt hy, insertSorted_of_gt hy, insertNew_of_gt hx, ih]

theorem foldl_insertNew (key : α → String) (x : α) (ys zs : List α) :
    ys.foldl (fun table y => insertSorted key y table) (insertNew key x zs) =
      insertNew key x (ys.foldl (fun table y => insertSorted key y table) zs) := by
  induction ys generalizing zs with
  | nil => rfl
  | cons y ys ih => rw [List.foldl_cons, List.foldl_cons, insertSorted_insertNew, ih]

theorem insertNew_of_first (h : ∀ y ∈ ys, key x < key y) : insertNew key x ys = x :: ys := by
  cases ys with
  | nil => rfl
  | cons y ys => exact insertNew_of_lt (h y List.mem_cons_self)

theorem insertSorted_of_last (h : ∀ y ∈ ys, key y < key x) :
    insertSorted key x ys = ys ++ [x] := by
  induction ys with
  | nil => rfl
  | cons y ys ih =>
      obtain ⟨first, rest⟩ := List.forall_mem_cons.mp h
      rw [insertSorted_of_gt first, ih rest, List.cons_append]

/-- Inserting what comes in ascending order behind a table appends it. -/
theorem Ascending.foldl_insertSorted {xs : List α} (h : Ascending key (ys ++ xs)) :
    xs.foldl (fun table x => Overload.insertSorted key x table) ys = ys ++ xs := by
  induction xs generalizing ys with
  | nil => exact (List.append_nil ys).symm
  | cons x xs ih =>
      have below : ∀ y ∈ ys, key y < key x := fun y hy =>
        (List.pairwise_append.mp h).2.2 y hy x List.mem_cons_self
      rw [← List.singleton_append, ← List.append_assoc] at h
      rw [List.foldl_cons, insertSorted_of_last below, ih h, List.append_assoc,
        List.singleton_append]

namespace Json

/-- The table of the members when they are inserted one after another. -/
theorem canonicalMembers_eq_foldl (members : List (String × Json)) :
    canonicalMembers members =
      members.foldl (fun table m => insertSorted Prod.fst (m.1, m.2.canonical) table) [] := by
  induction members with
  | nil => rfl
  | cons m members ih =>
      have fold := foldl_insertNew Prod.fst (m.1, m.2.canonical)
        (members.map fun m => (m.1, m.2.canonical)) []
      simp only [List.foldl_map] at fold
      rw [canonicalMembers, ih, ← fold]
      rfl

theorem canonicalItems_eq_map (items : List Json) :
    canonicalItems items = items.map canonical := by
  induction items with
  | nil => rfl
  | cons v items ih => rw [canonicalItems, ih, List.map_cons]

theorem exists_of_mem_canonicalMembers {members : List (String × Json)} {m : String × Json}
    (hm : m ∈ canonicalMembers members) : ∃ n ∈ members, m = (n.1, n.2.canonical) := by
  induction members with
  | nil => exact absurd hm List.not_mem_nil
  | cons n members ih =>
      obtain rfl | old := mem_insertNew hm
      · exact ⟨n, List.mem_cons_self, rfl⟩
      · obtain ⟨n, hn, same⟩ := ih old
        exact ⟨n, List.mem_cons_of_mem _ hn, same⟩

theorem canonicalMembers_of_ascending {members : List (String × Json)}
    (sorted : Ascending Prod.fst members) (values : ∀ m ∈ members, m.2.canonical = m.2) :
    canonicalMembers members = members := by
  induction members with
  | nil => rfl
  | cons m members ih =>
      obtain ⟨first, rest⟩ := List.pairwise_cons.mp sorted
      obtain ⟨value, others⟩ := List.forall_mem_cons.mp values
      rw [canonicalMembers, ih rest others, value]
      exact insertNew_of_first first

/-- Giving a table its values one by one makes the table of all of them. -/
theorem Table.ofMembers_eq_foldl (members : List (String × Json)) :
    ofMembers members = members.foldl (fun t m => t.insert m.1 m.2.canonical) .empty := by
  have entries : ∀ t : Table,
      (members.foldl (fun t m => t.insert m.1 m.2.canonical) t).entries =
        members.foldl (fun table m => insertSorted Prod.fst (m.1, m.2.canonical) table)
          t.entries := by
    induction members with
    | nil => exact fun _ => rfl
    | cons m members ih => exact fun t => ih _
  exact Table.ext ((canonicalMembers_eq_foldl members).trans (entries .empty).symm)

end Json

end Overload
