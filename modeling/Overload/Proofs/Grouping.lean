import Mathlib.Data.List.Induction
import Mathlib.Data.List.Nodup
import Mathlib.Data.List.Permutation
import Overload.Grouping
import Overload.Sorted

/-!
Groups by key: each key of the list has one group, which holds what has that key. Sorting the groups
changes their order only, and a list in another order has the same keys.

While a list is gone through, the table of places is in step with the groups: it has the index of
the group of each key met so far, and of no other key.
-/
namespace Overload

variable {α : Type}

theorem nodup_eraseDups [BEq α] [LawfulBEq α] (xs : List α) : xs.eraseDups.Nodup := by
  match xs with
  | [] => exact List.nodup_nil
  | x :: xs =>
      rw [List.eraseDups_cons]
      have shorter : (xs.filter fun y => !y == x).length < xs.length + 1 :=
        Nat.lt_succ_of_le (List.length_filter_le _ xs)
      refine List.nodup_cons.mpr ⟨fun again => ?_, nodup_eraseDups _⟩
      simp at again
termination_by xs.length

theorem eraseDups_perm [BEq α] [LawfulBEq α] {xs ys : List α} (perm : xs.Perm ys) :
    xs.eraseDups.Perm ys.eraseDups := by
  rw [List.perm_ext_iff_of_nodup (nodup_eraseDups xs) (nodup_eraseDups ys)]
  intro x
  rw [List.mem_eraseDups, List.mem_eraseDups, perm.mem_iff]

/-- A list without repetitions is left as it is. -/
theorem eraseDups_of_distinct [BEq α] [PartialEquivBEq α] {xs : List α}
    (distinct : xs.Pairwise fun x y => (x == y) = false) : xs.eraseDups = xs := by
  induction xs with
  | nil => rfl
  | cons x xs ih =>
      obtain ⟨others, rest⟩ := List.pairwise_cons.mp distinct
      have all : (xs.filter fun y => !y == x) = xs := by
        refine List.filter_eq_self.mpr fun y hy => ?_
        rw [BEq.comm, others y hy]
        rfl
      rw [List.eraseDups_cons, all, ih rest]

theorem eraseDups_of_nodup [BEq α] [LawfulBEq α] {xs : List α} (nodup : xs.Nodup) :
    xs.eraseDups = xs :=
  eraseDups_of_distinct (nodup.imp beq_false_of_ne)

theorem eraseDups_concat [BEq α] [LawfulBEq α] (xs : List α) (x : α) :
    (xs ++ [x]).eraseDups = if x ∈ xs then xs.eraseDups else xs.eraseDups ++ [x] := by
  rw [List.eraseDups_append]
  split
  · rename_i old
    have none : [x].removeAll xs = [] := by simpa [List.removeAll] using old
    rw [none, List.eraseDups_nil, List.append_nil]
  · rename_i new
    have all : [x].removeAll xs = [x] := by simpa [List.removeAll] using new
    rw [all, List.eraseDups_cons, List.filter_nil, List.eraseDups_nil]

theorem eraseDups_filter [BEq α] [LawfulBEq α] (p : α → Bool) (xs : List α) :
    (xs.filter p).eraseDups = xs.eraseDups.filter p := by
  induction xs using List.reverseRecOn with
  | nil => rfl
  | append_singleton xs x ih =>
      rw [List.filter_append, eraseDups_concat]
      by_cases keep : p x = true
      · have alone : [x].filter p = [x] := List.filter_cons_of_pos keep
        have old : x ∈ xs.filter p ↔ x ∈ xs := by simp [keep]
        rw [alone, eraseDups_concat, ih]
        simp only [old]
        split <;> simp [List.filter_append, keep]
      · have none : [x].filter p = [] := List.filter_cons_of_neg keep
        rw [none, List.append_nil, ih]
        split <;> simp [List.filter_append, keep]

theorem removeAll_eraseDups [BEq α] [LawfulBEq α] (xs ys : List α) :
    ys.removeAll xs.eraseDups = ys.removeAll xs :=
  List.filter_congr fun y _ => by simp

theorem eraseDups_append_congr [BEq α] [LawfulBEq α] {xs xs' ys ys' : List α}
    (fronts : xs.eraseDups = xs'.eraseDups) (rests : ys.eraseDups = ys'.eraseDups) :
    (xs ++ ys).eraseDups = (xs' ++ ys').eraseDups := by
  rw [List.eraseDups_append, List.eraseDups_append, ← removeAll_eraseDups,
    ← removeAll_eraseDups xs', List.removeAll, List.removeAll, eraseDups_filter, eraseDups_filter,
    fronts, rests]

/-- What repetitions give comes up again only after what their first occurrences gave. -/
theorem eraseDups_flatMap [BEq α] [LawfulBEq α] (f : α → List α) (xs : List α) :
    (xs.eraseDups.flatMap f).eraseDups = (xs.flatMap f).eraseDups := by
  induction xs using List.reverseRecOn with
  | nil => rfl
  | append_singleton xs x ih =>
      rw [eraseDups_concat, List.flatMap_append, List.flatMap_singleton]
      split
      · rename_i old
        have given : (f x).removeAll (xs.flatMap f) = [] := by
          refine List.filter_eq_nil_iff.mpr fun y hy => ?_
          simpa using ⟨x, old, hy⟩
        rw [ih, List.eraseDups_append, given, List.eraseDups_nil, List.append_nil]
      · rw [List.flatMap_append, List.flatMap_singleton]
        exact eraseDups_append_congr ih rfl

variable {key : α → String}

theorem findKey?_insertSorted {name : String} {x : α} (other : key x ≠ name) (xs : List α) :
    findKey? key name (insertSorted key x xs) = findKey? key name xs := by
  induction xs with
  | nil => simp [insertSorted, findKey?, other]
  | cons y xs ih =>
      rw [insertSorted]
      split
      · simp [findKey?, other]
      · split
        · rename_i same
          simp [findKey?, other, same ▸ other]
        · simp only [findKey?, List.find?_cons] at ih ⊢
          rw [ih]

theorem findKey?_insertSorted_self (x : α) (xs : List α) :
    findKey? key (key x) (insertSorted key x xs) = some x := by
  induction xs with
  | nil => simp [insertSorted, findKey?]
  | cons y xs ih =>
      rw [insertSorted]
      split
      · simp [findKey?]
      · split
        · simp [findKey?]
        · rename_i other
          rw [findKey?, List.find?_cons_of_neg (by simpa using Ne.symm other)]
          exact ih

theorem idxOf?_concat [BEq α] [LawfulBEq α] {xs : List α} {x : α} (new : x ∉ xs) (y : α) :
    (xs ++ [x]).idxOf? y = if x == y then some xs.length else xs.idxOf? y := by
  induction xs with
  | nil => simp [List.idxOf?_cons]
  | cons z xs ih =>
      rw [List.mem_cons, not_or] at new
      rw [List.cons_append, List.idxOf?_cons, List.idxOf?_cons, ih new.2]
      by_cases here : z == y
      · have other : ¬ (x == y) = true := fun same =>
          new.1 ((eq_of_beq same).trans (eq_of_beq here).symm)
        rw [if_pos here, if_neg other, if_pos here]
      · rw [if_neg here, if_neg here]
        split <;> simp

/-- The groups and their places once a list has been gone through. -/
structure Groups.InStep (key : α → String) (xs : List α) (gs : Groups α) : Prop where
  groups : gs.groups = (xs.map key).eraseDups.map fun k => (k, xs.filter (key · == k))
  places : ∀ k, gs.place? k = (xs.map key).eraseDups.idxOf? k

namespace Groups.InStep

variable {xs : List α} {gs : Groups α}

theorem start (key : α → String) : Groups.InStep key [] {} where
  groups := rfl
  places _ := rfl

theorem place_lt (step : gs.InStep key xs) {k : String} {i : Nat} (place : gs.place? k = some i) :
    i < gs.groups.length := by
  rw [step.places, List.idxOf?_eq_some_iff] at place
  rw [step.groups, List.length_map]
  exact place.1

/-- An element whose key was met joins the group at the place of the key. -/
theorem add_old (step : gs.InStep key xs) {x : α} {i : Nat} (place : gs.place? (key x) = some i) :
    Groups.InStep key (xs ++ [x])
      { gs with groups := gs.groups.modify i fun g => (g.1, g.2 ++ [x]) } := by
  have found := place
  rw [step.places, List.idxOf?_eq_some_iff] at found
  obtain ⟨inside, here, _⟩ := found
  have old : key x ∈ xs.map key := List.mem_eraseDups.mp (here ▸ List.getElem_mem inside)
  have keys : ((xs ++ [x]).map key).eraseDups = (xs.map key).eraseDups := by
    rw [List.map_append, List.map_singleton, eraseDups_concat, if_pos old]
  have own : ∀ j k, (xs.map key).eraseDups[j]? = some k → (i = j ↔ key x = k) := by
    intro j k at_j
    obtain ⟨bound, rfl⟩ := List.getElem?_eq_some_iff.mp at_j
    rw [← here, (nodup_eraseDups _).getElem_inj_iff]
  refine ⟨List.ext_getElem? fun j => ?_, fun k => ?_⟩
  · rw [keys, List.getElem?_modify, step.groups, List.getElem?_map, List.getElem?_map]
    cases at_j : (xs.map key).eraseDups[j]? with
    | none => rfl
    | some k =>
        by_cases same : key x = k
        · simp [own j k at_j, same]
        · simp [own j k at_j, same]
  · rw [keys]
    exact step.places k

/-- An element whose key is new becomes a group of its own behind the others. -/
theorem add_new (step : gs.InStep key xs) {x : α} (new : gs.place? (key x) = none) :
    Groups.InStep key (xs ++ [x])
      { groups := gs.groups ++ [(key x, [x])]
        places := insertSorted Prod.fst (key x, gs.groups.length) gs.places } := by
  rw [step.places, List.idxOf?_eq_none_iff, List.mem_eraseDups] at new
  have keys : ((xs ++ [x]).map key).eraseDups = (xs.map key).eraseDups ++ [key x] := by
    rw [List.map_append, List.map_singleton, eraseDups_concat, if_neg new]
  refine ⟨?_, fun k => ?_⟩
  · have others : ∀ k ∈ (xs.map key).eraseDups,
        (k, xs.filter (key · == k)) = (k, (xs ++ [x]).filter (key · == k)) := by
      intro k hk
      have other : key x ≠ k := fun same => new (same ▸ List.mem_eraseDups.mp hk)
      simp [List.filter_append, other]
    have alone : xs.filter (key · == key x) = [] := by
      simp only [List.filter_eq_nil_iff, beq_iff_eq]
      exact fun y hy same => new (same ▸ List.mem_map_of_mem hy)
    rw [keys, List.map_append, step.groups, List.map_congr_left others]
    simp [List.filter_append, alone]
  · have placed : Groups.place? { gs with
        groups := gs.groups ++ [(key x, [x])]
        places := insertSorted Prod.fst (key x, gs.groups.length) gs.places } k =
          (findKey? Prod.fst k
            (insertSorted Prod.fst (key x, gs.groups.length) gs.places)).map Prod.snd := rfl
    rw [keys, idxOf?_concat (fun old => new (List.mem_eraseDups.mp old)), placed]
    split
    · rename_i same
      obtain rfl := eq_of_beq same
      rw [findKey?_insertSorted_self (key x, gs.groups.length), step.groups, List.length_map]
      rfl
    · rename_i other
      have other : Prod.fst (key x, gs.groups.length) ≠ k := fun same => other (beq_iff_eq.mpr same)
      rw [findKey?_insertSorted other]
      exact step.places k

theorem add (step : gs.InStep key xs) (x : α) : (gs.add key x).InStep key (xs ++ [x]) := by
  rw [Groups.add]
  cases place : gs.place? (key x) with
  | none => exact step.add_new place
  | some i =>
      rw [Option.filter_some, if_pos (decide_eq_true (step.place_lt place))]
      exact step.add_old place

theorem foldl (step : gs.InStep key xs) (ys : List α) :
    (ys.foldl (Groups.add key) gs).InStep key (xs ++ ys) := by
  induction ys generalizing xs gs with
  | nil => rwa [List.append_nil]
  | cons y ys ih =>
      rw [List.foldl_cons, ← List.singleton_append, ← List.append_assoc]
      exact ih (step.add y)

end Groups.InStep

/-- The groups of a list, without going through it: its keys, each once, with what has them. -/
theorem groupBy_eq (key : α → String) (xs : List α) :
    groupBy key xs = (xs.map key).eraseDups.map fun k => (k, xs.filter (key · == k)) :=
  ((Groups.InStep.start key).foldl xs).groups

theorem keys_groupBy (xs : List α) : (groupBy key xs).map Prod.fst = (xs.map key).eraseDups := by
  rw [groupBy_eq, List.map_map]
  exact List.map_id _

theorem mem_groupBy {xs : List α} {g : String × List α} :
    g ∈ groupBy key xs ↔ g.1 ∈ xs.map key ∧ g.2 = xs.filter (key · == g.1) := by
  rw [groupBy_eq, List.mem_map]
  constructor
  · intro found
    obtain ⟨k, hk, rfl⟩ := found
    exact ⟨List.mem_eraseDups.mp hk, rfl⟩
  · intro found
    exact ⟨g.1, List.mem_eraseDups.mpr found.1, Prod.ext rfl found.2.symm⟩

theorem filter_key_of_nodup {xs : List α} (nodup : (xs.map key).Nodup) {x : α} (hx : x ∈ xs) :
    xs.filter (key · == key x) = [x] := by
  induction xs with
  | nil => exact absurd hx List.not_mem_nil
  | cons y xs ih =>
      obtain ⟨other, rest⟩ := List.nodup_cons.mp nodup
      obtain rfl | hx := List.mem_cons.mp hx
      · have none : xs.filter (key · == key x) = [] := by
          simp only [List.filter_eq_nil_iff, beq_iff_eq]
          exact fun z hz same => other (same ▸ List.mem_map_of_mem hz)
        rw [List.filter_cons, if_pos (beq_self_eq_true (key x)), none]
      · have differs : ¬ (key y == key x) = true := fun same =>
          other (eq_of_beq same ▸ List.mem_map_of_mem hx)
        rw [List.filter_cons, if_neg differs, ih rest hx]

/-- Elements with keys of their own are each a group. -/
theorem groupBy_of_nodup {xs : List α} (nodup : (xs.map key).Nodup) :
    groupBy key xs = xs.map fun x => (key x, [x]) := by
  rw [groupBy_eq, eraseDups_of_nodup nodup, List.map_map]
  exact List.map_congr_left fun x hx => Prod.ext rfl (filter_key_of_nodup nodup hx)

theorem Groups.add_perm (key : α → String) (gs : Groups α) (x : α) :
    ((gs.add key x).groups.flatMap Prod.snd).Perm (gs.groups.flatMap Prod.snd ++ [x]) := by
  rw [Groups.add]
  split
  · rename_i i place
    have inside : i < gs.groups.length := by
      simpa using (Option.filter_eq_some_iff.mp place).2
    obtain ⟨before, g, after, split, _, modified⟩ :=
      List.exists_of_modify (fun g : String × List α => (g.1, g.2 ++ [x])) inside
    rw [modified, split]
    simp only [List.flatMap_append, List.flatMap_cons, List.append_assoc]
    exact (List.perm_append_comm.append_left g.2).append_left (before.flatMap Prod.snd)
  · rw [List.flatMap_append, List.flatMap_singleton]

/-- The groups together hold what the list holds. -/
theorem groupBy_perm (key : α → String) (xs : List α) :
    ((groupBy key xs).flatMap Prod.snd).Perm xs := by
  have whole (gs : Groups α) : ((xs.foldl (Groups.add key) gs).groups.flatMap Prod.snd).Perm
      (gs.groups.flatMap Prod.snd ++ xs) := by
    induction xs generalizing gs with
    | nil => rw [List.append_nil, List.foldl_nil]
    | cons x xs ih =>
        rw [List.foldl_cons, ← List.singleton_append, ← List.append_assoc]
        exact (ih (gs.add key x)).trans ((Groups.add_perm key gs x).append_right xs)
  exact whole {}

/-- What is read off the groups alike in any order of their members does not depend on the order of
the list, but for the order of the groups. -/
theorem map_groupBy_perm {β : Type} {f : String × List α → β}
    (blind : ∀ (k : String) (xs ys : List α), xs.Perm ys → f (k, xs) = f (k, ys))
    {xs ys : List α} (perm : xs.Perm ys) :
    ((groupBy key xs).map f).Perm ((groupBy key ys).map f) := by
  have same : ∀ k, f (k, xs.filter (key · == k)) = f (k, ys.filter (key · == k)) := fun k =>
    blind k _ _ (perm.filter _)
  simp only [groupBy_eq, List.map_map, Function.comp_def, same]
  exact (eraseDups_perm (perm.map key)).map _

theorem findKey?_eq_some_iff {name : String} {x : α} {xs : List α}
    (distinct : (xs.map key).Nodup) : findKey? key name xs = some x ↔ x ∈ xs ∧ key x = name := by
  constructor
  · intro found
    exact ⟨List.mem_of_find?_eq_some found, by simpa using List.find?_some found⟩
  · intro member
    obtain ⟨hx, rfl⟩ := member
    cases found : findKey? key (key x) xs with
    | none => exact absurd (beq_self_eq_true (key x)) (List.find?_eq_none.mp found x hx)
    | some y =>
        have same : key y = key x := by simpa using List.find?_some found
        rw [List.inj_on_of_nodup_map distinct (List.mem_of_find?_eq_some found) hx same]

theorem insertSorted_perm {x : α} {xs : List α} (new : key x ∉ xs.map key) :
    (insertSorted key x xs).Perm (x :: xs) := by
  induction xs with
  | nil => exact .refl _
  | cons y xs ih =>
      rw [List.map_cons, List.mem_cons, not_or] at new
      rw [insertSorted]
      split
      · exact .refl _
      · rw [if_neg new.1]
        exact ((ih new.2).cons y).trans (.swap x y xs)

theorem foldl_insertSorted_perm {xs sorted : List α}
    (distinct : ((sorted ++ xs).map key).Nodup) :
    (xs.foldl (fun sorted x => insertSorted key x sorted) sorted).Perm (sorted ++ xs) := by
  induction xs generalizing sorted with
  | nil => simp
  | cons x xs ih =>
      have front : (sorted ++ x :: xs).Perm (x :: sorted ++ xs) := List.perm_middle
      have distinct' := (front.map key).nodup_iff.mp distinct
      have new : key x ∉ sorted.map key := by
        rw [List.cons_append, List.map_cons, List.nodup_cons, List.map_append] at distinct'
        exact fun old => distinct'.1 (List.mem_append_left _ old)
      have placed := (insertSorted_perm new).append_right xs
      rw [List.foldl_cons]
      refine (ih ?_).trans (placed.trans front.symm)
      exact (placed.map key).nodup_iff.mpr distinct'

end Overload
