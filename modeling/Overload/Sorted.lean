/-!
Lists kept in ascending order of a text key, each key at most once. Such a list is the ordered
table of this library: the members of an object, the values of an annotation, the declarations of
a hierarchy.
-/
namespace Overload

variable {α : Type}

/-- Puts an element at its place, instead of the one that has its key. -/
def insertSorted (key : α → String) (x : α) : List α → List α
  | [] => [x]
  | y :: rest =>
      if key x < key y then x :: y :: rest
      else if key x = key y then x :: rest
      else y :: insertSorted key x rest

/-- Puts an element at its place, unless its key is there already. -/
def insertNew (key : α → String) (x : α) : List α → List α
  | [] => [x]
  | y :: rest =>
      if key x < key y then x :: y :: rest
      else if key x = key y then y :: rest
      else y :: insertNew key x rest

def findKey? (key : α → String) (name : String) (xs : List α) : Option α :=
  xs.find? (key · == name)

/-- In ascending order of the keys, each key once. -/
def Ascending (key : α → String) (xs : List α) : Prop := xs.Pairwise (key · < key ·)

instance (key : α → String) (xs : List α) : Decidable (Ascending key xs) :=
  inferInstanceAs (Decidable (xs.Pairwise (key · < key ·)))

variable {key : α → String} {x y : α} {ys : List α}

theorem Ascending.nil : Ascending key [] := List.Pairwise.nil

theorem Ascending.nodup (h : Ascending key ys) : (ys.map key).Nodup :=
  List.pairwise_map.mpr (List.Pairwise.imp (fun before => Std.ne_of_lt before) h)

/-- There is only one order for the elements of such a list. -/
theorem Ascending.eq_of_perm {xs : List α} (h : Ascending key xs) (h' : Ascending key ys)
    (perm : xs.Perm ys) : xs = ys :=
  List.Perm.eq_of_pairwise (fun _ _ _ _ before after => absurd after (String.lt_asymm before))
    h h' perm

theorem Ascending.cons_of_lt (before : key x < key y) (h : Ascending key (y :: ys)) :
    Ascending key (x :: y :: ys) := by
  refine List.pairwise_cons.mpr ⟨fun z hz => ?_, h⟩
  obtain rfl | hz := List.mem_cons.mp hz
  · exact before
  · exact String.lt_trans before (List.rel_of_pairwise_cons h hz)

theorem mem_insertSorted {z : α} (h : z ∈ insertSorted key x ys) : z = x ∨ z ∈ ys := by
  induction ys with
  | nil => exact .inl (List.mem_singleton.mp h)
  | cons y ys ih =>
      rw [insertSorted] at h
      split at h
      · exact List.mem_cons.mp h
      · split at h
        · exact (List.mem_cons.mp h).imp_right (List.mem_cons_of_mem y)
        · obtain rfl | h := List.mem_cons.mp h
          · exact .inr List.mem_cons_self
          · exact (ih h).imp_right (List.mem_cons_of_mem y)

/-- The element is left out, or put where `insertSorted` puts it. -/
theorem insertNew_eq_or (key : α → String) (x : α) (ys : List α) :
    insertNew key x ys = ys ∨ insertNew key x ys = insertSorted key x ys := by
  induction ys with
  | nil => exact .inr rfl
  | cons y ys ih =>
      rw [insertNew, insertSorted]
      split
      · exact .inr rfl
      · split
        · exact .inl rfl
        · exact ih.imp (congrArg (y :: ·)) (congrArg (y :: ·))

theorem mem_insertNew {z : α} (h : z ∈ insertNew key x ys) : z = x ∨ z ∈ ys := by
  obtain same | new := insertNew_eq_or key x ys
  · exact .inr (same ▸ h)
  · exact mem_insertSorted (new ▸ h)

theorem Ascending.insertSorted (h : Ascending key ys) (x : α) :
    Ascending key (insertSorted key x ys) := by
  induction ys with
  | nil => exact List.pairwise_singleton _ _
  | cons y ys ih =>
      obtain ⟨above, rest⟩ := List.pairwise_cons.mp h
      rw [Overload.insertSorted]
      split
      · rename_i before
        exact h.cons_of_lt before
      · rename_i notBefore
        split
        · rename_i same
          exact List.pairwise_cons.mpr ⟨fun z hz => same ▸ above z hz, rest⟩
        · rename_i other
          have behind : key y < key x :=
            Std.lt_of_le_of_ne (String.not_lt.mp notBefore) (Ne.symm other)
          refine List.pairwise_cons.mpr ⟨fun z hz => ?_, ih rest⟩
          exact (mem_insertSorted hz).elim (fun same => same ▸ behind) (above z)

theorem Ascending.insertNew (h : Ascending key ys) (x : α) :
    Ascending key (insertNew key x ys) := by
  obtain same | new := insertNew_eq_or key x ys
  · rwa [same]
  · rw [new]
    exact h.insertSorted x

end Overload
