import Mathlib.Data.List.Forall2
import Mathlib.Data.List.TakeWhile

/-!
Lists: what passing over a front part leaves, and lists that are related place by place.
-/
namespace Overload

variable {α β γ : Type}

/-- The first element that is not passed over, and all that stand before it. -/
theorem eq_append_of_dropWhile {p : α → Bool} {xs rest : List α} {x : α}
    (h : xs.dropWhile p = x :: rest) :
    ∃ passed, xs = passed ++ x :: rest ∧ (∀ y ∈ passed, p y = true) ∧ p x = false := by
  have stop := List.head_dropWhile_not p (l := xs) (by rw [h]; exact List.cons_ne_nil x rest)
  refine ⟨xs.takeWhile p, ?_, fun y hy => List.mem_takeWhile_imp hy, ?_⟩
  · rw [← h, List.takeWhile_append_dropWhile]
  · simpa only [h, List.head_cons] using stop

theorem exists_of_mem_left {R : α → β → Prop} {xs : List α} {ys : List β}
    (related : List.Forall₂ R xs ys) {x : α} (hx : x ∈ xs) : ∃ y ∈ ys, R x y := by
  induction related with
  | nil => simp at hx
  | cons head _ ih =>
      obtain rfl | hx := List.mem_cons.mp hx
      · exact ⟨_, List.mem_cons_self, head⟩
      · obtain ⟨y, hy, hxy⟩ := ih hx
        exact ⟨y, List.mem_cons_of_mem _ hy, hxy⟩

theorem exists_of_mem_right {R : α → β → Prop} {xs : List α} {ys : List β}
    (related : List.Forall₂ R xs ys) {y : β} (hy : y ∈ ys) : ∃ x ∈ xs, R x y :=
  exists_of_mem_left related.flip hy

theorem forall₂_of_common {R : α → β → Prop} {S : α → γ → Prop} {T : β → γ → Prop}
    (step : ∀ x y z, R x y → S x z → T y z) {xs : List α} {ys : List β} {zs : List γ}
    (left : List.Forall₂ R xs ys) (right : List.Forall₂ S xs zs) : List.Forall₂ T ys zs := by
  induction left generalizing zs with
  | nil =>
      cases right
      exact .nil
  | cons head _ ih =>
      cases right with
      | cons head' rest => exact .cons (step _ _ _ head head') (ih rest)

theorem exists_between {R : α → γ → Prop} {S : α → β → Prop} {T : β → γ → Prop} {xs : List α}
    {zs : List γ} (related : List.Forall₂ R xs zs)
    (step : ∀ x z, R x z → ∃ y, S x y ∧ T y z) :
    ∃ ys, List.Forall₂ S xs ys ∧ List.Forall₂ T ys zs := by
  induction related with
  | nil => exact ⟨[], .nil, .nil⟩
  | cons head _ ih =>
      obtain ⟨y, left, right⟩ := step _ _ head
      obtain ⟨ys, lefts, rights⟩ := ih
      exact ⟨y :: ys, .cons left lefts, .cons right rights⟩

theorem exists_append_of_forall₂ {R : α → β → Prop} {xs xs' : List α} {zs : List β}
    (related : List.Forall₂ R (xs ++ xs') zs) :
    ∃ ys ys', zs = ys ++ ys' ∧ List.Forall₂ R xs ys ∧ List.Forall₂ R xs' ys' := by
  induction xs generalizing zs with
  | nil => exact ⟨[], zs, rfl, .nil, related⟩
  | cons x xs ih =>
      cases related with
      | cons head tail =>
          obtain ⟨ys, ys', rfl, left, right⟩ := ih tail
          exact ⟨_ :: ys, ys', rfl, .cons head left, right⟩

theorem exists_of_findIdx?_eq_some {p : α → Bool} {xs : List α} {i : Nat}
    (found : xs.findIdx? p = some i) :
    ∃ before x after, xs = before ++ x :: after ∧ before.length = i ∧ p x = true ∧
      ∀ y ∈ before, p y = false := by
  induction xs generalizing i with
  | nil => simp at found
  | cons x xs ih =>
      rw [List.findIdx?_cons] at found
      split at found
      · rename_i holds
        cases found
        exact ⟨[], x, xs, rfl, rfl, holds, by simp⟩
      · rename_i fails
        obtain ⟨k, later, rfl⟩ := Option.map_eq_some_iff.mp found
        obtain ⟨before, y, after, rfl, rfl, holds, none⟩ := ih later
        exact ⟨x :: before, y, after, rfl, rfl, holds,
          List.forall_mem_cons.mpr ⟨by simpa using fails, none⟩⟩

theorem any_eq_of_perm {xs ys : List α} (perm : xs.Perm ys) (p : α → Bool) :
    xs.any p = ys.any p := by
  rw [Bool.eq_iff_iff, List.any_eq_true, List.any_eq_true]
  exact exists_congr fun x => and_congr_left fun _ => perm.mem_iff

theorem map_eq_map_of_forall₂ {R : α → β → Prop} {f : α → γ} {g : β → γ}
    (step : ∀ x y, R x y → f x = g y) {xs : List α} {ys : List β}
    (related : List.Forall₂ R xs ys) : xs.map f = ys.map g := by
  induction related with
  | nil => rfl
  | cons head _ ih => rw [List.map_cons, List.map_cons, step _ _ head, ih]

theorem map_eq_self_iff {f : α → α} {xs : List α} :
    xs.map f = xs ↔ ∀ x ∈ xs, f x = x := by
  have same := @List.map_inj_left _ _ xs f id
  rwa [List.map_id] at same

theorem forall₂_map_of_forall {R : α → β → Prop} {f : α → β} {xs : List α}
    (each : ∀ x ∈ xs, R x (f x)) : List.Forall₂ R xs (xs.map f) :=
  List.forall₂_map_right_iff.mpr (List.forall₂_same.mpr each)

/-- Lists related place by place where each element of the second has its key in the first. -/
theorem forall₂_key_iff {key : β → α} {P : α → β → Prop} {xs : List α} {ys : List β} :
    List.Forall₂ (fun x y => key y = x ∧ P x y) xs ys ↔
      ys.map key = xs ∧ ∀ y ∈ ys, P (key y) y := by
  constructor
  · intro related
    refine ⟨?_, fun y hy => ?_⟩
    · rw [← List.map_id xs]
      exact (map_eq_map_of_forall₂ (fun x y pair => pair.1.symm) related).symm
    · obtain ⟨x, _, rfl, holds⟩ := exists_of_mem_right related hy
      exact holds
  · rintro ⟨rfl, each⟩
    exact List.forall₂_map_left_iff.mpr (List.forall₂_same.mpr fun y hy => ⟨rfl, each y hy⟩)

end Overload
