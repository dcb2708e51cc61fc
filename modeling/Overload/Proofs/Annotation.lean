import Overload.Annotation
import Overload.Proofs.Json

/-!
Annotations as sets: equality of annotations is an equivalence, and merging keeps those of either
list.
-/
namespace Overload

namespace Annotation

theorem beq_iff {a b : Annotation} :
    (a == b) = true ↔
      a.name = b.name ∧
        Json.plainMembers a.values.entries = Json.plainMembers b.values.entries := by
  have unfolded : (a == b) =
      (a.name == b.name && Json.sameMembers a.values.entries b.values.entries) := rfl
  rw [unfolded, Bool.and_eq_true, beq_iff_eq, Json.sameMembers_iff]

instance : EquivBEq Annotation where
  rfl := beq_iff.mpr ⟨rfl, rfl⟩
  symm := fun same => beq_iff.mpr ⟨(beq_iff.mp same).1.symm, (beq_iff.mp same).2.symm⟩
  trans := fun hab hbc =>
    beq_iff.mpr ⟨(beq_iff.mp hab).1.trans (beq_iff.mp hbc).1,
      (beq_iff.mp hab).2.trans (beq_iff.mp hbc).2⟩

end Annotation

theorem contains_mergeAnnotations (a : Annotation) (as bs : List Annotation) :
    (mergeAnnotations as bs).contains a = true ↔ as.contains a = true ∨ bs.contains a = true := by
  induction bs generalizing as with
  | nil => simp [mergeAnnotations]
  | cons b bs ih =>
      rw [mergeAnnotations, List.foldl_cons, ← mergeAnnotations, ih, List.contains_cons,
        Bool.or_eq_true, ← or_assoc]
      refine or_congr_left ?_
      split
      · rename_i old
        refine ⟨.inl, fun either => either.elim id fun same => ?_⟩
        rwa [List.contains_congr same]
      · simp

/-- Of equal annotations the first is kept. -/
theorem mergeAnnotations_eq_append (as bs : List Annotation) :
    mergeAnnotations as bs = as ++ (bs.filter fun b => !as.contains b).eraseDups := by
  induction bs generalizing as with
  | nil => simp [mergeAnnotations]
  | cons b bs ih =>
      rw [mergeAnnotations, List.foldl_cons, ← mergeAnnotations, ih, List.filter_cons]
      by_cases old : as.contains b = true
      · simp only [old, if_true, Bool.not_true, Bool.false_eq_true, if_false]
      · have others : ∀ c : Annotation,
            (!(as ++ [b]).contains c) = (!(c == b) && !as.contains c) := by
          intro c
          simp [Bool.and_comm]
        simp only [old, if_false, Bool.not_false, if_true, others, Bool.false_eq_true]
        rw [List.eraseDups_cons, List.filter_filter, List.append_assoc]
        rfl

theorem mergeAnnotations_nil (as : List Annotation) : mergeAnnotations [] as = as.eraseDups := by
  have all : (as.filter fun b => !([] : List Annotation).contains b) = as :=
    List.filter_eq_self.mpr fun _ _ => rfl
  rw [mergeAnnotations_eq_append, all, List.nil_append]

end Overload
