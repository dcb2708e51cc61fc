import Mathlib.Data.List.Perm.Subperm
import Overload.Operation.Build
import Overload.Proofs.TypeExpr

/-!
Lists of types as sets, where types that differ in annotations only are one. Adding types one by one
leaves no two that are the same, and of such lists the check of receivers decides whether they are
the same set.
-/
namespace Overload

namespace TypeExpr

/-- Every type of either list is in the other one, up to annotations. -/
def SameTypes (as bs : List TypeExpr) : Prop :=
  (∀ a ∈ as, ∃ b ∈ bs, a.sameType b = true) ∧ ∀ b ∈ bs, ∃ a ∈ as, a.sameType b = true

theorem distinct_iff {ts : List TypeExpr} : Distinct ts ↔ (ts.map plain).Nodup := by
  rw [Distinct, List.Nodup, List.pairwise_map]
  refine List.Pairwise.iff fun a b => ?_
  rw [← Bool.not_eq_true, sameType_iff, ne_eq]

theorem exists_same_iff {a : TypeExpr} {ts : List TypeExpr} :
    (∃ t ∈ ts, a.sameType t = true) ↔ a.plain ∈ ts.map plain := by
  rw [List.mem_map]
  exact exists_congr fun t => and_congr_right fun _ => sameType_iff.trans eq_comm

theorem any_same_iff {a : TypeExpr} {ts : List TypeExpr} :
    ts.any (·.sameType a) = true ↔ a.plain ∈ ts.map plain := by
  simp only [List.any_eq_true, sameType_comm _ a, exists_same_iff]

theorem sameTypes_iff {as bs : List TypeExpr} :
    SameTypes as bs ↔ ∀ p, p ∈ as.map plain ↔ p ∈ bs.map plain := by
  have turned : ∀ b ∈ bs, (∃ a ∈ as, a.sameType b = true) ↔ b.plain ∈ as.map plain := by
    intro b _
    simp only [sameType_comm _ b, exists_same_iff]
  rw [SameTypes, forall₂_congr turned]
  simp only [exists_same_iff]
  constructor
  · intro same p
    constructor
    · intro hp
      obtain ⟨a, ha, rfl⟩ := List.mem_map.mp hp
      exact same.1 a ha
    · intro hp
      obtain ⟨b, hb, rfl⟩ := List.mem_map.mp hp
      exact same.2 b hb
  · intro same
    exact ⟨fun a ha => (same _).mp (List.mem_map_of_mem ha),
      fun b hb => (same _).mpr (List.mem_map_of_mem hb)⟩

theorem SameTypes.refl (ts : List TypeExpr) : SameTypes ts ts :=
  sameTypes_iff.mpr fun _ => Iff.rfl

theorem SameTypes.symm {as bs : List TypeExpr} (same : SameTypes as bs) : SameTypes bs as :=
  sameTypes_iff.mpr fun p => (sameTypes_iff.mp same p).symm

theorem SameTypes.trans {as bs cs : List TypeExpr} (hab : SameTypes as bs)
    (hbc : SameTypes bs cs) : SameTypes as cs :=
  sameTypes_iff.mpr fun p => (sameTypes_iff.mp hab p).trans (sameTypes_iff.mp hbc p)

theorem SameTypes.perm {as bs : List TypeExpr} (distinct : Distinct as) (distinct' : Distinct bs)
    (same : SameTypes as bs) : (as.map plain).Perm (bs.map plain) :=
  (List.perm_ext_iff_of_nodup (distinct_iff.mp distinct) (distinct_iff.mp distinct')).mpr
    (sameTypes_iff.mp same)

theorem mem_addType {ts : List TypeExpr} {t : TypeExpr} {p : TypeExpr} :
    p ∈ (addType ts t).map plain ↔ p ∈ ts.map plain ∨ p = t.plain := by
  unfold addType
  split
  · rename_i old
    constructor
    · exact .inl
    · intro member
      obtain member | rfl := member
      · exact member
      · exact any_same_iff.mp old
  · simp

theorem mem_foldl_addType {ts new : List TypeExpr} {p : TypeExpr} :
    p ∈ (new.foldl addType ts).map plain ↔ p ∈ ts.map plain ∨ p ∈ new.map plain := by
  induction new generalizing ts with
  | nil => simp
  | cons t new ih => rw [List.foldl_cons, ih, mem_addType, List.map_cons, List.mem_cons, or_assoc]

theorem mem_or_mem_of_addTypes {t : TypeExpr} {ts seen : List TypeExpr}
    (h : t ∈ ts.foldl addType seen) : t ∈ seen ∨ t ∈ ts := by
  refine List.foldlRecOn (motive := fun seen' => t ∈ seen' → t ∈ seen ∨ t ∈ ts) ts _ .inl
    (fun seen' ih u hu h => ?_) h
  rw [addType] at h
  split at h
  · exact ih h
  · obtain h | h := List.mem_append.mp h
    · exact ih h
    · exact .inr (List.mem_singleton.mp h ▸ hu)

theorem distinct_foldl_addType {ts : List TypeExpr} (distinct : Distinct ts)
    (new : List TypeExpr) : Distinct (new.foldl addType ts) := by
  induction new generalizing ts with
  | nil => exact distinct
  | cons t new ih => exact ih (distinct_addType distinct t)

theorem foldl_addType_sublist (ts new : List TypeExpr) :
    (new.foldl addType ts).Sublist (ts ++ new) := by
  induction new generalizing ts with
  | nil => exact (List.append_nil ts).symm ▸ List.Sublist.refl ts
  | cons t new ih =>
      rw [List.foldl_cons, ← List.singleton_append, ← List.append_assoc]
      refine (ih (addType ts t)).trans (List.Sublist.append_right ?_ new)
      unfold addType
      split
      · exact List.sublist_append_left ts [t]
      · exact .refl _

theorem foldl_addType_of_distinct {ts new : List TypeExpr} (distinct : Distinct (ts ++ new)) :
    new.foldl addType ts = ts ++ new := by
  induction new generalizing ts with
  | nil => exact (List.append_nil ts).symm
  | cons t new ih =>
      have first : addType ts t = ts ++ [t] := by
        rw [addType, if_neg]
        intro old
        obtain ⟨a, ha, same⟩ := List.any_eq_true.mp old
        rw [(List.pairwise_append.mp distinct).2.2 a ha t List.mem_cons_self] at same
        cases same
      rw [List.foldl_cons, first, ih, List.append_assoc, List.singleton_append]
      rwa [List.append_assoc, List.singleton_append]

theorem exists_alternative {ts : List TypeExpr} {m : TypeExpr} (h : m ∈ (unionOf ts).children) :
    ∃ t ∈ ts, m ∈ t.alternatives := by
  obtain none | given := mem_or_mem_of_addTypes h
  · exact absurd none List.not_mem_nil
  · exact List.mem_flatMap.mp given

/-- What passes from types to those right below them passes from types to the members of their
union. -/
theorem forall_members {P : TypeExpr → Prop} (below : ∀ t, P t → ∀ c ∈ t.children, P c)
    {ts : List TypeExpr} (each : ∀ t ∈ ts, P t) : ∀ m ∈ (unionOf ts).children, P m := by
  intro m hm
  obtain ⟨t, ht, given⟩ := exists_alternative hm
  obtain rfl | inside := eq_or_mem_children given
  · exact each m ht
  · exact below t (each t ht) m inside

/-- The union of types has no two members that are the same, and the same members in any order of
the types. -/
theorem unionOf_eq (ts : List TypeExpr) :
    ∃ members, unionOf ts = .union [] members ∧ Distinct members ∧
      ∀ p, p ∈ members.map plain ↔ p ∈ (ts.flatMap alternatives).map plain := by
  refine ⟨_, rfl, distinct_foldl_addType .nil _, fun p => ?_⟩
  rw [mem_foldl_addType]
  simp only [List.map_nil, List.not_mem_nil, false_or]

theorem unionOf_perm {ts us : List TypeExpr} (perm : ts.Perm us) :
    ∃ ms ns, unionOf ts = .union [] ms ∧ unionOf us = .union [] ns ∧
      (ms.map plain).Perm (ns.map plain) := by
  obtain ⟨ms, left, distinct, mem⟩ := unionOf_eq ts
  obtain ⟨ns, right, distinct', mem'⟩ := unionOf_eq us
  refine ⟨ms, ns, left, right, SameTypes.perm distinct distinct' (sameTypes_iff.mpr fun p => ?_)⟩
  rw [mem, mem', ((perm.flatMap_right alternatives).map plain).mem_iff]

end TypeExpr

open TypeExpr

theorem Resolver.withReceivers_eq (r : Resolver) (ts : List TypeExpr) :
    r.withReceivers ts =
      { r with
        receivers := ts.foldl addType r.receivers
        distinct := distinct_foldl_addType r.distinct ts } := by
  induction ts generalizing r with
  | nil => rfl
  | cons t ts ih => exact ih (r.withReceiver t)

theorem Operation.sameReceivers_iff {as bs : List TypeExpr} (distinct : Distinct as)
    (distinct' : Distinct bs) : sameReceivers as bs = true ↔ SameTypes as bs := by
  have subset : (as.all fun t => bs.any (·.sameType t)) = true ↔
      as.map plain ⊆ bs.map plain := by
    simp only [List.all_eq_true, any_same_iff, List.subset_def, List.forall_mem_map]
  rw [sameReceivers, Bool.and_eq_true, beq_iff_eq, subset]
  constructor
  · intro same
    have within := List.subperm_of_subset (distinct_iff.mp distinct) same.2
    have perm := within.perm_of_length_le (by simp [same.1])
    exact sameTypes_iff.mpr fun p => perm.mem_iff
  · intro same
    have perm := same.perm distinct distinct'
    exact ⟨by simpa using perm.length_eq, perm.subset⟩

end Overload
