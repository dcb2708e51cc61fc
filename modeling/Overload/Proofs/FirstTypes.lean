import Mathlib.Data.List.Induction
import Mathlib.Data.List.Nodup
import Overload.Proofs.Outcome
import Overload.Proofs.TypeSet

/-!
First occurrences: a list of types without those that are the same as an earlier one, as a union
keeps its members. What treats types that are the same alike finds in the first occurrences all that
the list has, in the same order.
-/
namespace Overload

namespace TypeExpr

/-- The types without those that are the same as an earlier one. -/
def firsts (ts : List TypeExpr) : List TypeExpr := ts.foldl addType []

theorem firsts_subset (ts : List TypeExpr) : firsts ts ⊆ ts :=
  (foldl_addType_sublist [] ts).subset

theorem mem_plain_firsts {p : TypeExpr} {ts : List TypeExpr} :
    p ∈ (firsts ts).map plain ↔ p ∈ ts.map plain := by
  rw [firsts, mem_foldl_addType, List.map_nil, or_iff_right List.not_mem_nil]

theorem firsts_append (ts us : List TypeExpr) :
    firsts (ts ++ us) = us.foldl addType (firsts ts) := List.foldl_append

theorem addType_of_mem {ts : List TypeExpr} {t : TypeExpr} (old : t.plain ∈ ts.map plain) :
    addType ts t = ts :=
  if_pos (any_same_iff.mpr old)

theorem addType_of_not_mem {ts : List TypeExpr} {t : TypeExpr} (new : t.plain ∉ ts.map plain) :
    addType ts t = ts ++ [t] :=
  if_neg fun old => new (any_same_iff.mp old)

theorem firsts_concat_of_mem {ts : List TypeExpr} {t : TypeExpr} (old : t.plain ∈ ts.map plain) :
    firsts (ts ++ [t]) = firsts ts := by
  rw [firsts_append, List.foldl_cons, List.foldl_nil, addType_of_mem (mem_plain_firsts.mpr old)]

theorem firsts_concat_of_not_mem {ts : List TypeExpr} {t : TypeExpr}
    (new : t.plain ∉ ts.map plain) : firsts (ts ++ [t]) = firsts ts ++ [t] := by
  rw [firsts_append, List.foldl_cons, List.foldl_nil,
    addType_of_not_mem fun old => new (mem_plain_firsts.mp old)]

/-- A type that is the same as an earlier one can be left out. -/
theorem firsts_insert_of_mem {before : List TypeExpr} {t : TypeExpr}
    (old : t.plain ∈ before.map plain) (after : List TypeExpr) :
    firsts (before ++ t :: after) = firsts (before ++ after) := by
  rw [List.append_cons, firsts_append, firsts_concat_of_mem old, firsts_append]

theorem foldl_addType_of_forall_mem {ts us : List TypeExpr}
    (old : ∀ u ∈ us, u.plain ∈ ts.map plain) : us.foldl addType ts = ts := by
  induction us with
  | nil => rfl
  | cons u us ih =>
      obtain ⟨first, rest⟩ := List.forall_mem_cons.mp old
      rw [List.foldl_cons, addType_of_mem first, ih rest]

/-- Types can be added without those that are the same as an earlier one. -/
theorem foldl_addType_firsts (seen us : List TypeExpr) :
    (firsts us).foldl addType seen = us.foldl addType seen := by
  induction us using List.reverseRecOn with
  | nil => rfl
  | append_singleton us u ih =>
      by_cases old : u.plain ∈ us.map plain
      · rw [firsts_concat_of_mem old, ih, List.foldl_append, List.foldl_cons, List.foldl_nil,
          addType_of_mem (mem_foldl_addType.mpr (.inr old))]
      · rw [firsts_concat_of_not_mem old, List.foldl_append, List.foldl_append, ih]

theorem firsts_append_congr {us us' : List TypeExpr} (same : firsts us = firsts us')
    (before after : List TypeExpr) :
    firsts (before ++ us ++ after) = firsts (before ++ us' ++ after) := by
  rw [firsts_append, firsts_append, firsts_append, firsts_append, ← foldl_addType_firsts _ us, same,
    foldl_addType_firsts]

/-- First occurrences are enough for what treats types that are the same alike. -/
theorem forall_firsts {P : TypeExpr → Prop} (alike : ∀ a b, a.plain = b.plain → P a → P b)
    {ts : List TypeExpr} : (∀ t ∈ firsts ts, P t) ↔ ∀ t ∈ ts, P t := by
  constructor
  · intro each t ht
    obtain ⟨u, hu, same⟩ := List.mem_map.mp (mem_plain_firsts.mpr (List.mem_map_of_mem ht))
    exact alike u t same (each u hu)
  · intro each t ht
    exact each t (firsts_subset ts ht)

theorem firsts_flatMap {f : TypeExpr → List TypeExpr}
    (alike : ∀ a b, a.plain = b.plain → (f a).map plain = (f b).map plain) (ts : List TypeExpr) :
    firsts ((firsts ts).flatMap f) = firsts (ts.flatMap f) := by
  induction ts using List.reverseRecOn with
  | nil => rfl
  | append_singleton ts t ih =>
      rw [List.flatMap_append, List.flatMap_singleton, firsts_append (ts.flatMap f)]
      by_cases old : t.plain ∈ ts.map plain
      · -- What an earlier type gave takes in what this one gives.
        obtain ⟨s, hs, same⟩ := List.mem_map.mp old
        rw [firsts_concat_of_mem old, ih, foldl_addType_of_forall_mem]
        intro u hu
        have given : u.plain ∈ (f s).map plain := alike s t same ▸ List.mem_map_of_mem hu
        obtain ⟨v, hv, same'⟩ := List.mem_map.mp given
        rw [mem_plain_firsts, ← same']
        exact List.mem_map_of_mem (List.mem_flatMap.mpr ⟨s, hs, hv⟩)
      · rw [firsts_concat_of_not_mem old, List.flatMap_append, List.flatMap_singleton,
          firsts_append, ih]

theorem firsts_filterMap {f : TypeExpr → Option TypeExpr}
    (alike : ∀ a b, a.plain = b.plain → (f a).map plain = (f b).map plain) (ts : List TypeExpr) :
    firsts ((firsts ts).filterMap f) = firsts (ts.filterMap f) := by
  rw [List.filterMap_eq_flatMap_toList, List.filterMap_eq_flatMap_toList]
  refine firsts_flatMap (fun a b same => ?_) ts
  rw [← Option.toList_map, alike a b same, Option.toList_map]

theorem head?_firsts (ts : List TypeExpr) : (firsts ts).head? = ts.head? := by
  induction ts using List.reverseRecOn with
  | nil => rfl
  | append_singleton ts t ih =>
      by_cases old : t.plain ∈ ts.map plain
      · have some : ts ≠ [] := by
          rintro rfl
          exact List.not_mem_nil old
        rw [firsts_concat_of_mem old, ih, List.head?_append_of_ne_nil _ some]
      · rw [firsts_concat_of_not_mem old, List.head?_append, List.head?_append, ih]

theorem agreed?_firsts (ts : List TypeExpr) : agreed? (firsts ts) = agreed? ts := by
  refine Option.ext fun t => ?_
  rw [agreed?_eq_some, agreed?_eq_some, head?_firsts]
  refine and_congr_right fun _ => forall_firsts fun a b same alike => ?_
  exact sameType_trans alike (sameType_iff.mpr same)

/-- The first fault is that of a first occurrence. -/
theorem firstFault_firsts {ε β : Type} {f : TypeExpr → Except ε β}
    (alike : ∀ a b, a.plain = b.plain → ∀ e, f a = .error e → f b = .error e) {ts : List TypeExpr}
    {e : ε} : FirstFault f (firsts ts) e ↔ FirstFault f ts e := by
  have passes : ∀ a b, a.plain = b.plain → (∃ z, f a = .ok z) → ∃ z, f b = .ok z := by
    intro a b same passed
    cases result : f b with
    | ok z => exact ⟨z, rfl⟩
    | error e =>
        obtain ⟨z, ok⟩ := passed
        cases ok.symm.trans (alike b a same.symm e result)
  induction ts using List.reverseRecOn with
  | nil => rfl
  | append_singleton ts t ih =>
      rw [@firstFault_append _ _ _ f ts]
      by_cases old : t.plain ∈ ts.map plain
      · obtain ⟨s, hs, same⟩ := List.mem_map.mp old
        rw [firsts_concat_of_mem old]
        refine ih.trans (iff_self_or.mpr fun later => ?_)
        obtain ⟨z, ok⟩ := passes s t same (later.1 s hs)
        obtain fails | ⟨_, none⟩ := firstFault_cons.mp later.2
        · cases ok.symm.trans fails
        · exact absurd none firstFault_nil
      · rw [firsts_concat_of_not_mem old, firstFault_append, forall_firsts passes]
        exact or_congr_left ih

/-- For each of the types the first one that is the same type, in the order in which these stand. -/
structure FirstOccurrences (ts members : List TypeExpr) : Prop where
  distinct : Distinct members
  covers : ∀ t ∈ ts, ∃! m, m ∈ members ∧ t.sameType m = true
  first : ∀ m ∈ members, ts.find? (·.sameType m) = some m
  order : members.Pairwise fun a b => ts.findIdx (·.sameType a) < ts.findIdx (·.sameType b)

theorem eq_of_distinct {ts : List TypeExpr} (distinct : Distinct ts) {a b : TypeExpr}
    (ha : a ∈ ts) (hb : b ∈ ts) (same : a.sameType b = true) : a = b :=
  List.inj_on_of_nodup_map (distinct_iff.mp distinct) ha hb (sameType_iff.mp same)

theorem find?_of_mem_firsts {ts : List TypeExpr} :
    ∀ m ∈ firsts ts, ts.find? (·.sameType m) = some m := by
  induction ts using List.reverseRecOn with
  | nil => exact nofun
  | append_singleton ts t ih =>
      have before (m : TypeExpr) (hm : m ∈ firsts ts) :
          (ts ++ [t]).find? (·.sameType m) = some m := by
        rw [List.find?_append, ih m hm, Option.some_or]
      by_cases old : t.plain ∈ ts.map plain
      · rwa [firsts_concat_of_mem old]
      · rw [firsts_concat_of_not_mem old]
        refine List.forall_mem_append.mpr ⟨before, List.forall_mem_singleton.mpr ?_⟩
        have none : ts.find? (·.sameType t) = none :=
          List.find?_eq_none.mpr fun u hu same => old (any_same_iff.mp
            (List.any_eq_true.mpr ⟨u, hu, same⟩))
        rw [List.find?_append, none, Option.none_or, List.find?_singleton, sameType_refl,
          if_pos rfl]

theorem findIdx_lt_iff {ts : List TypeExpr} {t : TypeExpr} :
    ts.findIdx (·.sameType t) < ts.length ↔ t.plain ∈ ts.map plain := by
  rw [List.findIdx_lt_length, ← List.any_eq_true, any_same_iff]

theorem findIdx_append_of_mem {ts : List TypeExpr} {t : TypeExpr} (old : t.plain ∈ ts.map plain)
    (us : List TypeExpr) :
    (ts ++ us).findIdx (·.sameType t) = ts.findIdx (·.sameType t) ∧
      ts.findIdx (·.sameType t) < ts.length := by
  have within := findIdx_lt_iff.mpr old
  exact ⟨by rw [List.findIdx_append, if_pos within], within⟩

theorem pairwise_findIdx_firsts (ts : List TypeExpr) :
    (firsts ts).Pairwise fun a b => ts.findIdx (·.sameType a) < ts.findIdx (·.sameType b) := by
  induction ts using List.reverseRecOn with
  | nil => exact .nil
  | append_singleton ts t ih =>
      have index (a : TypeExpr) (ha : a ∈ firsts ts) :=
        findIdx_append_of_mem (List.mem_map_of_mem (firsts_subset ts ha)) [t]
      have before : (firsts ts).Pairwise fun a b =>
          (ts ++ [t]).findIdx (·.sameType a) < (ts ++ [t]).findIdx (·.sameType b) := by
        refine ih.imp_of_mem fun ha hb less => ?_
        rwa [(index _ ha).1, (index _ hb).1]
      by_cases old : t.plain ∈ ts.map plain
      · rwa [firsts_concat_of_mem old]
      · rw [firsts_concat_of_not_mem old]
        refine List.pairwise_append.mpr ⟨before, List.pairwise_singleton _ _, fun a ha b hb => ?_⟩
        rw [List.mem_singleton.mp hb, (index a ha).1, List.findIdx_append,
          if_neg (mt findIdx_lt_iff.mp old)]
        exact Nat.lt_of_lt_of_le (index a ha).2 (Nat.le_add_left _ _)

theorem firstOccurrences_firsts (ts : List TypeExpr) : FirstOccurrences ts (firsts ts) where
  distinct := distinct_foldl_addType .nil ts
  covers t ht := by
    obtain ⟨m, hm, same⟩ := exists_same_iff.mpr (mem_plain_firsts.mpr (List.mem_map_of_mem ht))
    refine ⟨m, ⟨hm, same⟩, fun m' both => ?_⟩
    refine eq_of_distinct (distinct_foldl_addType .nil ts) both.1 hm (sameType_trans ?_ same)
    rw [sameType_comm]
    exact both.2
  first := find?_of_mem_firsts
  order := pairwise_findIdx_firsts ts

theorem map_plain_flatten (t : TypeExpr) : (flatten t).map plain = flatten t.plain := by
  induction t using induct with
  | named as name params _ => rfl
  | wildcard as => rfl
  | union as members ih =>
      simp only [flatten, plain, flattenAll_eq_flatMap, plainAll_eq_map, List.map_flatMap,
        List.flatMap_map]
      exact List.flatMap_congr ih

theorem firsts_flattenAll (ts : List TypeExpr) :
    firsts (flattenAll (firsts ts)) = firsts (flattenAll ts) := by
  rw [flattenAll_eq_flatMap, flattenAll_eq_flatMap]
  refine firsts_flatMap (fun a b same => ?_) ts
  rw [map_plain_flatten, same, map_plain_flatten]

theorem flattenAll_flattenAll (ts : List TypeExpr) :
    flattenAll (flattenAll ts) = flattenAll ts := by
  have self : ∀ t ∈ flattenAll ts, flatten t = [t] := by
    intro t ht
    obtain ⟨u, _, inside⟩ := mem_flattenAll.mp ht
    obtain ⟨single, unannotated⟩ := flatten_normal inside
    rw [flatten_single single, bare_of_plain unannotated]
  rw [flattenAll_eq_flatMap (flattenAll ts), List.flatMap_congr self, List.flatMap_singleton']

theorem flattenAll_alternatives (ts : List TypeExpr) :
    flattenAll (ts.flatMap alternatives) = flattenAll ts := by
  simp only [flattenAll_eq_flatMap, List.flatMap_assoc]
  refine List.flatMap_congr fun t _ => ?_
  cases t with
  | union as members => rw [alternatives, flatten, flattenAll_eq_flatMap]
  | named as name params => rfl
  | wildcard as => rfl

/-- A union keeps the first occurrences of what the types are flattened to. -/
theorem firsts_flatten_unionOf (ts : List TypeExpr) :
    firsts (flatten (unionOf ts)) = firsts (flattenAll ts) := by
  calc firsts (flatten (unionOf ts))
    _ = firsts (flattenAll (firsts (ts.flatMap alternatives))) := rfl
    _ = firsts (flattenAll (ts.flatMap alternatives)) := firsts_flattenAll _
    _ = firsts (flattenAll ts) := by rw [flattenAll_alternatives]

theorem firsts_flattenAll_group (before group after : List TypeExpr) :
    firsts (flattenAll (before ++ unionOf group :: after)) =
      firsts (flattenAll (before ++ group ++ after)) := by
  rw [List.append_cons]
  simp only [flattenAll_append, flattenAll, List.append_nil]
  exact firsts_append_congr (firsts_flatten_unionOf group) _ _

theorem firsts_flattenAll_repeat {before : List TypeExpr} {t : TypeExpr}
    (old : t.plain ∈ before.map plain) (after : List TypeExpr) :
    firsts (flattenAll (before ++ t :: after)) = firsts (flattenAll (before ++ after)) := by
  rw [← firsts_flattenAll, firsts_insert_of_mem old, firsts_flattenAll]

theorem flattenAll_map_bare (ts : List TypeExpr) : flattenAll (ts.map bare) = flattenAll ts := by
  simp only [flattenAll_eq_flatMap, List.flatMap_map]
  refine List.flatMap_congr fun t _ => ?_
  cases t <;> rfl

end TypeExpr

end Overload
