import Overload.Hierarchy.Builtin
import Overload.Proofs.Plain

/-!
What being the same type means: the types without their annotations are equal trees. So it is an
equivalence and follows from equality, and neither substitution nor the search up a lineage tells
types apart that are the same.
-/
namespace Overload

namespace TypeExpr

theorem forall₂_sameType_iff {as bs : List TypeExpr} :
    List.Forall₂ (fun a b => a.sameType b = true) as bs ↔ as.map plain = bs.map plain := by
  rw [← List.forall₂_eq_eq_eq, List.forall₂_map_left_iff, List.forall₂_map_right_iff]
  exact Iff.of_eq (congrArg (List.Forall₂ · as bs) (funext₂ fun _ _ => propext sameType_iff))

theorem sameType_equivalence : Equivalence fun a b : TypeExpr => a.sameType b = true where
  refl := sameType_refl
  symm {a b} same := (sameType_comm b a).trans same
  trans := sameType_trans

private theorem map_plain_of_sameAll {ps qs : List TypeExpr}
    (each : ∀ p ∈ ps, ∀ {q : TypeExpr}, (p == q) = true → p.plain = q.plain)
    (equal : sameAll ps qs = true) : ps.map plain = qs.map plain := by
  induction ps generalizing qs with
  | nil =>
      cases qs with
      | nil => rfl
      | cons q qs => cases equal
  | cons p ps ih =>
      cases qs with
      | nil => cases equal
      | cons q qs =>
          obtain ⟨first, rest⟩ := List.forall_mem_cons.mp each
          obtain ⟨head, tail⟩ := Bool.and_eq_true_iff.mp equal
          rw [List.map_cons, List.map_cons, first head, ih rest tail]

/-- Equality compares the annotations too, at every level. -/
theorem plain_of_beq {a b : TypeExpr} (equal : (a == b) = true) : a.plain = b.plain := by
  induction a using induct generalizing b with
  | wildcard as =>
      cases b with
      | wildcard bs => rfl
      | named bs name params => cases equal
      | union bs members => cases equal
  | named as name params ih =>
      cases b with
      | wildcard bs => cases equal
      | union bs members => cases equal
      | named bs name' params' =>
          obtain ⟨names, children⟩ := Bool.and_eq_true_iff.mp equal
          obtain ⟨_, names⟩ := Bool.and_eq_true_iff.mp names
          rw [plain, plain, plainAll_eq_map, plainAll_eq_map, beq_iff_eq.mp names,
            map_plain_of_sameAll ih children]
  | union as members ih =>
      cases b with
      | wildcard bs => cases equal
      | named bs name params => cases equal
      | union bs members' =>
          obtain ⟨_, children⟩ := Bool.and_eq_true_iff.mp equal
          rw [plain, plain, plainAll_eq_map, plainAll_eq_map, map_plain_of_sameAll ih children]

/-- Arguments that are the same, place by place, make types that are the same of such types. -/
theorem sameType_substitute {vars : List String} {args args' : List TypeExpr} {a b : TypeExpr}
    (given : List.Forall₂ (fun x y => x.sameType y = true) args args')
    (same : a.sameType b = true) :
    (a.substitute vars args).sameType (b.substitute vars args') = true := by
  rw [sameType_iff] at same ⊢
  rw [plain_substitute, plain_substitute, same, forall₂_sameType_iff.mp given]

end TypeExpr

namespace Hierarchy

open TypeExpr

/-- The lineages of types that are the same have entries that are the same, place by place, or the
searches fail alike. -/
theorem lineage_of_sameType (h : Hierarchy) {a b : TypeExpr} (same : a.sameType b = true) :
    (∃ e, h.lineage a = .error e ∧ h.lineage b = .error e) ∨
      ∃ l l', h.lineage a = .ok l ∧ h.lineage b = .ok l' ∧
        List.Forall₂ (fun x y => x.sameType y = true) l l' := by
  have alike := sameType_iff.mp same
  cases result : h.lineage a with
  | error e => exact .inl ⟨e, rfl, lineage_fails_of_plain alike result⟩
  | ok l =>
      obtain ⟨l', climbs, entries⟩ := exists_lineage_of_plain alike result
      exact .inr ⟨l, l', rfl, climbs, forall₂_sameType_iff.mpr entries⟩

end Hierarchy

open TypeExpr

/-- Two types are the same exactly when deleting the annotations at every level leaves equal trees.
That is an equivalence, and follows from equality. Substitution of arguments that are the same keeps
it, and in every hierarchy types that are the same have lineages that are, or fail alike. -/
theorem sameType_exact :
    (∀ a b : TypeExpr, a.sameType b = true ↔ a.plain = b.plain) ∧
    Equivalence (fun a b : TypeExpr => a.sameType b = true) ∧
    (∀ a b : TypeExpr, (a == b) = true → a.sameType b = true) ∧
    (∀ (vars : List String) (args args' : List TypeExpr) (a b : TypeExpr),
      List.Forall₂ (fun x y => x.sameType y = true) args args' → a.sameType b = true →
        (a.substitute vars args).sameType (b.substitute vars args') = true) ∧
    ∀ (h : Hierarchy) (a b : TypeExpr), a.sameType b = true →
      (∃ e, h.lineage a = .error e ∧ h.lineage b = .error e) ∨
        ∃ l l', h.lineage a = .ok l ∧ h.lineage b = .ok l' ∧
          List.Forall₂ (fun x y => x.sameType y = true) l l' := by
  refine ⟨fun a b => sameType_iff, sameType_equivalence, ?_, ?_, ?_⟩
  · intro a b equal
    exact sameType_iff.mpr (plain_of_beq equal)
  · intro vars args args' a b given same
    exact sameType_substitute given same
  · intro h a b same
    exact h.lineage_of_sameType same

/-- A `@Stable Map<@NonNull String, List<T>>`. -/
def stableMap : TypeExpr :=
  .named [⟨"Stable", []⟩] "Map"
    [.named [⟨"NonNull", []⟩] "String" [], .named [] "List" [.named [] "T" []]]

/-- A `Map<String, @Size(max = 32) List<@NonNull T>>`. -/
def sizedMap : TypeExpr :=
  .named [] "Map"
    [.named [] "String" [],
      .named [⟨"Size", .ofMembers [("max", .integer 32)]⟩] "List"
        [.named [⟨"NonNull", []⟩] "T" []]]

/-- The two maps are the same type but not equal. Lists of them have lineages that are the same;
with a parameter too many, both searches fail alike. -/
theorem sameType_exact_maps :
    stableMap.sameType sizedMap = true ∧ (stableMap == sizedMap) = false ∧
      (stableMap.substitute ["T"] [sizedMap]).sameType
        (sizedMap.substitute ["T"] [stableMap]) = true ∧
      (∃ l l', Hierarchy.builtin.lineage (.named [] "List" [stableMap]) = .ok l ∧
        Hierarchy.builtin.lineage (.named [⟨"Stable", []⟩] "List" [sizedMap]) = .ok l' ∧
          l.length = 4 ∧ List.Forall₂ (fun x y => x.sameType y = true) l l') ∧
      ∃ e, Hierarchy.builtin.lineage (.named [] "List" [stableMap, sizedMap]) = .error e ∧
        Hierarchy.builtin.lineage (.named [] "List" [sizedMap, stableMap]) = .error e := by
  obtain ⟨_, equivalence, _, substituted, lineages⟩ := sameType_exact
  have same : stableMap.sameType sizedMap = true := by decide
  have lists : (named [] "List" [stableMap]).sameType
      (named [⟨"Stable", []⟩] "List" [sizedMap]) = true := by decide
  have pairs : (named [] "List" [stableMap, sizedMap]).sameType
      (named [] "List" [sizedMap, stableMap]) = true := by decide
  have climbs : Hierarchy.builtin.lineage (.named [] "List" [stableMap]) =
      .ok [.named [] "List" [stableMap], .named [] "Collection" [stableMap],
        .named [] "Iterable" [stableMap], .named [] "Object" []] := by cbv
  have fails : Hierarchy.builtin.lineage (.named [] "List" [stableMap, sizedMap]) =
      .error (.arityMismatch "List" 1 2) := by cbv
  refine ⟨same, by decide, substituted ["T"] _ _ _ _ (.cons ?_ .nil) same, ?_, ?_⟩
  · exact equivalence.symm same
  · obtain ⟨e, none, _⟩ | ⟨l, l', left, right, entries⟩ := lineages Hierarchy.builtin _ _ lists
    · cases climbs.symm.trans none
    · cases climbs.symm.trans left
      exact ⟨_, l', climbs, right, rfl, entries⟩
  · obtain ⟨e, left, right⟩ | ⟨l, _, some, _, _⟩ := lineages Hierarchy.builtin _ _ pairs
    · exact ⟨e, left, right⟩
    · cases fails.symm.trans some

end Overload
