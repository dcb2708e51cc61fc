import Overload.Proofs.FirstTypes
import Overload.Proofs.FlatUnion
import Overload.Proofs.Rebuilding

/-!
What the result type of an operation is made of. If a resolver asks for a union, wherever it stands,
the result is the union of the first occurrences of all declared types; otherwise it is their join.
The annotations on the declared types come in last and are the only ones at its root.
-/
namespace Overload.Operation

open Hierarchy TypeExpr

/-- All top-level annotations of the declared types, each once. -/
def declaredAnnotations (rs : List Resolver) : List Annotation :=
  (rs.flatMap (·.resultType.annotations)).eraseDups

/-- All types that a union of the declared types is made of. -/
def declaredAlternatives (rs : List Resolver) : List TypeExpr :=
  rs.flatMap (·.resultType.alternatives)

theorem annotate_declared {t : TypeExpr} (plain : t.annotations = []) (rs : List Resolver) :
    t.annotate (allAnnotations (rs.map (·.resultType))) =
      t.setAnnotations (declaredAnnotations rs) := by
  rw [annotate_allAnnotations plain, List.flatMap_map, declaredAnnotations]

theorem unifyResults_of_source {rs : List Resolver} (source : ∃ r ∈ rs, r.unionSource = true)
    (h : Hierarchy) (o : Options) (operation : String) :
    unifyResults h o operation rs =
      .ok (.union (declaredAnnotations rs) (firsts (declaredAlternatives rs))) := by
  have united : unionOf (rs.map (·.resultType)) = .union [] (firsts (declaredAlternatives rs)) := by
    rw [unionOf, List.flatMap_map]
    rfl
  rw [unifyResults, if_pos (List.any_eq_true.mpr source), united, annotate_declared rfl]
  rfl

theorem isUnion_of_mem_firsts {rs : List Resolver} (obtained : ∀ r ∈ rs, r.resultType.Obtained) :
    ∀ m ∈ firsts (declaredAlternatives rs), m.isUnion = false := by
  intro m hm
  obtain ⟨r, hr, inside⟩ := List.mem_flatMap.mp (firsts_subset _ hm)
  exact (obtained r hr).flat.isUnion_alternative inside

theorem isContentFree_setAnnotations (h : Hierarchy) (as : List Annotation) (t : TypeExpr) :
    h.isContentFree (t.setAnnotations as) = h.isContentFree t := by
  cases t <;> rfl

theorem setAnnotations_eq_iff {as : List Annotation} {j t : TypeExpr} (plain : j.annotations = []) :
    j.setAnnotations as = t ↔ j = t.bare ∧ t.annotations = as := by
  constructor
  · rintro rfl
    refine ⟨?_, annotations_setAnnotations as j⟩
    rw [← bare_of_plain plain]
    cases j <;> rfl
  · rintro ⟨rfl, rfl⟩
    cases t <;> rfl

theorem unifyResults_of_joins_eq_ok {h : Hierarchy} {o : Options} {operation : String}
    {rs : List Resolver} (joins : ∀ r ∈ rs, r.unionSource = false) {t : TypeExpr} :
    unifyResults h o operation rs = .ok t ↔
      h.joinWithin (rs.map (·.resultType)) o.maxJoinDepth = .ok t.bare ∧
        h.isContentFree t = false ∧ t.annotations = declaredAnnotations rs := by
  rw [unifyResults_of_joins joins]
  cases joined : h.joinWithin (rs.map (·.resultType)) o.maxJoinDepth with
  | error e => simp
  | ok j =>
      have plain := (joinBy_normal joined).2
      have content : j = t.bare → h.isContentFree t = h.isContentFree j := by
        rintro rfl
        exact (isContentFree_setAnnotations h [] t).symm
      simp only [annotate_declared plain, Except.ok.injEq]
      split
      · rename_i free
        refine iff_of_false (by simp) fun parts => ?_
        rw [content parts.1, free] at parts
        cases parts.2.1
      · rename_i filled
        rw [Except.ok.injEq, setAnnotations_eq_iff plain]
        refine and_congr_right fun same => (and_iff_right ?_).symm
        rw [content same]
        exact Bool.eq_false_iff.mpr filled

/-- A result is the union of the declared types as soon as one resolver asks for it, and otherwise
nothing but their join, if that says something about its values. Both carry the annotations of all
declared types. -/
theorem unifyResults_exact (h : Hierarchy) (o : Options) (operation : String) {rs : List Resolver}
    (obtained : ∀ r ∈ rs, r.resultType.Obtained) :
    ((∃ r ∈ rs, r.unionSource = true) → ∃ members,
      unifyResults h o operation rs = .ok (.union (declaredAnnotations rs) members) ∧
        FirstOccurrences (declaredAlternatives rs) members ∧ ∀ m ∈ members, m.isUnion = false) ∧
    ((∀ r ∈ rs, r.unionSource = false) → ∀ t, unifyResults h o operation rs = .ok t ↔
      h.joinWithin (rs.map (·.resultType)) o.maxJoinDepth = .ok t.bare ∧
        h.isContentFree t = false ∧ t.annotations = declaredAnnotations rs) := by
  refine ⟨fun source => ?_, fun joins t => unifyResults_of_joins_eq_ok joins⟩
  exact ⟨_, unifyResults_of_source source h o operation, firstOccurrences_firsts _,
    isUnion_of_mem_firsts obtained⟩

/-- Results with annotations at their roots and inside of a union. Only the second resolver asks for
a union, and its result is the same type as a member of the first one's. -/
def searches : List Resolver :=
  [{ name := "search"
     resultType :=
       .union [⟨"Stable", []⟩] [.named [⟨"NonNull", []⟩] "Int" [], .named [] "ID" []] },
   { name := "search", resultType := .named [⟨"Size", []⟩, ⟨"Stable", []⟩] "Int" []
     unionSource := true }]

/-- Results that are joined. -/
def counts : List Resolver :=
  [{ name := "count", resultType := .named [⟨"NonNull", []⟩] "Int" [] },
   { name := "count", resultType := .named [⟨"Stable", []⟩, ⟨"NonNull", []⟩] "Long" [] }]

theorem unifyResults_exact_searches :
    (∀ r ∈ searches ++ counts, r.resultType.Obtained) ∧
      (∃ members, unifyResults builtin {} "search" searches =
        .ok (.union (declaredAnnotations searches) members) ∧
          FirstOccurrences (declaredAlternatives searches) members ∧
            ∀ m ∈ members, m.isUnion = false) ∧
      unifyResults builtin {} "search" searches =
        .ok (.union [⟨"Stable", []⟩, ⟨"Size", []⟩]
          [.named [⟨"NonNull", []⟩] "Int" [], .named [] "ID" []]) ∧
      unifyResults builtin {} "count" counts =
        .ok (.named [⟨"NonNull", []⟩, ⟨"Stable", []⟩] "Number" []) := by
  have plain (name : String) : (named [] name []).Obtained := .named name nofun
  have searched : ∀ r ∈ searches, r.resultType.Obtained :=
    List.forall_mem_cons.mpr
      ⟨.annotate [⟨"Stable", []⟩] (.unionOf (List.forall_mem_cons.mpr
          ⟨.annotate [⟨"NonNull", []⟩] (plain "Int"),
            List.forall_mem_singleton.mpr (plain "ID")⟩)),
        List.forall_mem_singleton.mpr
          (.annotate [⟨"Size", []⟩, ⟨"Stable", []⟩] (plain "Int"))⟩
  have counted : ∀ r ∈ counts, r.resultType.Obtained :=
    List.forall_mem_cons.mpr
      ⟨.annotate [⟨"NonNull", []⟩] (plain "Int"), List.forall_mem_singleton.mpr
        (.annotate [⟨"Stable", []⟩, ⟨"NonNull", []⟩] (plain "Long"))⟩
  have source : ∃ r ∈ searches, r.unionSource = true := by decide
  have joins : ∀ r ∈ counts, r.unionSource = false := by decide
  have joined : builtin.joinWithin (counts.map (·.resultType)) 8 =
      .ok (.named [] "Number" []) := by cbv
  exact ⟨List.forall_mem_append.mpr ⟨searched, counted⟩,
    (unifyResults_exact builtin {} "search" searched).1 source, rfl,
    ((unifyResults_exact builtin {} "count" counted).2 joins _).mpr ⟨joined, by decide, rfl⟩⟩

end Overload.Operation
