import Overload.Proofs.FirstTypes
import Overload.Proofs.JoinChoice
import Overload.Proofs.Plain

/-!
A join depends on which types are joined and in which order they first occur, not on how often they
occur, on how they are grouped into unions, or on the annotations on them. A type that is the same
as an earlier one has the same lineage up to annotations, so each column of parameters gets from it
a type that it has already, and what a column agrees on is the type that came first.
-/
namespace Overload

open TypeExpr

theorem entryNamed?_map_plain (name : String) (l : List TypeExpr) :
    entryNamed? name (l.map plain) = (entryNamed? name l).map plain := by
  rw [entryNamed?, entryNamed?, findKey?, findKey?, List.find?_map]
  congr 2
  funext t
  rw [Function.comp_apply, erasedName_plain]

namespace Hierarchy

/-- What the lineage of a type gives for a parameter of an ancestor. -/
def lineageParam? (h : Hierarchy) (name : String) (i : Nat) (t : TypeExpr) : Option TypeExpr :=
  match h.lineage t with
  | .ok l => (entryNamed? name l).bind (·.params[i]?)
  | .error _ => none

theorem columns_eq {h : Hierarchy} {types : List TypeExpr} {lineages : List (List TypeExpr)}
    (climbs : h.Lineages types lineages) (a : TypeExpr) :
    columns lineages a = (List.range a.params.length).map fun i =>
      types.filterMap (h.lineageParam? a.erasedName i) := by
  refine List.map_congr_left fun i _ => ?_
  rw [List.filterMap_filterMap]
  induction climbs with
  | nil => rfl
  | cons climb _ ih => simp only [List.filterMap_cons, lineageParam?, climb, ih]

variable (h : Hierarchy) {a b : TypeExpr}

theorem lineageParam?_of_plain (name : String) (i : Nat) (same : a.plain = b.plain) :
    (h.lineageParam? name i a).map plain = (h.lineageParam? name i b).map plain := by
  have entry (l : List TypeExpr) : ((entryNamed? name l).bind (·.params[i]?)).map plain =
      (entryNamed? name (l.map plain)).bind (·.params[i]?) := by
    rw [entryNamed?_map_plain]
    cases entryNamed? name l with
    | none => rfl
    | some e => simp [params_plain]
  rw [lineageParam?, lineageParam?]
  cases result : h.lineage a with
  | error e => rw [lineage_fails_of_plain same result]
  | ok l =>
      obtain ⟨l', climbs, alike⟩ := exists_lineage_of_plain same result
      rw [climbs]
      simp only [entry, alike]

theorem shared_firsts (types : List TypeExpr) (n : String) :
    h.Shared (firsts types) n ↔ h.Shared types n := by
  refine forall_firsts fun a b same given => ?_
  obtain ⟨l, climbs, member⟩ := given
  obtain ⟨l', climbs', alike⟩ := exists_lineage_of_plain same climbs
  exact ⟨l', climbs', map_erasedName_of_plain alike ▸ member⟩

theorem preferred_firsts (types : List TypeExpr) (n : String) :
    h.Preferred (firsts types) n ↔ h.Preferred types n := by
  simp only [Preferred, LeastShared, shared_firsts]

/-- A way to join for which first occurrences are enough. -/
def Steady (join : List TypeExpr → Except HierarchyError TypeExpr) : Prop :=
  ∀ types, join (firsts types) = join types

section Steadiness

variable {h} {onColumn : List TypeExpr → Except HierarchyError TypeExpr}

theorem nearest?_firsts {types : List TypeExpr} {lineages lineages' : List (List TypeExpr)}
    (climbs : h.Lineages types lineages) (climbs' : h.Lineages (firsts types) lineages') :
    h.nearest? lineages' = h.nearest? lineages := by
  cases climbs with
  | nil =>
      cases climbs'
      rfl
  | @cons t first ts others climb rest =>
      obtain ⟨us, front⟩ := List.head?_eq_some_iff.mp (head?_firsts (t :: ts))
      rw [front] at climbs'
      cases climbs' with
      | @cons _ first' _ others' climb' rest' =>
          cases climb.symm.trans climb'
          rw [nearest?_eq_find? (.cons climb rest), nearest?_eq_find? (.cons climb rest')]
          refine List.find?_congr fun e _ => decide_eq_decide.mpr ?_
          rw [← front]
          exact h.preferred_firsts (t :: ts) e.erasedName

theorem columns_firsts (steady : Steady onColumn) {types : List TypeExpr}
    {lineages lineages' : List (List TypeExpr)} (climbs : h.Lineages types lineages)
    (climbs' : h.Lineages (firsts types) lineages') (a : TypeExpr) :
    (columns lineages' a).mapM onColumn = (columns lineages a).mapM onColumn := by
  rw [columns_eq climbs, columns_eq climbs', List.mapM_map, List.mapM_map]
  refine mapM_congr fun i _ => ?_
  have same := firsts_filterMap (fun _ _ => h.lineageParam?_of_plain a.erasedName i) types
  calc onColumn ((firsts types).filterMap (h.lineageParam? a.erasedName i))
    _ = onColumn (firsts ((firsts types).filterMap (h.lineageParam? a.erasedName i))) :=
        (steady _).symm
    _ = onColumn (types.filterMap (h.lineageParam? a.erasedName i)) := by rw [same, steady]

/-- What a search comes to once the lineages are known. -/
theorem searchPlan_resolve {types : List TypeExpr} {lineages : List (List TypeExpr)}
    (climbs : h.Lineages types lineages) :
    (h.searchPlan types >>= JoinPlan.resolve onColumn) =
      match h.nearest? lineages with
      | some a => (columns lineages a).mapM onColumn >>= fun params =>
          .ok (.named [] a.erasedName params)
      | none => .ok h.topType := by
  rw [searchPlan, mapM_eq_ok.mpr climbs]
  show ((match h.nearest? lineages with
    | some a => Except.ok (JoinPlan.ancestor a.erasedName (columns lineages a))
    | none => .ok (.settled h.topType)) >>= _) = _
  cases h.nearest? lineages <;> rfl

theorem searchPlan_firsts (steady : Steady onColumn) (types : List TypeExpr) :
    (h.searchPlan (firsts types) >>= JoinPlan.resolve onColumn) =
      (h.searchPlan types >>= JoinPlan.resolve onColumn) := by
  cases result : types.mapM h.lineage with
  | error e =>
      have fails : (firsts types).mapM h.lineage = .error e := by
        rw [mapM_eq_error] at result ⊢
        exact (firstFault_firsts fun _ _ same _ => lineage_fails_of_plain same).mpr result
      rw [searchPlan, searchPlan, result, fails]
  | ok lineages =>
      have climbs : h.Lineages types lineages := mapM_eq_ok.mp result
      have each : ∀ t ∈ firsts types, ∃ l, h.lineage t = .ok l := fun t ht =>
        (exists_of_mem_left climbs (firsts_subset types ht)).imp fun _ found => found.2
      obtain ⟨lineages', climbs'⟩ := exists_lineages_of_each each
      rw [searchPlan_resolve climbs, searchPlan_resolve climbs', nearest?_firsts climbs climbs']
      cases h.nearest? lineages with
      | none => rfl
      | some a =>
          show (columns lineages' a).mapM onColumn >>= _ = (columns lineages a).mapM onColumn >>= _
          rw [columns_firsts steady climbs climbs']

theorem joinPlan_firsts (steady : Steady onColumn) (types : List TypeExpr) :
    (h.joinPlan (firsts types) >>= JoinPlan.resolve onColumn) =
      (h.joinPlan types >>= JoinPlan.resolve onColumn) := by
  cases agree : agreed? types with
  | some t => rw [joinPlan_of_agreed agree, joinPlan_of_agreed ((agreed?_firsts types).trans agree)]
  | none =>
      have differ := (agreed?_firsts types).trans agree
      by_cases none : types = []
      · rw [none]
        rfl
      · have closed : (∀ t ∈ firsts types, t.isWildcard = false) ↔
            ∀ t ∈ types, t.isWildcard = false :=
          forall_firsts fun a b same closed =>
            (isWildcard_of_sameType (sameType_iff.mpr same)).symm.trans closed
        by_cases wild : ∀ t ∈ types, t.isWildcard = false
        · have inhabited : firsts types ≠ [] := by
            rw [ne_eq, ← List.head?_eq_none_iff, head?_firsts, List.head?_eq_none_iff]
            exact none
          rw [joinPlan_of_closed inhabited differ (closed.mpr wild),
            joinPlan_of_closed none agree wild]
          exact searchPlan_firsts steady types
        · have wild' := mt closed.mp wild
          simp only [not_forall, exists_prop, Bool.not_eq_false] at wild wild'
          rw [joinPlan_of_open differ wild', joinPlan_of_open agree wild]

theorem joinBy_firsts (steady : Steady onColumn) {types types' : List TypeExpr}
    (same : firsts (flattenAll types) = firsts (flattenAll types')) :
    h.joinBy onColumn types = h.joinBy onColumn types' := by
  rw [joinBy, joinBy, ← joinPlan_firsts steady, same, joinPlan_firsts steady]

theorem steady_joinColumn (depth : Nat) : Steady (h.joinColumn depth) := by
  induction depth with
  | zero =>
      intro types
      rw [joinColumn, joinColumn, agreed?_firsts]
  | succ depth ih =>
      intro types
      rw [joinColumn, joinColumn, agreed?_firsts, joinBy_firsts ih (firsts_flattenAll types)]

end Steadiness

/-- The join of types is that of the first occurrences of what they are flattened to, or of their
union. A type that is the same as an earlier one can be left out, types that follow one another can
be grouped into a union, and annotations on the types themselves can be changed, for the same join
with the same annotations inside, or the same error. -/
theorem join_firstOccurrences (h : Hierarchy) (types : List TypeExpr) (depth : Nat) :
    h.joinWithin types depth = h.joinWithin (firsts (flattenAll types)) depth ∧
      h.joinWithin types depth = h.joinWithin [unionOf types] depth ∧
      (∀ before t after, types = before ++ t :: after → (∃ s ∈ before, s.sameType t = true) →
        h.joinWithin types depth = h.joinWithin (before ++ after) depth) ∧
      (∀ before group after, types = before ++ group ++ after →
        h.joinWithin types depth = h.joinWithin (before ++ unionOf group :: after) depth) ∧
      ∀ types', types'.map bare = types.map bare →
        h.joinWithin types depth = h.joinWithin types' depth := by
  have congr {us vs : List TypeExpr} (same : firsts (flattenAll us) = firsts (flattenAll vs)) :
      h.joinWithin us depth = h.joinWithin vs depth :=
    joinBy_firsts (steady_joinColumn depth) same
  refine ⟨congr ?_, congr ?_, ?_, ?_, ?_⟩
  · rw [firsts_flattenAll, flattenAll_flattenAll]
  · rw [flattenAll, flattenAll, List.append_nil, firsts_flatten_unionOf]
  · intro before t after split repeated
    subst split
    obtain ⟨s, hs, same⟩ := repeated
    have old : t.plain ∈ before.map plain := sameType_iff.mp same ▸ List.mem_map_of_mem hs
    exact congr (firsts_flattenAll_repeat old after)
  · intro before group after split
    subst split
    exact congr (firsts_flattenAll_group before group after).symm
  · intro types' alike
    apply congr
    rw [← flattenAll_map_bare types, ← alike, flattenAll_map_bare]

/-- An `ArrayList<@inner Int>`, a `HashSet<Int>` and an `ArrayList<@other Int>`. -/
def repeatedLists : List TypeExpr :=
  [.named [] "ArrayList" [.named [⟨"inner", []⟩] "Int" []],
    .named [] "HashSet" [.named [] "Int" []],
    .named [] "ArrayList" [.named [⟨"other", []⟩] "Int" []]]

/-- The annotation of the first occurrence stays inside the join. -/
theorem join_firstOccurrences_lists :
    builtin.joinWithin repeatedLists 1 =
        .ok (.named [] "Collection" [.named [⟨"inner", []⟩] "Int" []]) ∧
      builtin.joinWithin [unionOf repeatedLists] 1 =
        .ok (.named [] "Collection" [.named [⟨"inner", []⟩] "Int" []]) ∧
      builtin.joinWithin (repeatedLists.take 2) 1 =
        .ok (.named [] "Collection" [.named [⟨"inner", []⟩] "Int" []]) := by
  have joined : builtin.joinWithin repeatedLists 1 =
      .ok (.named [] "Collection" [.named [⟨"inner", []⟩] "Int" []]) := by cbv
  obtain ⟨_, union, shorter, _⟩ := join_firstOccurrences builtin repeatedLists 1
  have dropped := shorter (repeatedLists.take 2) _ [] rfl ⟨_, List.mem_cons_self, by decide⟩
  exact ⟨joined, union.symm.trans joined, dropped.symm.trans joined⟩

end Hierarchy

end Overload
