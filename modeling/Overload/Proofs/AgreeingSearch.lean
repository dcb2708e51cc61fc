import Overload.Proofs.JoinAncestor
import Overload.Proofs.JoinRepetition
import Overload.Proofs.Rejection

/-!
A join of types that are all the same gives the first of them without a search. The search would
come to the same: the name of the types is the only least one of those that they share, and each
column of its parameters agrees on what the first type has there. Only a raw type comes out with its
parameters written open.
-/
namespace Overload.Hierarchy

open TypeExpr

/-- The lineage of a type that is the same as another one has the same type for each ancestor. -/
theorem exists_entry_of_plain {first l : List TypeExpr} (alike : first.map plain = l.map plain)
    {name : String} {e : TypeExpr} (front : entryNamed? name first = some e) :
    ∃ u, entryNamed? name l = some u ∧ e.sameType u = true := by
  have entries : (entryNamed? name l).map plain = some e.plain := by
    rw [← entryNamed?_map_plain, ← alike, entryNamed?_map_plain, front, Option.map_some]
  obtain ⟨u, found, same⟩ := Option.map_eq_some_iff.mp entries
  exact ⟨u, found, sameType_iff.mpr same.symm⟩

/-- Types that are all the same as one with a lineage have lineages too, the same up to
annotations. -/
theorem exists_lineages_of_same {h : Hierarchy} {t : TypeExpr} {first types : List TypeExpr}
    (climb : h.lineage t = .ok first) (same : ∀ u ∈ types, t.sameType u = true) :
    ∃ lineages, h.Lineages types lineages ∧ ∀ l ∈ lineages, first.map plain = l.map plain := by
  have each : ∀ u ∈ types, ∃ l, h.lineage u = .ok l ∧ first.map plain = l.map plain :=
    fun u hu => exists_lineage_of_plain (sameType_iff.mp (same u hu)) climb
  obtain ⟨lineages, climbs⟩ := exists_lineages_of_each fun u hu => (each u hu).imp fun _ => And.left
  refine ⟨lineages, climbs, fun l hl => ?_⟩
  obtain ⟨u, hu, climb'⟩ := exists_of_mem_right climbs hl
  obtain ⟨_, climb'', alike⟩ := each u hu
  cases climb'.symm.trans climb''
  exact alike

theorem Sound.search_of_same {h : Hierarchy} (sound : h.Sound)
    {onColumn : List TypeExpr → Except HierarchyError TypeExpr}
    (agreeing : ∀ c p, agreed? c = some p → onColumn c = .ok p) {as : List Annotation}
    {name : String} {params others : List TypeExpr} {count : Nat}
    (arity : h.arity name = .ok count) (fits : params = [] ∨ params.length = count)
    (same : ∀ u ∈ named as name params :: others, (named as name params).sameType u = true) :
    (h.searchPlan (.named as name params :: others) >>= JoinPlan.resolve onColumn) =
      .ok (.named [] name (fullParams count params)) := by
  obtain ⟨first, climb⟩ := sound.exists_lineage (t := .named as name params) ⟨count, arity, fits⟩
  obtain ⟨lineages, climbs, alike⟩ := exists_lineages_of_same climb same
  obtain ⟨rest, rfl⟩ := lineage_start arity fits climb
  have shared : h.Shared (.named as name params :: others) name := by
    refine (shared_iff climbs).mpr fun l hl => ?_
    rw [← map_erasedName_of_plain (alike l hl)]
    exact List.mem_cons_self
  obtain ⟨a, chosen, rfl, arity'⟩ :=
    exists_nearest_of_member sound climbs List.mem_cons_self rfl shared
  have length : a.params.length = (fullParams count params).length :=
    (Except.ok.inj (arity'.symm.trans arity)).trans (length_fullParams fits).symm
  obtain ⟨others', rfl⟩ : ∃ others', lineages = _ :: others' := by
    cases climbs with
    | cons climb' _ =>
        cases climb.symm.trans climb'
        exact ⟨_, rfl⟩
  have agreement := agreed?_columns (a := a) entryNamed?_self
    (fun l hl => exists_entry_of_plain (alike l hl) entryNamed?_self) length
  have joined := mapM_eq_ok.mpr (agreement.imp fun c p => agreeing c p)
  rw [searchPlan_resolve climbs, chosen]
  dsimp only
  rw [joined]
  rfl

/-- For types that are all the same and checked, what a join does after its early answers comes to
the first of them without its annotations, as the join itself does, but a raw type gets an open
parameter for each that its name takes. So both say something about their values, or neither does.
-/
theorem search_of_agreeing {base h : Hierarchy} {ds : List Declaration}
    (accepted : base.extend ds = .ok h) (topFree : h.declares h.top = false)
    {as : List Annotation} {name : String} {params others : List TypeExpr}
    (same : (named as name params :: others).Pairwise fun t u => t.sameType u = true)
    (checked : ∀ t ∈ named as name params :: others, h.check t = .ok ()) (depth : Nat) :
    ∃ count, h.arity name = .ok count ∧
      (h.searchPlan (flattenAll (.named as name params :: others)) >>=
        JoinPlan.resolve (h.joinColumn depth)) = .ok (.named [] name (fullParams count params)) ∧
      h.joinWithin (.named as name params :: others) depth = .ok (.named [] name params) ∧
      h.isContentFree (.named [] name (fullParams count params)) =
        h.isContentFree (.named [] name params) := by
  have sound : h.Sound := ⟨validate_of_extend accepted, topFree⟩
  obtain ⟨alike, _⟩ := List.pairwise_cons.mp same
  obtain ⟨count, arity, fits⟩ := (check_named.mp (checked _ List.mem_cons_self)).1
  have nominal : Nominal (.named as name params :: others) :=
    List.forall_mem_cons.mpr
      ⟨⟨name, rfl⟩, fun u hu => ⟨name, (name?_of_sameType (alike u hu)).symm⟩⟩
  have flat : flattenAll (.named as name params :: others) =
      .named [] name params :: others.map bare := flattenAll_of_nominal nominal
  have alike : ∀ u ∈ named [] name params :: others.map bare,
      (named [] name params).sameType u = true := by
    refine List.forall_mem_cons.mpr ⟨sameType_refl _, List.forall_mem_map.mpr fun u hu => ?_⟩
    have plains := sameType_iff.mp (alike u hu)
    rw [sameType_bare]
    exact sameType_iff.mpr plains
  refine ⟨count, arity, ?_, ?_, rfl⟩
  · rw [flat]
    exact sound.search_of_same (fun _ _ => joinColumn_of_agreed) arity fits alike
  · have agree : agreed? (named [] name params :: others.map bare) =
        some (.named [] name params) := agreed?_eq_some.mpr ⟨rfl, alike⟩
    exact joinBy_eq_ok.mpr (flat ▸ .agreed agree)

/-- A `@kept List<@inner Int>` and a `List<Int>`. -/
def listsOfInt : List TypeExpr :=
  [.named [⟨"kept", []⟩] "List" [.named [⟨"inner", []⟩] "Int" []],
    .named [] "List" [.named [] "Int" []]]

/-- A raw `@kept Map` and a raw `Map`. -/
def rawMaps : List TypeExpr := [.named [⟨"kept", []⟩] "Map" [], .named [] "Map" []]

/-- The lists come to a `List<@inner Int>` either way. The search writes the parameters of the raw
maps open, and the join leaves them out. -/
theorem search_of_agreeing_lists :
    builtin.extend [] = .ok builtin ∧ builtin.declares builtin.top = false ∧
      (∀ types ∈ [listsOfInt, rawMaps], types.Pairwise (fun t u => t.sameType u = true) ∧
        ∀ t ∈ types, builtin.check t = .ok ()) ∧
      (builtin.searchPlan (flattenAll listsOfInt) >>= JoinPlan.resolve (builtin.joinColumn 0)) =
        .ok (.named [] "List" [.named [⟨"inner", []⟩] "Int" []]) ∧
      builtin.joinWithin listsOfInt 0 =
        .ok (.named [] "List" [.named [⟨"inner", []⟩] "Int" []]) ∧
      (builtin.searchPlan (flattenAll rawMaps) >>= JoinPlan.resolve (builtin.joinColumn 0)) =
        .ok (.named [] "Map" [.wildcard [], .wildcard []]) ∧
      builtin.joinWithin rawMaps 0 = .ok (.named [] "Map" []) := by
  have lists : listsOfInt.Pairwise fun t u => t.sameType u = true := by decide
  have maps : rawMaps.Pairwise fun t u => t.sameType u = true := by decide
  have checkedLists : ∀ t ∈ listsOfInt, builtin.check t = .ok () := by decide +kernel
  have checkedMaps : ∀ t ∈ rawMaps, builtin.check t = .ok () := by decide +kernel
  have pair : builtin.arity "Map" = .ok 2 := by decide +kernel
  obtain ⟨_, _, list, list', _⟩ :=
    search_of_agreeing builtin_accepted builtin_sound.topFree lists checkedLists 0
  obtain ⟨count, arity, map, map', _⟩ :=
    search_of_agreeing builtin_accepted builtin_sound.topFree maps checkedMaps 0
  cases pair.symm.trans arity
  refine ⟨builtin_accepted, builtin_sound.topFree, ?_, list, list', map, map'⟩
  exact List.forall_mem_cons.mpr
    ⟨⟨lists, checkedLists⟩, List.forall_mem_singleton.mpr ⟨maps, checkedMaps⟩⟩

end Overload.Hierarchy
