import Overload.Proofs.Lineage

/-!
What a join comes to: nothing to join, types that agree, an open type among them, or a search among
their shared ancestors.
-/
namespace Overload.Hierarchy

open TypeExpr

/-- The lineages of types, one for each. -/
abbrev Lineages (h : Hierarchy) (types : List TypeExpr) (lineages : List (List TypeExpr)) : Prop :=
  List.Forall₂ (fun t l => h.lineage t = .ok l) types lineages

theorem exists_lineages_of_each {h : Hierarchy} {types : List TypeExpr}
    (each : ∀ t ∈ types, ∃ l, h.lineage t = .ok l) : ∃ lineages, h.Lineages types lineages :=
  (exists_mapM_eq_ok each).imp fun _ => mapM_eq_ok.mp

/-- The ancestor that a search among lineages settles on. -/
abbrev nearest? (h : Hierarchy) (lineages : List (List TypeExpr)) : Option TypeExpr :=
  h.chooseEntry? (h.minimalEntries (sharedEntries lineages))

/-- What a join of types without unions can come to. -/
inductive Joined (h : Hierarchy) (onColumn : List TypeExpr → Except HierarchyError TypeExpr)
    (types : List TypeExpr) : TypeExpr → Prop
  | nothing (none : types = []) : Joined h onColumn types h.topType
  | agreed {t : TypeExpr} (agree : agreed? types = some t) : Joined h onColumn types t
  | opened (differ : agreed? types = none) (wild : ∃ t ∈ types, t.isWildcard = true) :
      Joined h onColumn types (.wildcard [])
  | ancestor {lineages : List (List TypeExpr)} {a : TypeExpr} {params : List TypeExpr}
      (some : types ≠ []) (differ : agreed? types = none)
      (closed : ∀ t ∈ types, t.isWildcard = false) (climbs : h.Lineages types lineages)
      (chosen : h.nearest? lineages = .some a)
      (joined : List.Forall₂ (fun c p => onColumn c = .ok p) (columns lineages a) params) :
      Joined h onColumn types (.named [] a.erasedName params)
  | unshared {lineages : List (List TypeExpr)} (some : types ≠ []) (differ : agreed? types = none)
      (closed : ∀ t ∈ types, t.isWildcard = false) (climbs : h.Lineages types lineages)
      (unchosen : h.nearest? lineages = none) : Joined h onColumn types h.topType

theorem searchPlan_eq_ok {h : Hierarchy} {types : List TypeExpr} {plan : JoinPlan} :
    h.searchPlan types = .ok plan ↔ ∃ lineages, h.Lineages types lineages ∧
      ((∃ a, h.nearest? lineages = some a ∧
          plan = .ancestor a.erasedName (columns lineages a)) ∨
        h.nearest? lineages = none ∧ plan = .settled h.topType) := by
  unfold searchPlan
  simp only [bind_eq_ok, mapM_eq_ok, nearest?]
  refine exists_congr fun lineages => and_congr_right fun _ => ?_
  cases h.chooseEntry? (h.minimalEntries (sharedEntries lineages)) <;> simp [eq_comm]

theorem resolve_ancestor {onColumn : List TypeExpr → Except HierarchyError TypeExpr}
    {name : String} {columns : List (List TypeExpr)} {j : TypeExpr} :
    (JoinPlan.ancestor name columns).resolve onColumn = .ok j ↔
      ∃ params, List.Forall₂ (fun c p => onColumn c = .ok p) columns params ∧
        j = .named [] name params := by
  simp only [JoinPlan.resolve, bind_eq_ok, mapM_eq_ok, Except.ok.injEq]
  exact exists_congr fun params => and_congr_right fun _ => eq_comm

theorem joinPlan_of_agreed {h : Hierarchy} {types : List TypeExpr} {t : TypeExpr}
    (agree : agreed? types = some t) : h.joinPlan types = .ok (.settled t) := by
  unfold joinPlan
  split
  · simp [agreed?] at agree
  · rw [agree]

theorem joinPlan_of_open {h : Hierarchy} {types : List TypeExpr} (differ : agreed? types = none)
    (wild : ∃ t ∈ types, t.isWildcard = true) :
    h.joinPlan types = .ok (.settled (.wildcard [])) := by
  unfold joinPlan
  split
  · simp at wild
  · rw [differ]
    exact if_pos (by simpa using wild)

theorem joinPlan_of_closed {h : Hierarchy} {types : List TypeExpr} (some : types ≠ [])
    (differ : agreed? types = none) (closed : ∀ t ∈ types, t.isWildcard = false) :
    h.joinPlan types = h.searchPlan types := by
  unfold joinPlan
  split
  · exact absurd rfl some
  · rw [differ]
    exact if_neg (by simpa using closed)

theorem searched_of_joinPlan {h : Hierarchy} {types : List TypeExpr} {name : String}
    {joining : List (List TypeExpr)}
    (planned : h.joinPlan types = .ok (.ancestor name joining)) :
    ∃ lineages, h.Lineages types lineages ∧ ∃ a, h.nearest? lineages = some a ∧
      name = a.erasedName ∧ joining = columns lineages a := by
  have searched : h.searchPlan types = .ok (.ancestor name joining) := by
    unfold joinPlan at planned
    split at planned
    · cases planned
    · split at planned
      · cases planned
      · split at planned
        · cases planned
        · exact planned
  obtain ⟨lineages, climbs, ⟨a, chosen, same⟩ | ⟨_, same⟩⟩ := searchPlan_eq_ok.mp searched
  · cases same
    exact ⟨lineages, climbs, a, chosen, rfl, rfl⟩
  · cases same

theorem joined_of_joinPlan {h : Hierarchy}
    {onColumn : List TypeExpr → Except HierarchyError TypeExpr} {types : List TypeExpr}
    {plan : JoinPlan} {j : TypeExpr} (planned : h.joinPlan types = .ok plan)
    (ok : plan.resolve onColumn = .ok j) : h.Joined onColumn types j := by
  by_cases none : types = []
  · subst none
    cases planned
    cases ok
    exact .nothing rfl
  · cases agree : agreed? types with
    | some t =>
        rw [joinPlan_of_agreed agree] at planned
        cases planned
        cases ok
        exact .agreed agree
    | none =>
        by_cases wild : ∃ t ∈ types, t.isWildcard = true
        · rw [joinPlan_of_open agree wild] at planned
          cases planned
          cases ok
          exact .opened agree wild
        · have closed : ∀ t ∈ types, t.isWildcard = false := by simpa using wild
          rw [joinPlan_of_closed none agree closed, searchPlan_eq_ok] at planned
          obtain ⟨lineages, climbs, ⟨a, chosen, rfl⟩ | ⟨unchosen, rfl⟩⟩ := planned
          · obtain ⟨params, joined, rfl⟩ := resolve_ancestor.mp ok
            exact .ancestor none agree closed climbs chosen joined
          · cases ok
            exact .unshared none agree closed climbs unchosen

theorem Joined.exists_plan {h : Hierarchy}
    {onColumn : List TypeExpr → Except HierarchyError TypeExpr} {types : List TypeExpr}
    {j : TypeExpr} (joined : h.Joined onColumn types j) :
    ∃ plan, h.joinPlan types = .ok plan ∧ plan.resolve onColumn = .ok j := by
  cases joined with
  | nothing none => exact ⟨.settled h.topType, by rw [none, joinPlan], rfl⟩
  | agreed agree => exact ⟨_, joinPlan_of_agreed agree, rfl⟩
  | opened differ wild => exact ⟨_, joinPlan_of_open differ wild, rfl⟩
  | ancestor some differ closed climbs chosen joined =>
      refine ⟨_, ?_, resolve_ancestor.mpr ⟨_, joined, rfl⟩⟩
      rw [joinPlan_of_closed some differ closed, searchPlan_eq_ok]
      exact ⟨_, climbs, .inl ⟨_, chosen, rfl⟩⟩
  | unshared some differ closed climbs unchosen =>
      refine ⟨.settled h.topType, ?_, rfl⟩
      rw [joinPlan_of_closed some differ closed, searchPlan_eq_ok]
      exact ⟨_, climbs, .inr ⟨unchosen, rfl⟩⟩

theorem joinBy_eq_ok {h : Hierarchy}
    {onColumn : List TypeExpr → Except HierarchyError TypeExpr} {types : List TypeExpr}
    {j : TypeExpr} : h.joinBy onColumn types = .ok j ↔ h.Joined onColumn (flattenAll types) j := by
  rw [joinBy, bind_eq_ok]
  constructor
  · intro planned
    obtain ⟨plan, planned, ok⟩ := planned
    exact joined_of_joinPlan planned ok
  · exact Joined.exists_plan

/-- A column gives what it agrees on, an open parameter, or the join of its types. -/
theorem joinColumn_cases {h : Hierarchy} {depth : Nat} {column : List TypeExpr} {p : TypeExpr}
    (ok : h.joinColumn depth column = .ok p) :
    agreed? column = some p ∨ p = .wildcard [] ∨
      ∃ d, depth = d + 1 ∧ h.joinBy (h.joinColumn d) column = .ok p := by
  cases agree : agreed? column with
  | some t => cases depth <;> simp_all [joinColumn]
  | none =>
      cases depth with
      | zero =>
          simp only [joinColumn, agree, Option.getD_none, Except.ok.injEq] at ok
          exact .inr (.inl ok.symm)
      | succ d =>
          simp only [joinColumn, agree] at ok
          obtain ⟨j, joined, same⟩ := bind_eq_ok.mp ok
          cases same
          split
          · exact .inr (.inl rfl)
          · exact .inr (.inr ⟨d, rfl, joined⟩)

/-- A join is no union and has no annotations of its own. -/
theorem joinBy_normal {h : Hierarchy}
    {onColumn : List TypeExpr → Except HierarchyError TypeExpr} {types : List TypeExpr}
    {j : TypeExpr} (ok : h.joinBy onColumn types = .ok j) :
    j.isUnion = false ∧ j.annotations = [] := by
  cases joinBy_eq_ok.mp ok with
  | nothing none => exact ⟨rfl, rfl⟩
  | agreed agree =>
      obtain ⟨u, _, hj⟩ := mem_flattenAll.mp (List.mem_of_head? (agreed?_eq_some.mp agree).1)
      exact flatten_normal hj
  | opened differ wild => exact ⟨rfl, rfl⟩
  | ancestor some differ closed climbs chosen joined => exact ⟨rfl, rfl⟩
  | unshared some differ closed climbs unchosen => exact ⟨rfl, rfl⟩

theorem entryNamed?_eq_some {name : String} {l : List TypeExpr} {e : TypeExpr}
    (found : entryNamed? name l = some e) : e ∈ l ∧ e.erasedName = name :=
  ⟨List.mem_of_find?_eq_some found, by simpa using List.find?_some found⟩

theorem entryNamed?_isSome {name : String} {l : List TypeExpr} :
    (entryNamed? name l).isSome = true ↔ name ∈ l.map erasedName := by
  simp [entryNamed?, findKey?, List.find?_isSome]

theorem mem_sharedEntries {lineages : List (List TypeExpr)} {first : List TypeExpr}
    {e : TypeExpr} : e ∈ sharedEntries (first :: lineages) ↔
      e ∈ first ∧ ∀ l ∈ lineages, e.erasedName ∈ l.map erasedName := by
  simp only [sharedEntries, List.mem_filter, List.all_eq_true, entryNamed?_isSome]

theorem exists_lineage_of_shared {lineages : List (List TypeExpr)} {e : TypeExpr}
    (shared : e ∈ sharedEntries lineages) : ∃ l ∈ lineages, e ∈ l := by
  cases lineages with
  | nil => simp [sharedEntries] at shared
  | cons first others => exact ⟨first, List.mem_cons_self, (mem_sharedEntries.mp shared).1⟩

theorem exists_entry_of_shared {lineages : List (List TypeExpr)} {a : TypeExpr}
    (shared : a ∈ sharedEntries lineages) {l : List TypeExpr} (hl : l ∈ lineages) :
    ∃ e, entryNamed? a.erasedName l = some e := by
  rw [← Option.isSome_iff_exists, entryNamed?_isSome]
  cases lineages with
  | nil => simp at hl
  | cons first others =>
      obtain ⟨ha, all⟩ := mem_sharedEntries.mp shared
      obtain rfl | hl := List.mem_cons.mp hl
      · exact List.mem_map_of_mem ha
      · exact all l hl

theorem mem_minimalEntries {h : Hierarchy} {shared : List TypeExpr} {e : TypeExpr} :
    e ∈ h.minimalEntries shared ↔ e ∈ shared ∧ ∀ u ∈ shared,
      h.isSubtypeName u.erasedName e.erasedName = true → u.erasedName = e.erasedName := by
  simp only [minimalEntries, List.mem_filter, Bool.not_eq_true', List.any_eq_false]
  refine and_congr_right fun _ => forall₂_congr fun u _ => ?_
  cases h.isSubtypeName u.erasedName e.erasedName <;> simp

theorem mem_of_chosen {h : Hierarchy} {minimal : List TypeExpr} {e : TypeExpr}
    (chosen : h.chooseEntry? minimal = some e) : e ∈ minimal := by
  unfold chooseEntry? at chosen
  rw [Option.or_eq_some_iff] at chosen
  obtain found | ⟨_, front⟩ := chosen
  · exact List.mem_of_find?_eq_some found
  · exact List.mem_of_head? front

theorem exists_entry_of_mem_column {lineages : List (List TypeExpr)} {a t : TypeExpr}
    {c : List TypeExpr} (hc : c ∈ columns lineages a) (ht : t ∈ c) :
    ∃ l ∈ lineages, ∃ e ∈ l, t ∈ e.params := by
  obtain ⟨i, _, rfl⟩ := List.mem_map.mp hc
  obtain ⟨e, he, found⟩ := List.mem_filterMap.mp ht
  obtain ⟨l, hl, entry⟩ := List.mem_filterMap.mp he
  exact ⟨l, hl, e, (entryNamed?_eq_some entry).1, List.mem_of_getElem? found⟩

theorem length_columns (lineages : List (List TypeExpr)) (a : TypeExpr) :
    (columns lineages a).length = a.params.length := by
  simp [columns]

/-- What passes from types to their lineages, and from there to a join. -/
structure Passed (h : Hierarchy) (P : TypeExpr → Prop) : Prop extends h.Inherited P where
  opened : P (.wildcard [])
  below : ∀ t, P t → ∀ c ∈ t.children, P c
  ancestor : ∀ {name args params}, P (.named [] name args) → args.length = params.length →
    (∀ p ∈ params, P p) → P (.named [] name params)

namespace Passed

variable {h : Hierarchy} {P : TypeExpr → Prop} (passed : h.Passed P) {types : List TypeExpr}
  (each : ∀ t ∈ types, P t)
include passed each

theorem flattenAll : ∀ t ∈ flattenAll types, P t :=
  forall_flattenAll passed.bare passed.below each

theorem entries {lineages : List (List TypeExpr)} (climbs : h.Lineages types lineages) :
    ∀ l ∈ lineages, ∀ e ∈ l, P e := by
  intro l hl
  obtain ⟨t, ht, climb⟩ := exists_of_mem_right climbs hl
  exact passed.lineage climb (each t ht)

theorem columns {lineages : List (List TypeExpr)} (climbs : h.Lineages types lineages)
    (a : TypeExpr) : ∀ c ∈ columns lineages a, ∀ t ∈ c, P t := by
  intro c hc t ht
  obtain ⟨l, hl, e, he, member⟩ := exists_entry_of_mem_column hc ht
  exact passed.below e (passed.entries each climbs l hl e he) t (mem_children_of_mem_params member)

theorem of_joined {onColumn : List TypeExpr → Except HierarchyError TypeExpr}
    (onPassed : ∀ c p, onColumn c = .ok p → (∀ t ∈ c, P t) → P p) {j : TypeExpr}
    (joined : h.Joined onColumn types j) : P j := by
  cases joined with
  | nothing => exact passed.top
  | agreed agree => exact each j (List.mem_of_head? (agreed?_eq_some.mp agree).1)
  | opened => exact passed.opened
  | unshared => exact passed.top
  | ancestor _ _ _ climbs chosen joined =>
      obtain ⟨l, hl, member⟩ :=
        exists_lineage_of_shared (mem_minimalEntries.mp (mem_of_chosen chosen)).1
      have entry := passed.entries each climbs l hl _ member
      obtain ⟨t, _, climb⟩ := exists_of_mem_right climbs hl
      obtain ⟨name, args, rfl, _⟩ := lineage_entry climb member
      refine passed.ancestor entry ((length_columns _ _).symm.trans joined.length_eq) fun p hp => ?_
      obtain ⟨c, hc, join⟩ := exists_of_mem_right joined hp
      exact onPassed c p join (passed.columns each climbs _ c hc)

theorem joinBy {onColumn : List TypeExpr → Except HierarchyError TypeExpr}
    (onPassed : ∀ c p, onColumn c = .ok p → (∀ t ∈ c, P t) → P p) {j : TypeExpr}
    (ok : h.joinBy onColumn types = .ok j) : P j :=
  passed.of_joined (passed.flattenAll each) onPassed (joinBy_eq_ok.mp ok)

omit each in
theorem joinColumn (depth : Nat) (column : List TypeExpr) (p : TypeExpr)
    (ok : h.joinColumn depth column = .ok p) (each : ∀ t ∈ column, P t) : P p := by
  induction depth generalizing column p with
  | zero =>
      obtain agree | rfl | ⟨_, none, _⟩ := joinColumn_cases ok
      · exact each p (List.mem_of_head? (agreed?_eq_some.mp agree).1)
      · exact passed.opened
      · cases none
  | succ depth ih =>
      obtain agree | rfl | ⟨_, same, ok⟩ := joinColumn_cases ok
      · exact each p (List.mem_of_head? (agreed?_eq_some.mp agree).1)
      · exact passed.opened
      · cases same
        exact passed.joinBy each ih ok

theorem joinWithin {depth : Nat} {j : TypeExpr} (ok : h.joinWithin types depth = .ok j) : P j :=
  passed.joinBy each (passed.joinColumn depth) ok

end Passed

/-- An `ArrayList<List<Int>>` and a `HashSet<Set<Long>>`. In both lineages two markers come before
the collection that they share. -/
def nestedCollections : List TypeExpr :=
  [.named [] "ArrayList" [.named [] "List" [.named [] "Int" []]],
    .named [] "HashSet" [.named [] "Set" [.named [] "Long" []]]]

theorem joinWithin_nestedCollections : builtin.joinWithin nestedCollections 2 =
    .ok (.named [] "Collection" [.named [] "Collection" [.named [] "Number" []]]) := by
  cbv

end Overload.Hierarchy
