import Overload.Proofs.Grouping
import Overload.Proofs.JoinAbsorption
import Overload.Proofs.JoinBound

/-!
The join of types with an ancestor of them all among them is that ancestor, at every depth. The
names that they share are those above the ancestor, and each lineage has the ancestor itself for its
entry of that name, so that nothing is left to join in its parameters.
-/
namespace Overload.Hierarchy

open TypeExpr

/-- The top type closes a lineage and is not met on the way. -/
theorem distinct_lineage {h : Hierarchy} {t : TypeExpr} {l : List TypeExpr}
    (climbs : h.lineage t = .ok l) : (l.map erasedName).Nodup := by
  cases named : t.name? with
  | none =>
      rw [lineage, named] at climbs
      cases climbs
      exact List.nodup_singleton _
  | some n =>
      obtain ⟨entries, climb, rfl⟩ := climb_of_lineage named climbs
      rw [List.map_append, List.map_singleton]
      apply List.nodup_append.mpr
      refine ⟨climb.distinct, List.nodup_singleton _, ?_⟩
      intro m met last hlast
      obtain ⟨e, he, rfl⟩ := List.mem_map.mp met
      obtain ⟨name, args, d, rfl, _, _, other, _⟩ := climb.entry he
      rw [List.mem_singleton.mp hlast]
      exact other

theorem entryNamed?_of_mem {h : Hierarchy} {t e : TypeExpr} {l : List TypeExpr}
    (climbs : h.lineage t = .ok l) (he : e ∈ l) : entryNamed? e.erasedName l = some e :=
  (findKey?_eq_some_iff (distinct_lineage climbs)).mpr ⟨he, rfl⟩

/-- A type that is the same as an entry of its own lineage is that entry. -/
theorem bare_eq_of_sameType {h : Hierarchy} {t e : TypeExpr} {l : List TypeExpr}
    (climbs : h.lineage t = .ok l) (he : e ∈ l) (same : t.sameType e = true) : t.bare = e := by
  obtain ⟨name, args, rfl, arity⟩ := lineage_entry climbs he
  cases t with
  | wildcard as => cases same
  | union as members => cases same
  | named as n params =>
      have alike := sameType_iff.mp same
      simp only [plain, plainAll_eq_map, named.injEq, true_and] at alike
      have length := congrArg List.length alike.2
      rw [List.length_map, List.length_map] at length
      rw [← alike.1, ← length] at arity
      obtain ⟨rest, rfl⟩ := lineage_self arity climbs
      have front := entryNamed?_of_mem climbs he
      rw [erasedName_named, ← alike.1, entryNamed?_self] at front
      rw [← alike.1]
      exact Option.some.inj front

theorem param_of_sameType {t u p q : TypeExpr} {i : Nat} (same : t.sameType u = true)
    (left : t.params[i]? = some p) (right : u.params[i]? = some q) : p.sameType q = true := by
  have plains : t.params.map plain = u.params.map plain := by
    rw [← params_plain, ← params_plain, sameType_iff.mp same]
  have place := congrArg (·[i]?) plains
  simp only [List.getElem?_map, left, right, Option.map_some, Option.some.injEq] at place
  exact sameType_iff.mpr place

/-- Where all lineages have the same type for an ancestor, its columns agree on the parameters of
the first one. -/
theorem agreed?_columns {first : List TypeExpr} {others : List (List TypeExpr)} {a e : TypeExpr}
    (front : entryNamed? a.erasedName first = some e)
    (entries : ∀ l ∈ first :: others, ∃ u, entryNamed? a.erasedName l = some u ∧
      e.sameType u = true)
    (length : a.params.length = e.params.length) :
    List.Forall₂ (fun c p => agreed? c = some p) (columns (first :: others) a) e.params := by
  refine List.forall₂_iff_get.mpr ⟨by rw [length_columns, length], fun i _ hi => ?_⟩
  simp only [columns, List.get_eq_getElem, List.getElem_map, List.getElem_range]
  have own : e.params[i]? = some e.params[i] := List.getElem?_eq_getElem hi
  refine agreed?_eq_some.mpr ⟨?_, fun p hp => ?_⟩
  · simp only [List.filterMap_cons, front, own, List.head?_cons]
  · obtain ⟨u, hu, given⟩ := List.mem_filterMap.mp hp
    obtain ⟨l, hl, entry⟩ := List.mem_filterMap.mp hu
    obtain ⟨_, entry', same⟩ := entries l hl
    cases entry.symm.trans entry'
    exact param_of_sameType same own given

/-- The lineage of an entry starts with the entry. -/
theorem Sound.lineage_of_entry {h : Hierarchy} (sound : h.Sound) {t e : TypeExpr}
    {l : List TypeExpr} (climbs : h.lineage t = .ok l) (he : e ∈ l) :
    ∃ rest, h.lineage e = .ok (e :: rest) := by
  obtain ⟨name, args, rfl, arity⟩ := lineage_entry climbs he
  obtain ⟨l', climb⟩ := sound.exists_lineage (t := .named [] name args) ⟨_, arity, .inr rfl⟩
  obtain ⟨rest, rfl⟩ := lineage_self arity climb
  exact ⟨rest, climb⟩

theorem Sound.joined_of_ancestor {h : Hierarchy} (sound : h.Sound)
    {onColumn : List TypeExpr → Except HierarchyError TypeExpr}
    (agreeing : ∀ c p, agreed? c = some p → onColumn c = .ok p) {types : List TypeExpr}
    {a : TypeExpr} (member : a ∈ types) (bare : ∀ t ∈ types, t.bare = t)
    (above : ∀ t ∈ types, ∃ n l, t.name? = some n ∧ h.lineage t = .ok l ∧ a ∈ l) :
    h.Joined onColumn types a := by
  cases agree : agreed? types with
  | some t =>
      obtain ⟨front, all⟩ := agreed?_eq_some.mp agree
      have ht := List.mem_of_head? front
      obtain ⟨_, l, _, climbs, ha⟩ := above t ht
      rw [← bare_eq_of_sameType climbs ha (all a member), bare t ht]
      exact .agreed agree
  | none =>
      have inhabited := List.ne_nil_of_mem member
      have closed : ∀ t ∈ types, t.isWildcard = false := by
        intro t ht
        obtain ⟨n, _, named, _⟩ := above t ht
        obtain ⟨as, params, rfl⟩ := exists_eq_named named
        rfl
      obtain ⟨lineages, climbs⟩ := exists_lineages_of_each fun t ht =>
        (above t ht).elim fun _ found => found.imp fun _ each => each.2.1
      have entries : ∀ l ∈ lineages, entryNamed? a.erasedName l = some a := by
        intro l hl
        obtain ⟨t, ht, climb⟩ := exists_of_mem_right climbs hl
        obtain ⟨_, l', _, climb', ha⟩ := above t ht
        cases climb.symm.trans climb'
        exact entryNamed?_of_mem climb ha
      obtain ⟨_, l, _, climb, ha⟩ := above a member
      obtain ⟨name, args, rfl, arity⟩ := lineage_entry climb ha
      have shared : h.Shared types name := fun t ht =>
        (above t ht).elim fun _ found => found.imp fun _ each =>
          ⟨each.2.1, List.mem_map_of_mem each.2.2⟩
      obtain ⟨b, chosen, rfl, arity'⟩ :=
        exists_nearest_of_member sound climbs member rfl shared
      have length : b.params.length = args.length := Except.ok.inj (arity'.symm.trans arity)
      obtain ⟨first, rest, rfl⟩ : ∃ first rest, lineages = first :: rest := by
        cases climbs with
        | nil => exact absurd rfl inhabited
        | cons _ _ => exact ⟨_, _, rfl⟩
      have agreement := agreed?_columns (a := b) (entries first List.mem_cons_self)
        (fun l hl => ⟨_, entries l hl, sameType_refl _⟩) length
      exact .ancestor inhabited agree closed climbs chosen
        (agreement.imp fun c p => agreeing c p)

/-- The join of a type and one of its ancestors, in either order, is the ancestor, whatever the
depth. -/
theorem join_ancestor {base h : Hierarchy} {ds : List Declaration}
    (accepted : base.extend ds = .ok h) (topFree : h.declares h.top = false)
    {t a : TypeExpr} {n : String} {l : List TypeExpr} (named : t.name? = some n)
    (climbs : h.lineage t = .ok l) (above : a ∈ l) (depth : Nat) :
    h.joinWithin [t, a] depth = .ok a ∧ h.joinWithin [a, t] depth = .ok a := by
  have sound : h.Sound := ⟨validate_of_extend accepted, topFree⟩
  obtain ⟨rest, climb⟩ := sound.lineage_of_entry climbs above
  obtain ⟨name, args, rfl, _⟩ := lineage_entry climbs above
  obtain ⟨as, params, rfl⟩ := exists_eq_named named
  have own : h.lineage (.named [] n params) = .ok l := (lineage_bare h _).trans climbs
  have joined (types : List TypeExpr)
      (pair : ∀ u ∈ types, u = .named [] n params ∨ u = .named [] name args)
      (member : .named [] name args ∈ types) :
      h.Joined (h.joinColumn depth) types (.named [] name args) := by
    refine sound.joined_of_ancestor (fun c p => joinColumn_of_agreed) member ?_ ?_
    · intro u hu
      obtain rfl | rfl := pair u hu <;> rfl
    · intro u hu
      obtain rfl | rfl := pair u hu
      · exact ⟨n, l, rfl, own, above⟩
      · exact ⟨name, _, rfl, climb, List.mem_cons_self⟩
  constructor
  · exact joinBy_eq_ok.mpr (joined [.named [] n params, .named [] name args] (by simp) (by simp))
  · exact joinBy_eq_ok.mpr (joined [.named [] name args, .named [] n params] (by simp) (by simp))

/-- An `@kept ArrayList<@inner Int>`: the annotation inside stays with its collections. -/
def annotatedList : TypeExpr :=
  .named [⟨"kept", []⟩] "ArrayList" [.named [⟨"inner", []⟩] "Int" []]

theorem join_ancestor_annotated :
    builtin.extend [] = .ok builtin ∧ builtin.declares builtin.top = false ∧
      annotatedList.name? = some "ArrayList" ∧
      (∃ l, builtin.lineage annotatedList = .ok l ∧
        .named [] "Collection" [.named [⟨"inner", []⟩] "Int" []] ∈ l) ∧
      builtin.joinWithin
        [annotatedList, .named [] "Collection" [.named [⟨"inner", []⟩] "Int" []]] 0 =
          .ok (.named [] "Collection" [.named [⟨"inner", []⟩] "Int" []]) := by
  have climbs : builtin.lineage annotatedList = .ok
      [.named [] "ArrayList" [.named [⟨"inner", []⟩] "Int" []],
        .named [] "List" [.named [⟨"inner", []⟩] "Int" []], .named [] "Cloneable" [],
        .named [] "Serializable" [], .named [] "Collection" [.named [⟨"inner", []⟩] "Int" []],
        .named [] "Iterable" [.named [⟨"inner", []⟩] "Int" []], .named [] "Object" []] := by cbv
  refine ⟨builtin_accepted, builtin_sound.topFree, rfl, ⟨_, climbs, by simp⟩, ?_⟩
  exact (join_ancestor builtin_accepted builtin_sound.topFree rfl climbs (by simp) 0).1

end Overload.Hierarchy
