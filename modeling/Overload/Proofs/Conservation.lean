import Mathlib.Data.List.Find
import Overload.Proofs.CheckedJoin
import Overload.Proofs.NameOrder

/-!
Extending a hierarchy changes nothing that it said before. Its declarations mention known names and
their own variables only, so a search that starts from known names never meets a new one, not even
where a new type has the name of a variable.
-/
namespace Overload

/-- A chain that starts inside a set of names, where each step stays inside, is one of other steps
that do the same there. -/
theorem transGen_of_steps {α : Type} {R S : α → α → Prop} {P : α → Prop}
    (step : ∀ a b, P a → R a b → S a b ∧ P b) {a b : α} (start : P a)
    (chain : Relation.TransGen R a b) : Relation.TransGen S a b := by
  suffices inside : Relation.TransGen S a b ∧ P b from inside.1
  induction chain with
  | single e =>
      obtain ⟨e, within⟩ := step _ _ start e
      exact ⟨.single e, within⟩
  | tail _ e ih =>
      obtain ⟨e, within⟩ := step _ _ ih.2 e
      exact ⟨ih.1.tail e, within⟩

namespace Hierarchy

open Relation TypeExpr

/-- Every name in the type is known. -/
def NamesWithin (h : Hierarchy) (t : TypeExpr) : Prop :=
  ∀ u ∈ t.nodes, ∀ n, u.name? = some n → h.contains n = true

theorem namesWithin_iff {h : Hierarchy} {t : TypeExpr} :
    h.NamesWithin t ↔
      (∀ n, t.name? = some n → h.contains n = true) ∧ ∀ c ∈ t.children, h.NamesWithin c :=
  forall_nodes

theorem namesWithin_wildcard (h : Hierarchy) (as : List Annotation) :
    h.NamesWithin (.wildcard as) :=
  namesWithin_iff.mpr ⟨nofun, nofun⟩

theorem namesWithin_named {h : Hierarchy} {as : List Annotation} {name : String}
    {params : List TypeExpr} : h.NamesWithin (.named as name params) ↔
      h.contains name = true ∧ ∀ p ∈ params, h.NamesWithin p := by
  rw [namesWithin_iff]
  simp only [name?, Option.some.injEq, forall_eq', children]

theorem contains_of_get? {h : Hierarchy} {name : String} {d : Declaration}
    (found : h.get? name = some d) : h.contains name = true := by
  rw [contains, declares_iff_get?.mpr ⟨d, found⟩, Bool.or_true]

theorem contains_of_arity {h : Hierarchy} {name : String} {n : Nat}
    (arity : h.arity name = .ok n) : h.contains name = true := by
  by_cases top : name = h.top
  · exact top ▸ h.contains_top
  · rw [Hierarchy.arity, if_neg top] at arity
    obtain ⟨d, found, _⟩ := bind_eq_ok.mp arity
    exact contains_of_get? (declaration_eq_ok.mp found)

theorem namesWithin_of_check {h : Hierarchy} {t : TypeExpr} (ok : h.check t = .ok ()) :
    h.NamesWithin t := by
  intro u hu n named
  have rooted := check_eq_ok.mp ok u hu
  cases u with
  | named as name params =>
      cases named
      obtain ⟨_, arity, _⟩ := rooted
      exact contains_of_arity arity
  | wildcard as => cases named
  | union as members => cases named

theorem NamesWithin.bare {h : Hierarchy} {t : TypeExpr} (within : h.NamesWithin t) :
    h.NamesWithin t.bare := by
  obtain ⟨own, below⟩ := namesWithin_iff.mp within
  refine namesWithin_iff.mpr ⟨?_, ?_⟩
  · rwa [name?_bare]
  · rwa [TypeExpr.bare, children_setAnnotations]

/-- Variables give way to the arguments, and the names that are left are known. -/
theorem namesWithin_substitute {h : Hierarchy} {d : Declaration} {args : List TypeExpr}
    (given : ∀ a ∈ args, h.NamesWithin a) {p : TypeExpr}
    (valid : ∀ u ∈ p.nodes, IsVariable d u ∨ h.Known u) :
    h.NamesWithin (p.substitute d.params args) := by
  induction p using induct with
  | wildcard as => exact h.namesWithin_wildcard as
  | union as members _ => exact (valid _ (mem_nodes_self _)).elim False.elim False.elim
  | named as name params ih =>
      obtain free | ⟨rfl, i, index⟩ := stays_or_bound d.params name params
      · have known : h.contains name = true :=
          (valid _ (mem_nodes_self _)).resolve_left fun bound => free bound.1 bound.2
        rw [substitute_named free]
        refine namesWithin_named.mpr ⟨known, fun r hr => ?_⟩
        obtain ⟨p, hp, rfl⟩ := List.mem_map.mp hr
        apply ih p hp
        intro u hu
        exact valid u (List.mem_cons_of_mem _ (mem_nodesAll.mpr ⟨p, hp, hu⟩))
      · rw [substitute_variable index]
        exact argument_of_forall (h.namesWithin_wildcard []) given i

/-- What stands in a supertype, at its root and below. -/
theorem known_of_validateSupertype {h : Hierarchy} {d : Declaration} {t : TypeExpr}
    (ok : h.validateSupertype d t = .ok ()) :
    h.Known t ∧ ∀ u ∈ t.nodes, IsVariable d u ∨ h.Known u := by
  rw [← validateParam_eq_ok]
  cases t with
  | wildcard as => simp [validateSupertype] at ok
  | union as members => simp [validateSupertype] at ok
  | named as name params =>
      simp only [validateSupertype] at ok
      split at ok
      · cases ok
      · rename_i free
        split at ok
        · rename_i contained
          split at ok
          · cases ok
          · rw [validateParam, if_neg free, if_pos contained]
            exact ⟨contained, ok⟩
        · cases ok

/-- The second hierarchy has all declarations of the first, which is valid. -/
structure Conserves (h h' : Hierarchy) : Prop where
  valid : h.validate = .ok ()
  top : h'.top = h.top
  get : ∀ n, h.contains n = true → h'.get? n = h.get? n
  size : h.declarations.length ≤ h'.declarations.length

theorem conserves_of_extend {h h' : Hierarchy} {ds : List Declaration}
    (valid : h.validate = .ok ()) (ok : h.extend ds = .ok h') : h.Conserves h' := by
  obtain ⟨names, rfl⟩ := declared_eq_ok.mp (extend_eq_ok.mp ok).1
  exact ⟨valid, top_including h ds, fun _ known => names.get?_including known,
    by simp [names.adds.perm.length_eq]⟩

namespace Conserves

variable {h h' : Hierarchy} (kept : h.Conserves h')
include kept

theorem supertypes {n : String} {d : Declaration} (found : h.get? n = some d) :
    ∀ t ∈ d.supertypes, h.Known t ∧ ∀ u ∈ t.nodes, IsVariable d u ∨ h.Known u :=
  fun t ht => known_of_validateSupertype
    ((validate_eq_ok.mp kept.valid).1 d (mem_of_get? found) t ht)

theorem topType : h'.topType = h.topType := by rw [Hierarchy.topType, Hierarchy.topType, kept.top]

theorem declaration {n : String} (known : h.contains n = true) :
    h'.declaration n = h.declaration n := by
  rw [Hierarchy.declaration, Hierarchy.declaration, kept.get n known]

theorem arity {n : String} (known : h.contains n = true) : h'.arity n = h.arity n := by
  rw [Hierarchy.arity, Hierarchy.arity, kept.top, kept.declaration known]

theorem check {t : TypeExpr} (ok : h.check t = .ok ()) : h'.check t = .ok () := by
  apply check_eq_ok.mpr
  intro u hu
  have rooted := check_eq_ok.mp ok u hu
  cases u with
  | named as name params =>
      obtain ⟨n, arity, fits⟩ := rooted
      exact ⟨n, (kept.arity (contains_of_arity arity)).trans arity, fits⟩
  | wildcard as => trivial
  | union as members => trivial

theorem isContentFree {t : TypeExpr} (known : ∀ n, t.name? = some n → h.contains n = true) :
    h'.isContentFree t = h.isContentFree t := by
  cases t with
  | named as name params =>
      rw [Hierarchy.isContentFree, Hierarchy.isContentFree, kept.top,
        kept.get name (known name rfl)]
  | wildcard as => rfl
  | union as members => rfl

theorem contains_of_extends {a b : String} (e : h.Extends a b) : h.contains b = true := by
  obtain ⟨d, found, t, ht, named⟩ := extends_iff.mp e
  have known := (kept.supertypes found t ht).1
  cases t with
  | named as name params =>
      cases named
      exact known
  | wildcard as => cases named
  | union as members => cases named

theorem extends_iff_extends {a b : String} (known : h.contains a = true) :
    h'.Extends a b ↔ h.Extends a b := by
  rw [Extends, Extends, supernames, supernames, kept.get a known]

theorem transGen_iff {a b : String} (known : h.contains a = true) :
    TransGen h'.Extends a b ↔ TransGen h.Extends a b := by
  constructor
  · refine transGen_of_steps (P := fun n => h.contains n = true) (fun a b known e => ?_) known
    have e := (kept.extends_iff_extends known).mp e
    exact ⟨e, kept.contains_of_extends e⟩
  · refine transGen_of_steps (P := fun n => h.contains n = true) (fun a b known e => ?_) known
    exact ⟨(kept.extends_iff_extends known).mpr e, kept.contains_of_extends e⟩

theorem isSubtypeName {a : String} (known : h.contains a = true) (b : String) :
    h'.isSubtypeName a b = h.isSubtypeName a b := by
  rw [Bool.eq_iff_iff, isSubtypeName_iff, isSubtypeName_iff, kept.top, kept.transGen_iff known]

theorem passed : h.Passed h.NamesWithin where
  top := namesWithin_named.mpr ⟨h.contains_top, nofun⟩
  bare _ within := within.bare
  above {_ _ params d args} within found _ given := by
    have inside := forall_mem_instantiate (h.namesWithin_wildcard []) given
      (namesWithin_named.mp within).2
    refine ⟨namesWithin_named.mpr ⟨contains_of_get? found, inside⟩, fun u hu => ?_⟩
    obtain ⟨s, hs, rfl⟩ := List.mem_map.mp hu
    exact namesWithin_substitute inside (kept.supertypes found s hs).2
  opened := h.namesWithin_wildcard []
  below _ within := (namesWithin_iff.mp within).2
  ancestor within _ each := namesWithin_named.mpr ⟨(namesWithin_named.mp within).1, each⟩

/-- The rounds that the larger hierarchy allows beyond those of the smaller one are not used. -/
theorem lineageOf {rounds : Nat} (more : Nat) {seen : List String} {queue : List TypeExpr}
    (within : ∀ t ∈ queue, h.NamesWithin t) (distinct : seen.Nodup)
    (declared : ∀ n ∈ seen, h.declares n = true)
    (room : rounds + seen.length = h.declarations.length + 1) :
    h'.lineageOf (rounds + more) seen queue = h.lineageOf rounds seen queue := by
  induction rounds generalizing seen queue with
  | zero =>
      have := length_le_declarations distinct declared
      omega
  | succ rounds ih =>
      have passes : h'.passesOver seen = h.passesOver seen := by
        funext t
        rw [passesOver, passesOver, kept.top]
      rw [Nat.succ_add, Hierarchy.lineageOf, Hierarchy.lineageOf, passes]
      split
      · rename_i as name params waiting dropped
        obtain ⟨passed, rfl, _, new⟩ := eq_append_of_dropWhile dropped
        have front : h.NamesWithin (.named as name params) := within _ (by simp)
        rw [kept.declaration (namesWithin_named.mp front).1]
        cases found : h.declaration name with
        | error e => rfl
        | ok d =>
            have found := declaration_eq_ok.mp found
            cases given : d.instantiate params with
            | error e => simp only [bind, Except.bind, given]
            | ok args =>
                have other : name ≠ h.top ∧ name ∉ seen := by
                  rw [← not_or, ← passesOver_named, new]
                  exact Bool.false_ne_true
                have supertypes := (kept.passed.above front found other.1 given).2
                have next : ∀ t ∈ waiting ++ d.supertypesAt args, h.NamesWithin t := by
                  intro t ht
                  obtain waits | above := List.mem_append.mp ht
                  · exact within t (by simp [waits])
                  · exact supertypes t above
                simp only [bind, Except.bind, given]
                rw [ih next (List.nodup_cons.mpr ⟨other.2, distinct⟩)
                  (List.forall_mem_cons.mpr ⟨declares_iff_get?.mpr ⟨d, found⟩, declared⟩)
                  (by rw [List.length_cons]; omega)]
      · rfl

theorem lineage {t : TypeExpr} (within : h.NamesWithin t) : h'.lineage t = h.lineage t := by
  obtain ⟨more, size⟩ := Nat.exists_eq_add_of_le kept.size
  have rounds : h'.declarations.length + 1 = h.declarations.length + 1 + more := by omega
  have front : ∀ u ∈ [t.bare], h.NamesWithin u := List.forall_mem_singleton.mpr within.bare
  rw [Hierarchy.lineage, Hierarchy.lineage, kept.topType, rounds,
    kept.lineageOf more front List.nodup_nil (by simp) (by simp)]

theorem minimalEntries {shared : List TypeExpr}
    (known : ∀ e ∈ shared, h.contains e.erasedName = true) :
    h'.minimalEntries shared = h.minimalEntries shared := by
  refine List.filter_congr fun t _ => congrArg not ?_
  rw [Bool.eq_iff_iff, List.any_eq_true, List.any_eq_true]
  refine exists_congr fun u => and_congr_right fun hu => ?_
  rw [kept.isSubtypeName (known u hu)]

theorem chooseEntry? {minimal : List TypeExpr} (within : ∀ e ∈ minimal, h.NamesWithin e) :
    h'.chooseEntry? minimal = h.chooseEntry? minimal := by
  have free : ∀ e ∈ minimal, (!h'.isContentFree e) = !h.isContentFree e := fun e he =>
    congrArg not (kept.isContentFree (namesWithin_iff.mp (within e he)).1)
  rw [Hierarchy.chooseEntry?, Hierarchy.chooseEntry?, List.find?_congr free]

theorem nearest? {lineages : List (List TypeExpr)}
    (within : ∀ l ∈ lineages, ∀ e ∈ l, h.NamesWithin e ∧ h.contains e.erasedName = true) :
    h'.nearest? lineages = h.nearest? lineages := by
  have shared : ∀ e ∈ sharedEntries lineages,
      h.NamesWithin e ∧ h.contains e.erasedName = true := by
    intro e he
    obtain ⟨l, hl, he⟩ := exists_lineage_of_shared he
    exact within l hl e he
  rw [Hierarchy.nearest?, Hierarchy.nearest?, kept.minimalEntries fun e he => (shared e he).2]
  exact kept.chooseEntry? fun e he => (shared e (List.mem_of_mem_filter he)).1

theorem entries {types : List TypeExpr} (each : ∀ t ∈ types, h.NamesWithin t)
    {lineages : List (List TypeExpr)} (climbs : h.Lineages types lineages) :
    ∀ l ∈ lineages, ∀ e ∈ l, h.NamesWithin e ∧ h.contains e.erasedName = true := by
  intro l hl e he
  obtain ⟨t, ht, climb⟩ := exists_of_mem_right climbs hl
  have within := kept.passed.lineage climb (each t ht) e he
  obtain ⟨name, args, rfl, _⟩ := lineage_entry climb he
  exact ⟨within, (namesWithin_named.mp within).1⟩

theorem searchPlan {types : List TypeExpr} (each : ∀ t ∈ types, h.NamesWithin t) :
    h'.searchPlan types = h.searchPlan types := by
  rw [Hierarchy.searchPlan, Hierarchy.searchPlan, kept.topType,
    mapM_congr fun t ht => kept.lineage (each t ht)]
  cases climbs : types.mapM h.lineage with
  | error e => rfl
  | ok lineages =>
      have nearest := kept.nearest? (kept.entries each (mapM_eq_ok.mp climbs))
      simp only [bind, Except.bind, nearest]

theorem joinPlan {types : List TypeExpr} (each : ∀ t ∈ types, h.NamesWithin t) :
    h'.joinPlan types = h.joinPlan types := by
  cases types with
  | nil => exact congrArg (Except.ok ∘ JoinPlan.settled) kept.topType
  | cons t ts => simp only [Hierarchy.joinPlan, kept.searchPlan each]

theorem joinBy {onColumn onColumn' : List TypeExpr → Except HierarchyError TypeExpr}
    (agree : ∀ c, (∀ t ∈ c, h.NamesWithin t) → onColumn' c = onColumn c)
    {types : List TypeExpr} (each : ∀ t ∈ types, h.NamesWithin t) :
    h'.joinBy onColumn' types = h.joinBy onColumn types := by
  have flat := kept.passed.flattenAll each
  rw [Hierarchy.joinBy, Hierarchy.joinBy, kept.joinPlan flat]
  cases planned : h.joinPlan (flattenAll types) with
  | error e => rfl
  | ok plan =>
      cases plan with
      | settled t => rfl
      | ancestor name columns =>
          obtain ⟨lineages, climbs, a, _, rfl, rfl⟩ := searched_of_joinPlan planned
          have within := kept.passed.columns flat climbs a
          simp only [bind, Except.bind, JoinPlan.resolve]
          rw [mapM_congr fun c hc => agree c (within c hc)]

theorem joinColumn (depth : Nat) {column : List TypeExpr}
    (each : ∀ t ∈ column, h.NamesWithin t) :
    h'.joinColumn depth column = h.joinColumn depth column := by
  induction depth generalizing column with
  | zero => rfl
  | succ depth ih =>
      rw [Hierarchy.joinColumn, Hierarchy.joinColumn, kept.joinBy (fun _ inside => ih inside) each]
      cases agreed? column with
      | some t => rfl
      | none =>
          cases joined : h.joinBy (h.joinColumn depth) column with
          | error e => rfl
          | ok j =>
              simp only [bind, Except.bind]
              have within := kept.passed.joinBy each (kept.passed.joinColumn depth) joined
              rw [kept.isContentFree (namesWithin_iff.mp within).1]

theorem joinWithin (depth : Nat) {types : List TypeExpr}
    (each : ∀ t ∈ types, h.NamesWithin t) :
    h'.joinWithin types depth = h.joinWithin types depth :=
  kept.joinBy (fun _ inside => kept.joinColumn depth inside) each

end Conserves

/-- Checked types keep their check, lineages, joins and subtypes when their hierarchy is extended,
even by types that have the names of variables in its declarations. -/
theorem extend_conservative {h h' : Hierarchy} {ds : List Declaration} (obtained : h.Obtained)
    (ok : h.extend ds = .ok h') :
    (∀ t, h.check t = .ok () → h'.check t = .ok () ∧ h'.lineage t = h.lineage t ∧
      h'.isContentFree t = h.isContentFree t) ∧
    (∀ types, (∀ t ∈ types, h.check t = .ok ()) →
      ∀ depth, h'.joinWithin types depth = h.joinWithin types depth) ∧
    ∀ a b, h.contains a = true → h.contains b = true →
      h'.isSubtypeName a b = h.isSubtypeName a b := by
  have kept := conserves_of_extend obtained.regular.valid ok
  refine ⟨fun t checked => ?_, fun types checked depth => ?_, fun a b known _ => ?_⟩
  · have within := namesWithin_of_check checked
    exact ⟨kept.check checked, kept.lineage within,
      kept.isContentFree (namesWithin_iff.mp within).1⟩
  · exact kept.joinWithin depth fun t ht => namesWithin_of_check (checked t ht)
  · exact kept.isSubtypeName known b

/-- A new type `T` is not taken for the variable `T` of the collections. -/
theorem extend_conservative_variable :
    builtin.Obtained ∧ ∃ h', builtin.extend [{ name := "T" }] = .ok h' ∧
      (∀ t ∈ nestedCollections, builtin.check t = .ok ()) ∧
      h'.joinWithin nestedCollections 2 =
        .ok (.named [] "Collection" [.named [] "Collection" [.named [] "Number" []]]) := by
  have obtained : builtin.Obtained := .initial .builtin
  obtain ⟨h', ok⟩ : ∃ h', builtin.extend [{ name := "T" }] = .ok h' :=
    exists_extend_of_accepts (by decide +kernel)
  have checked : ∀ t ∈ nestedCollections, builtin.check t = .ok () := by decide +kernel
  have joins := (extend_conservative obtained ok).2.1 nestedCollections checked 2
  exact ⟨obtained, h', ok, checked, joins.trans joinWithin_nestedCollections⟩

end Hierarchy

end Overload
