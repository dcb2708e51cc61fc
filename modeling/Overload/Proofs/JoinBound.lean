import Overload.Proofs.Join

/-!
A join stands above all that it joins. What standing above means is read off lineages: the type has
an ancestor of the name of the join, and the parameters of the join stand above those of the
ancestor.
-/
namespace Overload.Hierarchy

open TypeExpr

/-- The parameters of a type. A raw name leaves open each parameter that it declares. -/
def openParams (h : Hierarchy) (t : TypeExpr) : List TypeExpr :=
  match t with
  | .named _ name [] =>
      match h.get? name with
      | some d => d.params.map fun _ => .wildcard []
      | none => []
  | _ => t.params

/-- One type stands above another. -/
inductive Covers (h : Hierarchy) : TypeExpr → TypeExpr → Prop
  | wildcard {as : List Annotation} {t : TypeExpr} : Covers h (.wildcard as) t
  | same {j t : TypeExpr} (agree : j.sameType t = true) : Covers h j t
  | union {j : TypeExpr} {as : List Annotation} {members : List TypeExpr}
      (each : ∀ m ∈ members, Covers h j m) : Covers h j (.union as members)
  | ancestor {j t e : TypeExpr} {name : String} {l : List TypeExpr} (named : t.name? = some name)
      (climbs : h.lineage t = .ok l) (entry : e ∈ l) (erased : j.name? = e.name?)
      (params : List.Forall₂ (Covers h) (h.openParams j) e.params) : Covers h j t

theorem openParams_named {h : Hierarchy} (topFree : h.declares h.top = false)
    {as : List Annotation} {name : String} {params : List TypeExpr}
    (arity : h.arity name = .ok params.length) : h.openParams (.named as name params) = params := by
  cases params with
  | cons p ps => rfl
  | nil =>
      simp only [openParams]
      cases found : h.get? name with
      | none => rfl
      | some d =>
          have other : name ≠ h.top := by
            intro top
            rw [← top, declares, found] at topFree
            exact Bool.false_ne_true topFree.symm
          rw [arity_of_get? found other] at arity
          have none : d.params = [] := List.eq_nil_of_length_eq_zero (Except.ok.inj arity)
          simp [none]

theorem lineage_bare (h : Hierarchy) (t : TypeExpr) : h.lineage t.bare = h.lineage t := by
  have again : t.bare.bare = t.bare := by cases t <;> rfl
  unfold lineage
  rw [name?_bare, again]

theorem Covers.of_bare {h : Hierarchy} {j t : TypeExpr} (single : t.isUnion = false)
    (above : h.Covers j t.bare) : h.Covers j t := by
  generalize same : t.bare = u at above
  cases above with
  | wildcard => exact .wildcard
  | same agree =>
      rw [← same, sameType_bare] at agree
      exact .same agree
  | union each => cases t <;> simp_all [bare, setAnnotations, isUnion]
  | ancestor named climbs entry erased params =>
      rw [← same, name?_bare] at named
      rw [← same, lineage_bare] at climbs
      exact .ancestor named climbs entry erased params

theorem Covers.of_flatten {h : Hierarchy} {j : TypeExpr} (u : TypeExpr)
    (each : ∀ t ∈ flatten u, h.Covers j t) : h.Covers j u := by
  induction u using induct with
  | named as name params _ => exact .of_bare rfl (each _ List.mem_cons_self)
  | wildcard as => exact .of_bare rfl (each _ List.mem_cons_self)
  | union as members ih =>
      exact .union fun m hm => ih m hm fun t ht => each t (mem_flattenAll_of_mem hm ht)

theorem params_below_columns {lineages : List (List TypeExpr)} {l : List TypeExpr}
    {a e : TypeExpr} (hl : l ∈ lineages) (he : entryNamed? a.erasedName l = some e)
    (length : e.params.length = a.params.length) :
    List.Forall₂ (fun c p => p ∈ c) (columns lineages a) e.params := by
  refine List.forall₂_iff_get.mpr ⟨by simp [columns, length], fun i _ hi => ?_⟩
  simp only [columns, List.get_eq_getElem, List.getElem_map, List.getElem_range]
  refine List.mem_filterMap.mpr ⟨e, List.mem_filterMap.mpr ⟨l, hl, he⟩, ?_⟩
  exact List.getElem?_eq_getElem hi

/-- The ancestor that a search settles on stands above all, if the joins of columns do. -/
theorem ancestor_covers {h : Hierarchy} (topFree : h.declares h.top = false)
    {onColumn : List TypeExpr → Except HierarchyError TypeExpr}
    (below : ∀ c p, onColumn c = .ok p → ∀ t ∈ c, h.Covers p t)
    {types : List TypeExpr} {lineages : List (List TypeExpr)} {a : TypeExpr}
    {params : List TypeExpr} (climbs : h.Lineages types lineages)
    (chosen : h.nearest? lineages = some a)
    (joined : List.Forall₂ (fun c p => onColumn c = .ok p) (columns lineages a) params)
    {t : TypeExpr} (ht : t ∈ types) {n : String} (named : t.name? = some n) :
    h.Covers (.named [] a.erasedName params) t := by
  have shared := (mem_minimalEntries.mp (mem_of_chosen chosen)).1
  obtain ⟨l₀, hl₀, ha⟩ := exists_lineage_of_shared shared
  obtain ⟨t₀, _, ok₀⟩ := exists_of_mem_right climbs hl₀
  obtain ⟨name, args, rfl, arity⟩ := lineage_entry ok₀ ha
  obtain ⟨l, hl, climb⟩ := exists_of_mem_left climbs ht
  obtain ⟨e, found⟩ := exists_entry_of_shared shared hl
  obtain ⟨he, erased⟩ := entryNamed?_eq_some found
  obtain ⟨name', args', rfl, arity'⟩ := lineage_entry climb he
  cases (show name' = name from erased)
  have length : args'.length = args.length := Except.ok.inj (arity'.symm.trans arity)
  have columns := params_below_columns hl found length
  have above : List.Forall₂ h.Covers params args' :=
    forall₂_of_common (fun c p q join member => below c p join q member) joined columns
  refine .ancestor named climb he rfl ?_
  rwa [erasedName_named, openParams_named topFree (above.length_eq ▸ arity')]

theorem top_covers {h : Hierarchy} (topFree : h.declares h.top = false) {t : TypeExpr}
    {n : String} (named : t.name? = some n) {l : List TypeExpr} (climb : h.lineage t = .ok l) :
    h.Covers h.topType t := by
  have raw : h.openParams h.topType = [] := openParams_named topFree h.arity_top
  refine .ancestor named climb (topType_mem_lineage climb) rfl ?_
  rw [raw]
  exact .nil

theorem joinBy_covers {h : Hierarchy} (topFree : h.declares h.top = false)
    {onColumn : List TypeExpr → Except HierarchyError TypeExpr}
    (below : ∀ c p, onColumn c = .ok p → ∀ t ∈ c, h.Covers p t)
    {types : List TypeExpr} {j : TypeExpr} (ok : h.joinBy onColumn types = .ok j) :
    ∀ t ∈ types, h.Covers j t := by
  have each : ∀ t ∈ flattenAll types, h.Covers j t := by
    cases joinBy_eq_ok.mp ok with
    | nothing none => simp [none]
    | agreed agree => exact fun t ht => .same ((agreed?_eq_some.mp agree).2 t ht)
    | opened differ wild => exact fun t _ => .wildcard
    | ancestor some differ closed climbs chosen joined =>
        intro t ht
        obtain ⟨n, named⟩ := exists_name_of_flattenAll ht (closed t ht)
        exact ancestor_covers topFree below climbs chosen joined ht named
    | unshared some differ closed climbs unchosen =>
        intro t ht
        obtain ⟨n, named⟩ := exists_name_of_flattenAll ht (closed t ht)
        obtain ⟨l, _, climb⟩ := exists_of_mem_left climbs ht
        exact top_covers topFree named climb
  exact fun u hu => .of_flatten u fun t ht => each t (mem_flattenAll_of_mem hu ht)

theorem joinColumn_covers {h : Hierarchy} (topFree : h.declares h.top = false) {depth : Nat}
    {column : List TypeExpr} {p : TypeExpr} (ok : h.joinColumn depth column = .ok p) :
    ∀ t ∈ column, h.Covers p t := by
  induction depth generalizing column p with
  | zero =>
      obtain agree | rfl | ⟨d, next, _⟩ := joinColumn_cases ok
      · exact fun t ht => .same ((agreed?_eq_some.mp agree).2 t ht)
      · exact fun t _ => .wildcard
      · exact absurd next.symm (Nat.succ_ne_zero d)
  | succ depth ih =>
      obtain agree | rfl | ⟨d, next, joined⟩ := joinColumn_cases ok
      · exact fun t ht => .same ((agreed?_eq_some.mp agree).2 t ht)
      · exact fun t _ => .wildcard
      · cases next
        exact joinBy_covers topFree (fun c p ok => ih ok) joined

theorem wildcard_of_joinBy {h : Hierarchy}
    {onColumn : List TypeExpr → Except HierarchyError TypeExpr} {types : List TypeExpr}
    {j : TypeExpr} (ok : h.joinBy onColumn types = .ok j) (wild : j.isWildcard = true) :
    ∃ t ∈ flattenAll types, t.isWildcard = true := by
  cases joinBy_eq_ok.mp ok with
  | nothing none => simp [topType, isWildcard] at wild
  | agreed agree => exact ⟨j, List.mem_of_head? (agreed?_eq_some.mp agree).1, wild⟩
  | opened differ opened => exact opened
  | ancestor some differ closed climbs chosen joined => simp [isWildcard] at wild
  | unshared some differ closed climbs unchosen => simp [topType, isWildcard] at wild

/-- A join stands above every type joined, and is open only if one of the types is. -/
theorem join_upperBound {h : Hierarchy} (topFree : h.declares h.top = false)
    {types : List TypeExpr} {depth : Nat} {j : TypeExpr}
    (joined : h.joinWithin types depth = .ok j) :
    (∀ t ∈ types, h.Covers j t) ∧
      (j.isWildcard = true → ∃ t ∈ flattenAll types, t.isWildcard = true) :=
  ⟨joinBy_covers topFree (fun _ _ ok => joinColumn_covers topFree ok) joined,
    wildcard_of_joinBy joined⟩

theorem join_upperBound_collections :
    builtin.declares builtin.top = false ∧
      builtin.joinWithin nestedCollections 2 =
        .ok (.named [] "Collection" [.named [] "Collection" [.named [] "Number" []]]) ∧
      ∀ t ∈ nestedCollections, builtin.Covers
        (.named [] "Collection" [.named [] "Collection" [.named [] "Number" []]]) t := by
  have above := (join_upperBound builtin_sound.topFree joinWithin_nestedCollections).1
  exact ⟨builtin_sound.topFree, joinWithin_nestedCollections, above⟩

end Overload.Hierarchy
