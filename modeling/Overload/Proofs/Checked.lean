import Overload.Proofs.Join

/-!
Checked types. In a sound hierarchy a type whose name takes its parameters has a lineage. Where the
types inside supertypes take their parameters too, checking carries over from a type to its lineage
and from the types of a join to the join, which therefore never fails on them.
-/
namespace Overload.Hierarchy

open TypeExpr

theorem checkAll_eq_forM (h : Hierarchy) (ts : List TypeExpr) :
    h.checkAll ts = ts.forM h.check := by
  induction ts with
  | nil => rfl
  | cons t ts ih => rw [checkAll, ih, List.forM]

theorem checkAll_eq_ok {h : Hierarchy} {ts : List TypeExpr} :
    h.checkAll ts = .ok () ↔ ∀ t ∈ ts, h.check t = .ok () := by
  rw [checkAll_eq_forM, forM_eq_ok]

/-- The name is known and is raw or takes the parameters it is given. -/
def Rooted (h : Hierarchy) : TypeExpr → Prop
  | .named _ name params => ∃ n, h.arity name = .ok n ∧ (params = [] ∨ params.length = n)
  | _ => True

theorem check_named {h : Hierarchy} {as : List Annotation} {name : String}
    {params : List TypeExpr} : h.check (.named as name params) = .ok () ↔
      h.Rooted (.named as name params) ∧ ∀ p ∈ params, h.check p = .ok () := by
  rw [check, bind_eq_ok]
  constructor
  · intro given
    obtain ⟨n, arity, ok⟩ := given
    split at ok
    · simp at ok
    · rename_i fits
      refine ⟨⟨n, arity, ?_⟩, checkAll_eq_ok.mp ok⟩
      by_cases raw : params = []
      · exact .inl raw
      · exact .inr (not_not.mp fun differ => fits ⟨raw, differ⟩)
  · intro given
    obtain ⟨⟨n, arity, fits⟩, each⟩ := given
    refine ⟨n, arity, ?_⟩
    rw [if_neg]
    · exact checkAll_eq_ok.mpr each
    · exact fun wrong => fits.elim wrong.1 wrong.2

theorem check_wildcard {h : Hierarchy} {as : List Annotation} :
    h.check (.wildcard as) = .ok () := rfl

theorem check_union {h : Hierarchy} {as : List Annotation} {members : List TypeExpr} :
    h.check (.union as members) = .ok () ↔ ∀ m ∈ members, h.check m = .ok () := by
  rw [check, checkAll_eq_ok]

theorem check_children {h : Hierarchy} {t : TypeExpr} (ok : h.check t = .ok ()) :
    ∀ c ∈ t.children, h.check c = .ok () := by
  cases t with
  | named as name params => exact (check_named.mp ok).2
  | wildcard as => exact nofun
  | union as members => exact check_union.mp ok

/-- A type is checked when each of its nodes is. -/
theorem check_eq_ok {h : Hierarchy} {t : TypeExpr} :
    h.check t = .ok () ↔ ∀ u ∈ t.nodes, h.Rooted u := by
  have all {ts : List TypeExpr}
      (each : ∀ t ∈ ts, h.check t = .ok () ↔ ∀ u ∈ t.nodes, h.Rooted u) :
      (∀ t ∈ ts, h.check t = .ok ()) ↔ ∀ u ∈ nodesAll ts, h.Rooted u := by
    rw [forall₂_congr each]
    simp only [mem_nodesAll]
    exact ⟨fun given u ⟨t, ht, hu⟩ => given t ht u hu, fun given t ht u hu => given u ⟨t, ht, hu⟩⟩
  induction t using induct with
  | wildcard as => simp [check_wildcard, nodes, Rooted]
  | named as name params ih => rw [check_named, nodes, List.forall_mem_cons, all ih]
  | union as members ih =>
      rw [check_union, nodes, List.forall_mem_cons, all ih]
      exact (and_iff_right trivial).symm

theorem check_setAnnotations (h : Hierarchy) (as : List Annotation) (t : TypeExpr) :
    h.check (t.setAnnotations as) = h.check t := by
  cases t <;> rfl

theorem rooted_of_check {h : Hierarchy} {t : TypeExpr} (ok : h.check t = .ok ()) :
    h.Rooted t := by
  cases t with
  | named as name params => exact (check_named.mp ok).1
  | wildcard as => trivial
  | union as members => trivial

theorem check_flattenAll {h : Hierarchy} {types : List TypeExpr}
    (ok : ∀ t ∈ types, h.check t = .ok ()) : ∀ t ∈ flattenAll types, h.check t = .ok () :=
  forall_flattenAll (fun t => (check_setAnnotations h [] t).trans) (fun _ => check_children) ok

theorem exists_arity_of_contains {h : Hierarchy} {name : String}
    (contained : h.contains name = true) : ∃ n, h.arity name = .ok n := by
  by_cases top : name = h.top
  · exact ⟨0, top ▸ h.arity_top⟩
  · have declared : h.declares name = true := by simpa [contains, top] using contained
    obtain ⟨d, found⟩ := declares_iff_get?.mp declared
    exact ⟨_, arity_of_get? found top⟩

/-- A known name stays within its arity when its parameters are replaced one by one. -/
theorem rooted_map {h : Hierarchy} {as : List Annotation} {name : String}
    {params : List TypeExpr} (contained : h.contains name = true)
    (fits : params = [] ∨ h.arity name = .ok params.length) (f : TypeExpr → TypeExpr) :
    h.Rooted (.named as name (params.map f)) := by
  obtain ⟨n, arity⟩ := exists_arity_of_contains contained
  obtain rfl | fits := fits
  · exact ⟨n, arity, .inl rfl⟩
  · exact ⟨params.length, fits, .inr (List.length_map _)⟩

theorem SupertypeOf.rooted {h : Hierarchy} {d : Declaration} {as : List Annotation}
    {name : String} {params : List TypeExpr} (ok : h.SupertypeOf d as name params)
    (f : TypeExpr → TypeExpr) : h.Rooted (.named as name (params.map f)) :=
  rooted_map ok.contained ok.arity f

theorem Sound.rooted_supertypesAt {h : Hierarchy} (sound : h.Sound) {n : String}
    {d : Declaration} (found : h.get? n = some d) (args : List TypeExpr) :
    ∀ u ∈ d.supertypesAt args, h.Rooted u := by
  intro u hu
  obtain ⟨as, name, params, _, ok, rfl⟩ := sound.supertypesAt found hu
  exact ok.rooted _

theorem Rooted.instantiate {h : Hierarchy} {as : List Annotation} {name : String}
    {params : List TypeExpr} (rooted : h.Rooted (.named as name params))
    (other : name ≠ h.top) :
    ∃ d args, h.get? name = some d ∧ d.instantiate params = .ok args := by
  obtain ⟨n, arity, fits⟩ := rooted
  rw [Hierarchy.arity, if_neg other] at arity
  obtain ⟨d, found, same⟩ := bind_eq_ok.mp arity
  cases same
  have found := declaration_eq_ok.mp found
  unfold Declaration.instantiate
  by_cases raw : params = []
  · exact ⟨d, _, found, if_pos raw⟩
  · refine ⟨d, params, found, ?_⟩
    rw [if_neg raw, if_pos (fits.resolve_left raw)]

/-- A search whose queue takes its parameters meets no error. -/
theorem Sound.exists_lineageOf {h : Hierarchy} (sound : h.Sound) (rounds : Nat)
    (seen : List String) {queue : List TypeExpr} (rooted : ∀ t ∈ queue, h.Rooted t) :
    ∃ entries, h.lineageOf rounds seen queue = .ok entries := by
  induction rounds generalizing seen queue with
  | zero => exact ⟨[], rfl⟩
  | succ rounds ih =>
      unfold lineageOf
      split
      · rename_i as name params waiting dropped
        obtain ⟨passed, rfl, _, new⟩ := eq_append_of_dropWhile dropped
        have other : name ≠ h.top := by
          intro top
          rw [passesOver_named.mpr (.inl top)] at new
          exact Bool.false_ne_true new.symm
        have front : h.Rooted (.named as name params) := rooted _ (by simp)
        obtain ⟨d, args, found, given⟩ := front.instantiate other
        have next : ∀ u ∈ waiting ++ d.supertypesAt args, h.Rooted u := by
          intro u hu
          obtain waits | above := List.mem_append.mp hu
          · exact rooted u (by simp [waits])
          · exact sound.rooted_supertypesAt found args u above
        obtain ⟨later, searched⟩ := ih (name :: seen) next
        refine ⟨.named [] name args :: later, ?_⟩
        simp only [declaration, found, given, searched, bind, Except.bind]
      · exact ⟨[], rfl⟩

theorem Sound.exists_lineage {h : Hierarchy} (sound : h.Sound) {t : TypeExpr}
    (rooted : h.Rooted t) : ∃ l, h.lineage t = .ok l := by
  have front : ∀ u ∈ [t.bare], h.Rooted u := by
    intro u hu
    rw [List.mem_singleton.mp hu]
    cases t <;> exact rooted
  obtain ⟨entries, searched⟩ := sound.exists_lineageOf (h.declarations.length + 1) [] front
  unfold lineage
  split
  · exact ⟨_, rfl⟩
  · exact ⟨_, by rw [searched]; rfl⟩

theorem Sound.exists_lineages {h : Hierarchy} (sound : h.Sound) {types : List TypeExpr}
    (rooted : ∀ t ∈ types, h.Rooted t) :
    ∃ lineages, h.Lineages types lineages :=
  exists_lineages_of_each fun t ht => sound.exists_lineage (rooted t ht)

end Overload.Hierarchy
