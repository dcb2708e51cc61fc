import Overload.Proofs.Checked

/-!
Checking carries over from types to their join. It does so where the types inside supertypes take
their parameters as the supertypes themselves do, for then a substitution of checked types for the
variables of a supertype gives a checked type. On checked types a join never fails.
-/
namespace Overload.Hierarchy

open TypeExpr

/-- A name is raw or has the parameters that it takes. -/
def Fits (h : Hierarchy) : TypeExpr → Prop
  | .named _ name params => params = [] ∨ h.arity name = .ok params.length
  | _ => True

/-- The types inside supertypes are raw or have the parameters that they take. -/
def NestedArities (h : Hierarchy) : Prop :=
  ∀ d ∈ h.declarations, ∀ s ∈ d.supertypes, ∀ p ∈ s.params, ∀ u ∈ p.nodes, h.Fits u

instance (h : Hierarchy) : DecidablePred h.Fits
  | .named _ name params =>
      inferInstanceAs (Decidable (params = [] ∨ h.arity name = .ok params.length))
  | .wildcard _ => .isTrue trivial
  | .union _ _ => .isTrue trivial

instance (h : Hierarchy) : Decidable h.NestedArities :=
  inferInstanceAs (Decidable (∀ d ∈ h.declarations, ∀ s ∈ d.supertypes, ∀ p ∈ s.params,
    ∀ u ∈ p.nodes, h.Fits u))

theorem builtin_nestedArities : builtin.NestedArities := by decide +kernel

theorem check_substitute {h : Hierarchy} {d : Declaration} {args : List TypeExpr}
    (given : ∀ a ∈ args, h.check a = .ok ()) {p : TypeExpr}
    (valid : h.validateParam d p = .ok ()) (fits : ∀ u ∈ p.nodes, h.Fits u) :
    h.check (p.substitute d.params args) = .ok () := by
  induction p using induct with
  | wildcard as => exact check_wildcard
  | union as members _ => simp [validateParam] at valid
  | named as name params ih =>
      obtain free | ⟨rfl, i, index⟩ := stays_or_bound d.params name params
      · rw [validateParam, if_neg fun both => free both.1 both.2] at valid
        split at valid
        · rename_i contained
          rw [validateParams_eq_forM, forM_eq_ok] at valid
          rw [substitute_named free]
          refine check_named.mpr ⟨rooted_map contained (fits _ (mem_nodes_self _)) _, ?_⟩
          intro r hr
          obtain ⟨p, hp, rfl⟩ := List.mem_map.mp hr
          refine ih p hp (valid p hp) fun u hu => fits u ?_
          exact List.mem_cons_of_mem _ (mem_nodesAll.mpr ⟨p, hp, hu⟩)
        · cases valid
      · rw [substitute_variable index]
        exact argument_of_forall check_wildcard given i

theorem check_topType (h : Hierarchy) : h.check h.topType = .ok () :=
  check_named.mpr ⟨⟨0, h.arity_top, .inl rfl⟩, by simp⟩

section Preservation

variable {h : Hierarchy} (sound : h.Sound) (nested : h.NestedArities)
include sound nested

theorem check_supertypesAt {n : String} {d : Declaration} (found : h.get? n = some d)
    {args : List TypeExpr} (given : ∀ a ∈ args, h.check a = .ok ()) :
    ∀ u ∈ d.supertypesAt args, h.check u = .ok () := by
  intro u hu
  obtain ⟨as, name, params, hs, ok, rfl⟩ := sound.supertypesAt found hu
  refine check_named.mpr ⟨ok.rooted _, fun r hr => ?_⟩
  obtain ⟨p, hp, rfl⟩ := List.mem_map.mp hr
  exact check_substitute given (ok.params p hp) (nested d (mem_of_get? found) _ hs p hp)

theorem passed_check : h.Passed fun t => h.check t = .ok () where
  top := h.check_topType
  bare t ok := (check_setAnnotations h [] t).trans ok
  above {_ _ params d args} ok found other given := by
    have args_ok := forall_mem_instantiate check_wildcard given (check_named.mp ok).2
    have length := length_of_instantiate given
    exact ⟨check_named.mpr ⟨⟨_, arity_of_get? found other, .inr length⟩, args_ok⟩,
      check_supertypesAt sound nested found args_ok⟩
  opened := check_wildcard
  below _ := check_children
  ancestor {_ args params} ok length each := by
    obtain ⟨n, arity, fits⟩ := (check_named.mp ok).1
    refine check_named.mpr ⟨⟨n, arity, ?_⟩, each⟩
    rwa [← List.length_eq_zero_iff, length, List.length_eq_zero_iff] at fits

theorem check_of_mem_lineage {t : TypeExpr} {l : List TypeExpr} (checked : h.check t = .ok ())
    (climbs : h.lineage t = .ok l) : ∀ e ∈ l, h.check e = .ok () :=
  (passed_check sound nested).lineage climbs checked

/-- The columns of a shared ancestor hold checked types, so that they have joins. -/
theorem exists_joinBy {onColumn : List TypeExpr → Except HierarchyError TypeExpr}
    (total : ∀ c, (∀ t ∈ c, h.check t = .ok ()) → ∃ p, onColumn c = .ok p)
    {types : List TypeExpr} (checked : ∀ t ∈ types, h.check t = .ok ()) :
    ∃ j, h.joinBy onColumn types = .ok j := by
  have each := check_flattenAll checked
  suffices settles : ∃ j, h.Joined onColumn (flattenAll types) j from
    settles.imp fun _ => joinBy_eq_ok.mpr
  by_cases none : flattenAll types = []
  · exact ⟨_, .nothing none⟩
  · cases agree : agreed? (flattenAll types) with
    | some t => exact ⟨t, .agreed agree⟩
    | none =>
        by_cases wild : ∃ t ∈ flattenAll types, t.isWildcard = true
        · exact ⟨_, .opened agree wild⟩
        · have closed : ∀ t ∈ flattenAll types, t.isWildcard = false := by simpa using wild
          obtain ⟨lineages, climbs⟩ := sound.exists_lineages fun t ht => rooted_of_check (each t ht)
          cases chosen : h.nearest? lineages with
          | none => exact ⟨_, .unshared none agree closed climbs chosen⟩
          | some a =>
              have columns := (passed_check sound nested).columns each climbs a
              obtain ⟨params, joined⟩ := exists_mapM_eq_ok fun c hc => total c (columns c hc)
              exact ⟨_, .ancestor none agree closed climbs chosen (mapM_eq_ok.mp joined)⟩

theorem exists_joinColumn (depth : Nat) {column : List TypeExpr}
    (checked : ∀ t ∈ column, h.check t = .ok ()) : ∃ p, h.joinColumn depth column = .ok p := by
  induction depth generalizing column with
  | zero => exact ⟨_, rfl⟩
  | succ depth ih =>
      rw [joinColumn]
      cases agreed? column with
      | some t => exact ⟨t, rfl⟩
      | none =>
          obtain ⟨j, joined⟩ := exists_joinBy sound nested (fun _ ok => ih ok) checked
          exact ⟨_, bind_eq_ok.mpr ⟨j, joined, rfl⟩⟩

theorem exists_joinWithin (depth : Nat) {types : List TypeExpr}
    (checked : ∀ t ∈ types, h.check t = .ok ()) :
    ∃ j, h.joinWithin types depth = .ok j ∧ h.check j = .ok () := by
  obtain ⟨j, joined⟩ :=
    exists_joinBy sound nested (fun _ ok => exists_joinColumn sound nested depth ok) checked
  exact ⟨j, joined, (passed_check sound nested).joinWithin checked joined⟩

end Preservation

end Overload.Hierarchy
