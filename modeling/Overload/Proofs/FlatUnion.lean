import Overload.Proofs.Conservation
import Overload.Proofs.TypeDocument

/-!
Unions are flat, however a type is obtained: no member is a union again, and no two members are the
same type. Only two things could put a union inside of a union. The one that makes unions takes
those among its members apart, and the one that substitutes works on supertypes, which hold none.
-/
namespace Overload

namespace TypeExpr

/-- A union with members that are different types and no unions. -/
def FlatNode : TypeExpr → Prop
  | union _ members => (∀ m ∈ members, m.isUnion = false) ∧ Distinct members
  | _ => True

def Flat (t : TypeExpr) : Prop := ∀ u ∈ t.nodes, u.FlatNode

theorem flat_iff {t : TypeExpr} : t.Flat ↔ t.FlatNode ∧ ∀ c ∈ t.children, c.Flat := forall_nodes

theorem flat_named {as : List Annotation} {name : String} {params : List TypeExpr} :
    (named as name params).Flat ↔ ∀ p ∈ params, p.Flat :=
  flat_iff.trans (and_iff_right trivial)

theorem flat_wildcard (as : List Annotation) : (wildcard as).Flat := flat_iff.mpr ⟨trivial, nofun⟩

theorem Flat.child {t c : TypeExpr} (flat : t.Flat) (below : c ∈ t.children) : c.Flat :=
  (flat_iff.mp flat).2 c below

theorem flat_setAnnotations {as : List Annotation} {t : TypeExpr} :
    (t.setAnnotations as).Flat ↔ t.Flat := by
  rw [flat_iff, flat_iff, children_setAnnotations]
  cases t <;> exact Iff.rfl

theorem flat_of_single {t : TypeExpr} (single : ∀ u ∈ t.nodes, u.isUnion = false) : t.Flat := by
  intro u hu
  have alone := single u hu
  cases u with
  | named as name params => trivial
  | wildcard as => trivial
  | union as members => cases alone

theorem Flat.isUnion_alternative {t u : TypeExpr} (flat : t.Flat) (h : u ∈ t.alternatives) :
    u.isUnion = false := by
  cases t with
  | union as members => exact (flat_iff.mp flat).1.1 u h
  | named as name params => exact List.mem_singleton.mp h ▸ rfl
  | wildcard as => exact List.mem_singleton.mp h ▸ rfl

theorem flat_unionOf {ts : List TypeExpr} (each : ∀ t ∈ ts, t.Flat) : (unionOf ts).Flat := by
  have single : ∀ m ∈ (unionOf ts).children, m.isUnion = false := by
    intro m hm
    obtain ⟨t, ht, given⟩ := exists_alternative hm
    exact (each t ht).isUnion_alternative given
  exact flat_iff.mpr ⟨⟨single, distinct_foldl_addType .nil _⟩,
    forall_members (fun _ flat _ => flat.child) each⟩

theorem flat_substitute {vars : List String} {args : List TypeExpr}
    (given : ∀ a ∈ args, a.Flat) {t : TypeExpr} (single : ∀ u ∈ t.nodes, u.isUnion = false) :
    (t.substitute vars args).Flat := by
  induction t using induct with
  | wildcard as => exact flat_wildcard as
  | union as members _ => cases single _ (mem_nodes_self _)
  | named as name params ih =>
      obtain free | ⟨rfl, i, index⟩ := stays_or_bound vars name params
      · rw [substitute_named free, flat_named]
        refine List.forall_mem_map.mpr fun p hp => ih p hp fun u hu => ?_
        exact single u (List.mem_cons_of_mem _ (mem_nodesAll.mpr ⟨p, hp, hu⟩))
      · rw [substitute_variable index]
        exact argument_of_forall (flat_wildcard []) given i

end TypeExpr

namespace Hierarchy

open TypeExpr

theorem isUnion_of_supertype {h : Hierarchy} (valid : h.validate = .ok ()) {d : Declaration}
    (declared : d ∈ h.declarations) {t : TypeExpr} (above : t ∈ d.supertypes) :
    ∀ u ∈ t.nodes, u.isUnion = false := by
  intro u hu
  have ok := (validate_eq_ok.mp valid).1 d declared t above
  obtain variable_ | known := (known_of_validateSupertype ok).2 u hu
  · cases u with
    | named as name params => rfl
    | wildcard as => rfl
    | union as members => exact variable_.elim
  · cases u with
    | named as name params => rfl
    | wildcard as => rfl
    | union as members => exact known.elim

theorem passed_flat {h : Hierarchy} (valid : h.validate = .ok ()) : h.Passed Flat where
  top := flat_named.mpr nofun
  bare _ flat := flat_setAnnotations.mpr flat
  above flat found _ given := by
    have args_flat := forall_mem_instantiate (flat_wildcard []) given (flat_named.mp flat)
    refine ⟨flat_named.mpr args_flat, fun u hu => ?_⟩
    obtain ⟨s, hs, rfl⟩ := List.mem_map.mp hu
    exact flat_substitute args_flat (isUnion_of_supertype valid (mem_of_get? found) hs)
  opened := flat_wildcard []
  below _ flat _ := flat.child
  ancestor _ _ := flat_named.mpr

end Hierarchy

namespace TypeExpr

open Document

/-- How a type is obtained: by the constructors, by other annotations, by taking a type apart, from
a text or a document, and from a hierarchy. -/
inductive Obtained : TypeExpr → Prop
  | named (name : String) {params : List TypeExpr} (each : ∀ p ∈ params, Obtained p) :
      Obtained (.named [] name params)
  | wildcard : Obtained (.wildcard [])
  | unionOf {members : List TypeExpr} (each : ∀ m ∈ members, Obtained m) :
      Obtained (unionOf members)
  | annotate {t : TypeExpr} (as : List Annotation) (obtained : Obtained t) :
      Obtained (t.annotate as)
  | bare {t : TypeExpr} (obtained : Obtained t) : Obtained t.bare
  | child {t c : TypeExpr} (obtained : Obtained t) (below : c ∈ t.children) : Obtained c
  | parsed {text : String} {t : TypeExpr} (ok : parse text = .ok t) : Obtained t
  | read {t : TypeExpr} (obtained : decoder.Obtains t) : Obtained t
  | supertype {h : Hierarchy} {d : Declaration} {t : TypeExpr} (hierarchy : h.Obtained)
      (declared : d ∈ h.declarations) (above : t ∈ d.supertypes) : Obtained t
  | ancestor {h : Hierarchy} {t a : TypeExpr} {lineage : List TypeExpr} (hierarchy : h.Obtained)
      (obtained : Obtained t) (climbs : h.lineage t = .ok lineage) (above : a ∈ lineage) :
      Obtained a
  | joined {h : Hierarchy} {types : List TypeExpr} {depth : Nat} {t : TypeExpr}
      (hierarchy : h.Obtained) (each : ∀ u ∈ types, Obtained u)
      (join : h.joinWithin types depth = .ok t) : Obtained t

theorem Printable.flat {t : TypeExpr} (printable : t.Printable) : t.Flat :=
  flat_of_single fun u hu => (printable u hu).single

open Hierarchy in
theorem Obtained.flat {t : TypeExpr} (obtained : t.Obtained) : t.Flat := by
  induction obtained with
  | named _ _ ih => exact flat_named.mpr ih
  | wildcard => exact flat_wildcard []
  | unionOf _ ih => exact flat_unionOf ih
  | annotate _ _ ih => exact flat_setAnnotations.mpr ih
  | bare _ ih => exact flat_setAnnotations.mpr ih
  | child _ below ih => exact ih.child below
  | parsed ok => exact (built_of_parse ok).2.flat
  | read obtained => exact flat_setAnnotations.mp (documented_of_obtains obtained).bare.flat
  | supertype hierarchy declared above =>
      exact flat_of_single (isUnion_of_supertype hierarchy.regular.valid declared above)
  | ancestor hierarchy _ climbs above ih =>
      exact (passed_flat hierarchy.regular.valid).lineage climbs ih _ above
  | joined hierarchy _ join ih => exact (passed_flat hierarchy.regular.valid).joinWithin ih join

end TypeExpr

end Overload
