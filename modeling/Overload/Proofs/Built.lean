import Overload.Proofs.Grouping
import Overload.Proofs.Join
import Overload.Proofs.Stored
import Overload.Proofs.TypeSet

/-!
Types as a program can build them. The parts of a type are not open to change, so whatever steps
build it, no node has two equal annotations, and the values of an annotation are a table of values.
-/
namespace Overload

namespace Annotation

/-- What can be made of annotations: new ones, and ones with a further value. -/
inductive Built : Annotation → Prop
  | new (name : String) : Built ⟨name, []⟩
  | withValue {a : Annotation} (key : String) {value : Json} (built : Built a)
      (stored : value.Stored) : Built (a.withValue key value)

theorem Built.stored {a : Annotation} (built : Built a) :
    ∀ entry ∈ a.values.entries, entry.2.Stored := by
  induction built with
  | new => exact nofun
  | withValue key _ stored ih =>
      intro entry h
      obtain rfl | h := mem_insertSorted h
      · exact stored
      · exact ih entry h

end Annotation

/-- No two of them are equal. -/
def Different (as : List Annotation) : Prop := as.Pairwise fun a b => (a == b) = false

theorem Different.eraseDups_eq {as : List Annotation} (different : Different as) :
    as.eraseDups = as :=
  eraseDups_of_distinct different

theorem Different.merge {as : List Annotation} (different : Different as) (bs : List Annotation) :
    Different (mergeAnnotations as bs) := by
  refine List.foldlRecOn bs _ different fun merged different b _ => ?_
  split
  · exact different
  · rename_i new
    refine List.pairwise_append.mpr ⟨different, List.pairwise_singleton _ _, fun a ha c hc => ?_⟩
    rw [List.mem_singleton.mp hc]
    cases same : a == b with
    | false => rfl
    | true => exact absurd (List.contains_iff_exists_mem_beq.mpr ⟨a, ha, BEq.symm same⟩) new

theorem mem_mergeAnnotations {a : Annotation} {as bs : List Annotation}
    (h : a ∈ mergeAnnotations as bs) : a ∈ as ∨ a ∈ bs := by
  refine List.foldlRecOn (motive := fun merged => a ∈ merged → a ∈ as ∨ a ∈ bs) bs _ .inl
    (fun merged ih b hb h => ?_) h
  split at h
  · exact ih h
  · obtain h | h := List.mem_append.mp h
    · exact ih h
    · exact .inr (List.mem_singleton.mp h ▸ hb)

namespace TypeExpr

/-- What can be made of types: by the constructors, by other annotations, by taking a type apart,
and by the questions to a hierarchy that are answered with a type. -/
inductive Built : TypeExpr → Prop
  | named (name : String) {params : List TypeExpr} (built : ∀ p ∈ params, Built p) :
      Built (.named [] name params)
  | wildcard : Built (.wildcard [])
  | unionOf {members : List TypeExpr} (built : ∀ m ∈ members, Built m) : Built (unionOf members)
  | annotate {t : TypeExpr} {as : List Annotation} (built : Built t)
      (annotations : ∀ a ∈ as, a.Built) : Built (t.annotate as)
  | bare {t : TypeExpr} (built : Built t) : Built t.bare
  | child {t c : TypeExpr} (built : Built t) (below : c ∈ t.children) : Built c
  | ancestor {h : Hierarchy} {t a : TypeExpr} {lineage : List TypeExpr}
      (declared : ∀ d ∈ h.declarations, ∀ s ∈ d.supertypes, Built s) (built : Built t)
      (climbs : h.lineage t = .ok lineage) (above : a ∈ lineage) : Built a
  | joined {h : Hierarchy} {types : List TypeExpr} {depth : Nat} {t : TypeExpr}
      (declared : ∀ d ∈ h.declarations, ∀ s ∈ d.supertypes, Built s)
      (built : ∀ u ∈ types, Built u) (join : h.joinWithin types depth = .ok t) : Built t

/-- The annotations of every node are different, and built as annotations are. -/
def Lawful (t : TypeExpr) : Prop :=
  ∀ u ∈ t.nodes, Different u.annotations ∧ ∀ a ∈ u.annotations, a.Built

theorem lawful_iff {t : TypeExpr} :
    t.Lawful ↔ (Different t.annotations ∧ ∀ a ∈ t.annotations, a.Built) ∧
      ∀ c ∈ t.children, c.Lawful := forall_nodes

theorem lawful_of_plain {t : TypeExpr} (plain : t.annotations = [])
    (below : ∀ c ∈ t.children, c.Lawful) : t.Lawful := by
  refine lawful_iff.mpr ⟨?_, below⟩
  rw [plain]
  exact ⟨List.Pairwise.nil, nofun⟩

theorem lawful_wildcard : (wildcard []).Lawful := lawful_of_plain rfl nofun

theorem lawful_named {name : String} {params : List TypeExpr} (each : ∀ p ∈ params, p.Lawful) :
    (named [] name params).Lawful := lawful_of_plain rfl each

theorem lawful_topType (h : Hierarchy) : h.topType.Lawful := lawful_named nofun

theorem Lawful.child {t c : TypeExpr} (lawful : t.Lawful) (below : c ∈ t.children) : c.Lawful :=
  (lawful_iff.mp lawful).2 c below

theorem Lawful.annotate {t : TypeExpr} (lawful : t.Lawful) {as : List Annotation}
    (each : ∀ a ∈ as, a.Built) : (t.annotate as).Lawful := by
  obtain ⟨⟨different, own⟩, below⟩ := lawful_iff.mp lawful
  refine lawful_iff.mpr ⟨?_, ?_⟩
  · rw [TypeExpr.annotate, annotations_setAnnotations]
    exact ⟨different.merge as, fun a ha => (mem_mergeAnnotations ha).elim (own a) (each a)⟩
  · rwa [TypeExpr.annotate, children_setAnnotations]

theorem Lawful.bare {t : TypeExpr} (lawful : t.Lawful) : t.bare.Lawful := by
  refine lawful_of_plain (annotations_setAnnotations [] t) ?_
  rw [TypeExpr.bare, children_setAnnotations]
  exact (lawful_iff.mp lawful).2

theorem lawful_unionOf {members : List TypeExpr} (each : ∀ m ∈ members, m.Lawful) :
    (unionOf members).Lawful :=
  lawful_of_plain rfl (forall_members (fun _ lawful _ => lawful.child) each)

theorem Lawful.substitute {vars : List String} {args : List TypeExpr}
    (given : ∀ a ∈ args, a.Lawful) {t : TypeExpr} (lawful : t.Lawful) :
    (t.substitute vars args).Lawful := by
  induction t using induct with
  | wildcard as => exact lawful
  | named as name params ih =>
      obtain free | ⟨rfl, i, index⟩ := stays_or_bound vars name params
      · obtain ⟨own, below⟩ := lawful_iff.mp lawful
        rw [substitute_named free]
        refine lawful_iff.mpr ⟨own, fun c hc => ?_⟩
        obtain ⟨q, hq, rfl⟩ := List.mem_map.mp hc
        exact ih q hq (below q hq)
      · rw [substitute_variable index]
        exact argument_of_forall lawful_wildcard given i
  | union as members ih =>
      obtain ⟨own, below⟩ := lawful_iff.mp lawful
      rw [TypeExpr.substitute, substituteAll_eq_map]
      refine lawful_iff.mpr ⟨own, fun c hc => ?_⟩
      obtain ⟨q, hq, rfl⟩ := List.mem_map.mp hc
      exact ih q hq (below q hq)

end TypeExpr

namespace Hierarchy

open TypeExpr

variable {h : Hierarchy} (declared : ∀ d ∈ h.declarations, ∀ s ∈ d.supertypes, s.Lawful)
include declared

theorem passed_lawful : h.Passed Lawful where
  top := lawful_topType h
  bare _ lawful := lawful.bare
  above {_ _ params d args} lawful found _ given := by
    have args_ok := forall_mem_instantiate lawful_wildcard given (lawful_iff.mp lawful).2
    refine ⟨lawful_named args_ok, fun u hu => ?_⟩
    obtain ⟨s, hs, rfl⟩ := List.mem_map.mp hu
    exact (declared d (mem_of_get? found) s hs).substitute args_ok
  opened := lawful_wildcard
  below _ lawful _ := lawful.child
  ancestor _ _ := lawful_named

end Hierarchy

open Hierarchy in
theorem TypeExpr.Built.lawful {t : TypeExpr} (built : t.Built) : t.Lawful := by
  induction built with
  | named _ _ ih => exact lawful_named ih
  | wildcard => exact lawful_wildcard
  | unionOf _ ih => exact lawful_unionOf ih
  | annotate _ annotations ih => exact ih.annotate annotations
  | bare _ ih => exact ih.bare
  | child _ below ih => exact ih.child below
  | ancestor _ _ climbs above declared ih =>
      exact (passed_lawful declared).lineage climbs ih _ above
  | joined _ _ join declared ih =>
      exact (passed_lawful declared).joinWithin ih join

end Overload
