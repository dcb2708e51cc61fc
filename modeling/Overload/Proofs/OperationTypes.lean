import Overload.Proofs.BuildOutcome
import Overload.Proofs.Catalog

/-!
The types of an operation. Each is a type of one of its resolvers, or the union or the join of such
types with annotations; and so is each type that an error of building tells of. What uniting,
joining and annotating keep therefore passes from the resolvers to all that building comes to, name
by name also in a catalog.
-/
namespace Overload

open Hierarchy TypeExpr

/-- All types of an operation, those of its resolvers too. -/
def Operation.types (op : Operation) : List TypeExpr :=
  op.resultType :: op.receivers ++ op.arguments.map (·.type) ++
    op.resolvers.flatMap Operation.typesOf

theorem Operation.forall_types {P : TypeExpr → Prop} {op : Operation} :
    (∀ t ∈ op.types, P t) ↔ P op.resultType ∧ (∀ t ∈ op.receivers, P t) ∧
      (∀ a ∈ op.arguments, P a.type) ∧ ∀ t ∈ op.resolvers.flatMap typesOf, P t := by
  rw [types, List.cons_append, List.cons_append, List.forall_mem_cons, List.append_assoc,
    List.forall_mem_append, List.forall_mem_append, List.forall_mem_map]

/-- All types of the operations of a catalog. -/
def Catalog.types (c : Catalog) : List TypeExpr :=
  (c.queries ++ c.mutations).flatMap Operation.types

/-- The types that an error tells of. -/
def OperationError.types : OperationError → List TypeExpr
  | incompatibleResults _ types shared => shared :: types
  | differentReceivers _ expected _ found => expected ++ found
  | noResolvers | wrongType _ _ => []

namespace Operation

theorem unifyResults_eq_error {h : Hierarchy} {o : Options} {name : String} {rs : List Resolver}
    {e : OperationError} (fails : unifyResults h o name rs = .error e) :
    (∃ cause, e = .wrongType name cause) ∨ ∃ shared,
      h.joinWithin (rs.map (·.resultType)) o.maxJoinDepth = .ok shared ∧
        e = .incompatibleResults name (rs.map (·.resultType)) shared := by
  cases source : rs.any (·.unionSource) with
  | true => cases (if_pos source).symm.trans fails
  | false =>
      rw [unifyResults_of_joins (by simpa using source)] at fails
      split at fails
      · cases fails
        exact .inl ⟨_, rfl⟩
      · rename_i shared joined
        split at fails
        · cases fails
          exact .inr ⟨shared, joined, rfl⟩
        · cases fails

theorem exists_of_agreeOnReceivers {name : String} {first : Resolver} {others : List Resolver}
    {e : OperationError} (fails : agreeOnReceivers name (first :: others) = .error e) :
    ∃ i, ∃ r ∈ others, e = .differentReceivers name first.receivers i r.receivers := by
  rw [agreeOnReceivers] at fails
  split at fails
  · cases fails
  · rename_i i index
    obtain ⟨before, r, after, rfl, rfl, _, _⟩ := exists_of_findIdx?_eq_some index
    cases fails
    refine ⟨before.length + 1, r, List.mem_append_right _ List.mem_cons_self, ?_⟩
    simp

/-- What uniting, joining and annotating types keep. -/
structure Passes (h : Hierarchy) (P : TypeExpr → Prop) : Prop where
  annotate : ∀ {t}, P t → ∀ as, P (t.annotate as)
  unionOf : ∀ {ts}, (∀ t ∈ ts, P t) → P (unionOf ts)
  joinWithin : ∀ {ts depth j}, (∀ t ∈ ts, P t) → h.joinWithin ts depth = .ok j → P j

namespace Passes

variable {h : Hierarchy} {P : TypeExpr → Prop} (passes : Passes h P) {rs : List Resolver}
  (each : ∀ t ∈ rs.flatMap typesOf, P t)
include passes each

theorem result {o : Options} {name : String} {t : TypeExpr}
    (united : unifyResults h o name rs = .ok t) : P t := by
  obtain ⟨u, rfl, _, shape⟩ := unifyResults_eq_ok united
  apply passes.annotate
  obtain ⟨_, rfl⟩ | ⟨_, _, _, joined⟩ := shape
  · exact passes.unionOf (forall_results each)
  · exact passes.joinWithin (forall_results each) joined

theorem arguments {o : Options} {name : String} {as : List Argument}
    (merged : mergeArguments h o name rs = .ok as) : ∀ a ∈ as, P a.type := by
  intro a ha
  obtain ⟨g, hg, merge⟩ := exists_of_mem_right (mapM_eq_ok.mp (mapError_eq_ok.mp merged)) ha
  obtain ⟨t, typed, same⟩ := bind_eq_ok.mp merge
  obtain ⟨j, joined, annotated⟩ := bind_eq_ok.mp typed
  cases same
  cases annotated
  apply passes.annotate
  refine passes.joinWithin (fun u hu => ?_) joined
  obtain ⟨b, hb, rfl⟩ := List.mem_map.mp hu
  exact forall_arguments each b (mem_of_mem_argumentGroups hg b hb)

/-- What all types of the resolvers have, all types of their operation have. -/
theorem of_build {o : Options} {op : Operation} (ok : build h o rs = .ok op) :
    ∀ t ∈ op.types, P t := by
  cases rs with
  | nil => cases ok
  | cons first others =>
      have parts := built_of_build ok
      refine forall_types.mpr
        ⟨passes.result each parts.result, ?_, passes.arguments each parts.arguments, ?_⟩
      · rw [parts.receivers]
        exact forall_receivers each first List.mem_cons_self
      · rwa [parts.resolvers]

theorem of_build_error {o : Options} {e : OperationError} (fails : build h o rs = .error e) :
    ∀ t ∈ e.types, P t := by
  cases rs with
  | nil =>
      cases fails
      exact nofun
  | cons first others =>
      obtain unchecked | ⟨_, _, fails⟩ := bind_eq_error.mp fails
      · obtain ⟨_, _, rfl⟩ := mapError_eq_error.mp unchecked
        exact nofun
      obtain clashing | ⟨_, _, fails⟩ := bind_eq_error.mp fails
      · obtain ⟨_, rfl⟩ | ⟨shared, joined, rfl⟩ := unifyResults_eq_error clashing
        · exact nofun
        · have results := forall_results each
          exact List.forall_mem_cons.mpr ⟨passes.joinWithin results joined, results⟩
      obtain differing | ⟨_, _, fails⟩ := bind_eq_error.mp fails
      · obtain ⟨_, r, hr, rfl⟩ := exists_of_agreeOnReceivers differing
        have receivers := forall_receivers each
        exact List.forall_mem_append.mpr
          ⟨receivers first List.mem_cons_self, receivers r (List.mem_cons_of_mem _ hr)⟩
      obtain unmerged | ⟨_, _, built⟩ := bind_eq_error.mp fails
      · obtain ⟨_, _, rfl⟩ := mapError_eq_error.mp unmerged
        exact nofun
      · cases built

end Passes

theorem forall_named {P : TypeExpr → Prop} {rs : List Resolver}
    (each : ∀ t ∈ rs.flatMap typesOf, P t) (n : String) :
    ∀ t ∈ (Catalog.named rs n).flatMap typesOf, P t := by
  rw [List.forall_mem_flatMap] at each ⊢
  intro r hr
  exact each r (List.mem_of_mem_filter hr)

namespace Passes

variable {h : Hierarchy} {P : TypeExpr → Prop} (passes : Passes h P)
include passes

theorem of_buildAll {o : Options} {rs : List Resolver} (each : ∀ t ∈ rs.flatMap typesOf, P t)
    {ops : List Operation} (ok : Catalog.buildAll h o rs = .ok ops) :
    ∀ op ∈ ops, ∀ t ∈ op.types, P t := by
  intro op member
  rw [Catalog.buildAll_eq, mapM_eq_ok] at ok
  obtain ⟨n, _, made⟩ := exists_of_mem_right ok member
  exact passes.of_build (forall_named each n) made

theorem of_firstFault {o : Options} {rs : List Resolver} (each : ∀ t ∈ rs.flatMap typesOf, P t)
    {names : List String} {e : OperationError}
    (fault : FirstFault (Catalog.buildNamed h o rs) names e) : ∀ t ∈ e.types, P t := by
  obtain ⟨_, n, _, _, _, fails⟩ := fault
  exact passes.of_build_error (forall_named each n) fails

variable {qs ms : List Resolver} (queries : ∀ t ∈ qs.flatMap typesOf, P t)
  (mutations : ∀ t ∈ ms.flatMap typesOf, P t)
include queries mutations

theorem of_catalog {o : Options} {c : Catalog} (ok : Catalog.build h o qs ms = .ok c) :
    ∀ t ∈ c.types, P t := by
  obtain ⟨first, second⟩ := Catalog.build_eq_ok.mp ok
  rw [Catalog.types, List.forall_mem_flatMap, List.forall_mem_append]
  exact ⟨passes.of_buildAll queries first, passes.of_buildAll mutations second⟩

theorem of_catalog_error {o : Options} {e : OperationError}
    (fails : Catalog.build h o qs ms = .error e) : ∀ t ∈ e.types, P t := by
  obtain fault | ⟨_, fault⟩ := Catalog.build_eq_error.mp fails
  · exact passes.of_firstFault queries fault
  · exact passes.of_firstFault mutations fault

end Passes

end Operation

end Overload
