import Overload.Proofs.BuildOrder
import Overload.Proofs.Built
import Overload.Proofs.CheckedOperation

/-!
An operation read as one resolver makes the same operation again. Each stage leaves what it gave as
it is when that comes in alone: a join agrees with itself, a union has no member twice, annotations
are taken once, and arguments of distinct names keep their order.
-/
namespace Overload

open TypeExpr

/-- The operation as the only overload of its name. -/
def Operation.asResolver (op : Operation) : Resolver where
  name := op.name
  resultType := op.resultType
  arguments := op.arguments
  receivers := op.receivers.foldl addType []
  batched := op.batched
  unionSource := op.resultType.isUnion
  description := op.description
  distinct := distinct_foldl_addType .nil op.receivers

namespace Operation

open Hierarchy

theorem allAnnotations_single {t : TypeExpr} (different : Different t.annotations) :
    allAnnotations [t] = t.annotations := by
  rw [allAnnotations, List.flatMap_singleton, mergeAnnotations_nil, different.eraseDups_eq]

/-- A type takes on again the annotations that were taken off it. -/
theorem bare_annotate_self {t : TypeExpr} (different : Different t.annotations) :
    t.bare.annotate t.annotations = t := by
  have own : mergeAnnotations t.bare.annotations t.annotations = t.annotations := by
    rw [bare, annotations_setAnnotations, mergeAnnotations_nil, different.eraseDups_eq]
  rw [annotate, own]
  cases t <;> rfl

theorem different_annotate {t : TypeExpr} (plain : t.annotations = []) (as : List Annotation) :
    Different (t.annotate as).annotations := by
  rw [annotations_annotate, plain]
  exact Different.merge List.Pairwise.nil as

/-- A type without annotations takes on those of other types, each once, and has no others. -/
theorem annotate_allAnnotations {t : TypeExpr} (plain : t.annotations = [])
    (types : List TypeExpr) : t.annotate (allAnnotations types) =
      t.setAnnotations (types.flatMap annotations).eraseDups := by
  have different : Different (allAnnotations types) := Different.merge List.Pairwise.nil _
  rw [annotate, plain, mergeAnnotations_nil, different.eraseDups_eq, allAnnotations,
    mergeAnnotations_nil]

theorem joinWithin_single (h : Hierarchy) {t : TypeExpr} (single : t.isUnion = false)
    (depth : Nat) : h.joinWithin [t] depth = .ok t.bare := by
  have agree : agreed? (flattenAll [t]) = some t.bare := by
    rw [flattenAll_eq_flatMap, List.flatMap_singleton, flatten_single single]
    rfl
  exact joinBy_eq_ok.mpr (.agreed agree)

theorem unionOf_single {as : List Annotation} {members : List TypeExpr}
    (distinct : Distinct members) : unionOf [.union as members] = .union [] members := by
  have whole : members.foldl addType [] = [] ++ members := foldl_addType_of_distinct distinct
  rw [unionOf, List.flatMap_singleton, alternatives, whole, List.nil_append]

theorem unifyResults_again {h : Hierarchy} {o : Options} {name name' : String}
    {rs : List Resolver} {t : TypeExpr} (ok : unifyResults h o name rs = .ok t) {r : Resolver}
    (result : r.resultType = t) (source : r.unionSource = t.isUnion) :
    unifyResults h o name' [r] = .ok t := by
  obtain ⟨u, same, plain, shape⟩ := unifyResults_eq_ok ok
  have different : Different t.annotations := same ▸ different_annotate plain _
  have bare : t.bare = u := by rw [same, bare_annotate, bare_of_plain plain]
  have shape' : t.isUnion = u.isUnion := same ▸ isUnion_annotate u _
  have back : u.annotate t.annotations = t := bare ▸ bare_annotate_self different
  simp only [unifyResults, List.any_cons, List.any_nil, Bool.or_false, List.map_cons,
    List.map_nil, source, result, allAnnotations_single different]
  obtain ⟨_, united⟩ | ⟨_, single, content, _⟩ := shape
  · obtain ⟨members, unites, distinct, _⟩ := unionOf_eq (rs.map (·.resultType))
    rw [unites] at united
    have alone : unionOf [t] = u := by
      rw [united] at bare ⊢
      cases t with
      | union as ms =>
          cases bare
          exact unionOf_single distinct
      | named as n params => cases bare
      | wildcard as => cases bare
    rw [if_pos (by rw [shape', united]; rfl), alone, back]
  · rw [shape'.trans single, if_neg Bool.false_ne_true,
      joinWithin_single h (shape'.trans single), bare]
    simp only [content, Bool.false_eq_true, if_false, back]

theorem argumentType_again {h : Hierarchy} {o : Options} {declared : List Argument} {t : TypeExpr}
    (ok : argumentType h o declared = .ok t) {a : Argument} (type : a.type = t) :
    argumentType h o [a] = .ok t := by
  obtain ⟨j, joined, annotated⟩ := bind_eq_ok.mp ok
  obtain ⟨single, plain⟩ := joinBy_normal joined
  have same := (Except.ok.inj annotated).symm
  have different : Different t.annotations := same ▸ different_annotate plain _
  have shape : t.isUnion = false := same ▸ (isUnion_annotate j _).trans single
  refine bind_eq_ok.mpr ⟨t.bare, ?_, ?_⟩
  · rw [List.map_singleton, type]
    exact joinWithin_single h shape o.maxJoinDepth
  · rw [List.map_singleton, type, allAnnotations_single different, bare_annotate_self different]

theorem firstText?_toList (texts : List String) :
    firstText? (firstText? texts).toList = firstText? texts := by
  cases first : firstText? texts with
  | none => rfl
  | some text =>
      have filled : decide (text ≠ "") = true :=
        List.find?_some (p := fun s => decide (s ≠ "")) first
      exact List.find?_cons_of_pos filled

theorem filterMap_single {α : Type} (f : α → Option String) (x : α) :
    [x].filterMap f = (f x).toList := by
  rw [List.filterMap_cons, List.filterMap_nil]
  cases f x <;> rfl

/-- Of one declaration everything is kept but the type, which is joined, and an empty description.
-/
theorem mergeArgument_single {h : Hierarchy} {o : Options} {a : Argument} {t : TypeExpr}
    (typed : argumentType h o [a] = .ok t) : mergeArgument h o (a.name, [a]) =
      .ok { a with type := t, description := firstText? a.description.toList } := by
  refine bind_eq_ok.mpr ⟨t, typed, ?_⟩
  have default : [a].findSome? (·.default) = a.default := by
    rw [List.findSome?_cons, List.findSome?_nil]
    cases a.default <;> rfl
  simp only [filterMap_single, default, List.any_cons, List.any_nil, Bool.or_false]

theorem mergeArgument_again {h : Hierarchy} {o : Options} {g : String × List Argument}
    {a : Argument} (ok : mergeArgument h o g = .ok a) :
    mergeArgument h o (a.name, [a]) = .ok a := by
  obtain ⟨t, typed, same⟩ := bind_eq_ok.mp ok
  obtain rfl := Except.ok.inj same
  rw [mergeArgument_single (argumentType_again typed rfl), firstText?_toList]

/-- The names in the order that is asked for, each once. -/
def InOrder (o : Options) (names : List String) : Prop :=
  match o.argumentOrder with
  | .firstOccurrence => names.Nodup
  | .alphabetical => names.Pairwise (· < ·)

theorem InOrder.nodup {o : Options} {names : List String} (order : InOrder o names) :
    names.Nodup := by
  cases arranged : o.argumentOrder with
  | firstOccurrence => simpa only [InOrder, arranged] using order
  | alphabetical =>
      rw [InOrder, arranged] at order
      exact order.imp ne_of_lt

theorem argumentGroups_inOrder (o : Options) (rs : List Resolver) :
    InOrder o ((argumentGroups o rs).map Prod.fst) := by
  unfold InOrder argumentGroups
  cases o.argumentOrder with
  | firstOccurrence =>
      rw [keys_groupBy]
      exact nodup_eraseDups _
  | alphabetical =>
      refine List.pairwise_map.mpr ?_
      exact List.foldlRecOn _ _ List.Pairwise.nil fun sorted ascending g _ =>
        Ascending.insertSorted ascending g

theorem argumentGroups_of_inOrder {o : Options} {r : Resolver}
    (order : InOrder o (r.arguments.map (·.name))) :
    argumentGroups o [r] = r.arguments.map fun a => (a.name, [a]) := by
  have apart : groupBy Argument.name ([r].flatMap (·.arguments)) =
      r.arguments.map fun a => (a.name, [a]) := by
    rw [List.flatMap_singleton, groupBy_of_nodup order.nodup]
  rw [argumentGroups, apart]
  cases arranged : o.argumentOrder with
  | firstOccurrence => rfl
  | alphabetical =>
      rw [InOrder, arranged] at order
      have ascending : Ascending Prod.fst ([] ++ r.arguments.map fun a => (a.name, [a])) :=
        List.pairwise_map.mpr (List.pairwise_map.mp order)
      exact ascending.foldl_insertSorted

theorem names_mergeArguments {h : Hierarchy} {o : Options} {name : String} {rs : List Resolver}
    {as : List Argument} (ok : mergeArguments h o name rs = .ok as) :
    as.map (·.name) = (argumentGroups o rs).map Prod.fst := by
  have names := congrArg (List.map Prod.fst) (signatures_mergeArguments ok)
  rwa [List.map_map, List.map_map] at names

theorem mergeArguments_again {h : Hierarchy} {o : Options} {name name' : String}
    {rs : List Resolver} {as : List Argument} (ok : mergeArguments h o name rs = .ok as)
    {r : Resolver} (arguments : r.arguments = as) : mergeArguments h o name' [r] = .ok as := by
  have order : InOrder o (r.arguments.map (·.name)) := by
    rw [arguments, names_mergeArguments ok]
    exact argumentGroups_inOrder o rs
  rw [mergeArguments, argumentGroups_of_inOrder order, arguments, mapError_eq_ok, mapM_eq_ok,
    List.forall₂_map_left_iff, List.forall₂_same]
  intro a ha
  obtain ⟨g, _, merged⟩ := exists_of_mem_right (mapM_eq_ok.mp (mapError_eq_ok.mp ok)) ha
  exact mergeArgument_again merged

theorem description_again (op : Operation) :
    Operation.description { op with resolvers := [op.asResolver] } = op.description := by
  rw [description, filterMap_single]
  exact firstText?_toList _

theorem receivers_asResolver {h : Hierarchy} {o : Options} {rs : List Resolver} {op : Operation}
    (ok : build h o rs = .ok op) : op.asResolver.receivers = op.receivers := by
  cases rs with
  | nil => cases ok
  | cons first others =>
      have distinct : Distinct ([] ++ op.receivers) :=
        (built_of_build ok).receivers ▸ first.distinct
      exact foldl_addType_of_distinct distinct

theorem checked_asResolver {h : Hierarchy} (sound : h.Sound) (nested : h.NestedArities)
    {o : Options} {rs : List Resolver} {op : Operation} (ok : build h o rs = .ok op) :
    Checked h [op.asResolver] := by
  obtain ⟨result, arguments⟩ := check_build sound nested ok
  have receivers : ∀ t ∈ op.receivers, h.check t = .ok () := by
    have checked := checked_of_build ok
    cases rs with
    | nil => cases ok
    | cons first others =>
        rw [(built_of_build ok).receivers]
        intro t ht
        exact checked t (List.mem_flatMap.mpr ⟨first, List.mem_cons_self, by simp [typesOf, ht]⟩)
  rw [Checked, List.flatMap_singleton, typesOf, receivers_asResolver ok, List.forall_mem_append,
    List.forall_mem_cons]
  exact ⟨⟨result, receivers⟩, List.forall_mem_map.mpr arguments⟩

/-- An operation read as one resolver makes the same operation again, which now has that resolver
alone. -/
theorem build_asResolver {base h : Hierarchy} {ds : List Declaration}
    (accepted : base.extend ds = .ok h) (topFree : h.declares h.top = false)
    (nested : h.NestedArities) (o : Options) {rs : List Resolver} {op : Operation}
    (ok : build h o rs = .ok op) :
    ∃ again, build h o [op.asResolver] = .ok again ∧
      again = { op with resolvers := [op.asResolver] } ∧ again.description = op.description := by
  have sound : h.Sound := ⟨validate_of_extend accepted, topFree⟩
  refine ⟨_, ?_, rfl, description_again op⟩
  rw [build_of_checked (checked_asResolver sound nested ok)]
  cases rs with
  | nil => cases ok
  | cons first others =>
      have parts := built_of_build ok
      have result : unifyResults h o op.asResolver.name [op.asResolver] = .ok op.resultType :=
        unifyResults_again parts.result rfl rfl
      have arguments : mergeArguments h o op.asResolver.name [op.asResolver] = .ok op.arguments :=
        mergeArguments_again parts.arguments rfl
      have batched : [op.asResolver].any (·.batched) = op.batched := Bool.or_false _
      have agreed : agreeOnReceivers op.asResolver.name [op.asResolver] = .ok op.receivers :=
        congrArg Except.ok (receivers_asResolver ok)
      rw [result, agreed, arguments, batched]
      rfl

theorem build_asResolver_overloads :
    builtin.extend [] = .ok builtin ∧ builtin.declares builtin.top = false ∧
      builtin.NestedArities ∧
      build builtin { argumentOrder := .alphabetical } overloads = .ok found ∧
      build builtin { argumentOrder := .alphabetical } [found.asResolver] =
        .ok { found with resolvers := [found.asResolver] } := by
  have ok : build builtin { argumentOrder := .alphabetical } overloads = .ok found := by cbv
  obtain ⟨_, built, rfl, _⟩ :=
    build_asResolver builtin_accepted builtin_sound.topFree builtin_nestedArities _ ok
  exact ⟨builtin_accepted, builtin_sound.topFree, builtin_nestedArities, ok, built⟩

end Operation

end Overload
