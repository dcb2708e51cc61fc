import Overload.Proofs.Annotation
import Overload.Proofs.BuildOutcome

/-!
The order of resolvers. What can be wrong with them does not depend on it, so in any order they make
an operation or fail for one kind of reason. The operations that they make differ in the order of
their parts and in the type that a join settles on.
-/
namespace Overload

/-- The kinds of errors, without what they report. -/
inductive ErrorKind where
  | noResolvers
  | incompatibleResults
  | differentReceivers
  | wrongType
deriving DecidableEq

def OperationError.kind : OperationError → ErrorKind
  | noResolvers => .noResolvers
  | incompatibleResults _ _ _ => .incompatibleResults
  | differentReceivers _ _ _ _ => .differentReceivers
  | wrongType _ _ => .wrongType

/-- What an argument keeps in any order of the resolvers: its name, its flags, and whether it has a
default. -/
def Argument.signature (a : Argument) : String × Bool × Bool × Bool :=
  (a.name, a.context, a.mappable, a.default.isSome)

/-- Two unions of the same types, or two types neither of which is a union. -/
inductive TypeExpr.SameAlternatives : TypeExpr → TypeExpr → Prop
  | unions {as bs : List Annotation} {ms ns : List TypeExpr}
      (members : (ms.map plain).Perm (ns.map plain)) :
      SameAlternatives (.union as ms) (.union bs ns)
  | singles {t u : TypeExpr} (left : t.isUnion = false) (right : u.isUnion = false) :
      SameAlternatives t u

/-- What two operations made from the same resolvers have in common. -/
structure Operation.SameUpToOrder (left right : Operation) : Prop where
  name : left.name = right.name
  batched : left.batched = right.batched
  receivers : (left.receivers.map TypeExpr.plain).Perm (right.receivers.map TypeExpr.plain)
  arguments : (left.arguments.map Argument.signature).Perm
    (right.arguments.map Argument.signature)
  annotations : ∀ a, left.resultType.annotations.contains a =
    right.resultType.annotations.contains a
  result : left.resultType.SameAlternatives right.resultType

namespace Operation

open Hierarchy TypeExpr

def Agreeing (rs : List Resolver) : Prop :=
  ∀ r ∈ rs, ∀ s ∈ rs, SameTypes r.receivers s.receivers

theorem agreeing_iff {first : Resolver} {others : List Resolver} :
    Agreeing (first :: others) ↔
      ∀ s ∈ first :: others, SameTypes first.receivers s.receivers := by
  constructor
  · exact fun agree => agree first List.mem_cons_self
  · exact fun agree r hr s hs => (agree r hr).symm.trans (agree s hs)

open Classical in
/-- The kind of the error that resolvers lead to, none if they make an operation. -/
noncomputable def fault? (h : Hierarchy) (rs : List Resolver) : Option ErrorKind :=
  if rs = [] then some .noResolvers
  else if ¬ Checked h rs then some .wrongType
  else if Clashing h rs then some .incompatibleResults
  else if ¬ Agreeing rs then some .differentReceivers
  else none

def errorKind? : Except OperationError Operation → Option ErrorKind
  | .ok _ => none
  | .error e => some e.kind

theorem Outcome.errorKind?_eq {h : Hierarchy} {o : Options} {rs : List Resolver}
    {ending : Except OperationError Operation} (outcome : Outcome h o rs ending) :
    errorKind? ending = fault? h rs := by
  unfold fault?
  cases outcome with
  | empty => rfl
  | @unchecked first others before after t e order passed fails =>
      have unchecked : ¬ Checked h (first :: others) := by
        intro checked
        have fine := checked t (by simp [order])
        rw [fine] at fails
        cases fails
      simp [unchecked, errorKind?, OperationError.kind]
  | clashing checked clash joined free => simp [checked, clash, errorKind?, OperationError.kind]
  | @differing first others before after r checked fits order agree differ =>
      have differing : ¬ Agreeing (first :: others) := fun agree =>
        differ (agreeing_iff.mp agree r (by simp [order]))
      simp [checked, fits, differing, errorKind?, OperationError.kind]
  | built checked fits agree => simp [checked, fits, agreeing_iff.mpr agree, errorKind?]

theorem clashing_perm {h : Hierarchy} {rs rs' : List Resolver} (perm : rs.Perm rs') :
    Clashing h rs ↔ Clashing h rs' := by
  simp only [Clashing, perm.mem_iff, nothingShared_perm (perm.map (·.resultType))]

theorem fault?_perm {h : Hierarchy} {rs rs' : List Resolver} (perm : rs.Perm rs') :
    fault? h rs = fault? h rs' := by
  have none : rs = [] ↔ rs' = [] := by
    rw [← List.length_eq_zero_iff, perm.length_eq, List.length_eq_zero_iff]
  have checked : Checked h rs = Checked h rs' := by
    simp only [Checked, (perm.flatMap_right typesOf).mem_iff]
  have agreeing : Agreeing rs = Agreeing rs' := by simp only [Agreeing, perm.mem_iff]
  simp only [fault?, none]
  rw [checked, propext (clashing_perm perm), agreeing]

theorem annotations_annotate (t : TypeExpr) (as : List Annotation) :
    (t.annotate as).annotations = mergeAnnotations t.annotations as :=
  annotations_setAnnotations _ t

theorem isUnion_annotate (t : TypeExpr) (as : List Annotation) :
    (t.annotate as).isUnion = t.isUnion := by
  cases t <;> rfl

theorem contains_annotate {t : TypeExpr} (plain : t.annotations = []) (types : List TypeExpr)
    (a : Annotation) : (t.annotate (allAnnotations types)).annotations.contains a =
      (types.flatMap TypeExpr.annotations).contains a := by
  rw [Bool.eq_iff_iff, annotations_annotate, plain, allAnnotations, contains_mergeAnnotations,
    contains_mergeAnnotations]
  simp

theorem unifyResults_perm {h : Hierarchy} {o : Options} {name name' : String}
    {rs rs' : List Resolver} (perm : rs.Perm rs') {t t' : TypeExpr}
    (ok : unifyResults h o name rs = .ok t) (ok' : unifyResults h o name' rs' = .ok t') :
    t.SameAlternatives t' ∧ ∀ a, t.annotations.contains a = t'.annotations.contains a := by
  obtain ⟨u, rfl, plain, shape⟩ := unifyResults_eq_ok ok
  obtain ⟨u', rfl, plain', shape'⟩ := unifyResults_eq_ok ok'
  have declared := perm.map (·.resultType)
  refine ⟨?_, fun a => ?_⟩
  · rw [any_eq_of_perm perm] at shape
    obtain ⟨source, rfl⟩ | ⟨joins, single, _⟩ := shape
    · obtain ⟨_, rfl⟩ | ⟨joins, _⟩ := shape'
      · obtain ⟨ms, ns, left, right, members⟩ := unionOf_perm declared
        rw [left, right]
        exact .unions members
      · exact absurd source (by simp [joins])
    · obtain ⟨source, _⟩ | ⟨_, single', _⟩ := shape'
      · exact absurd source (by simp [joins])
      · exact .singles ((isUnion_annotate _ _).trans single) ((isUnion_annotate _ _).trans single')
  · rw [contains_annotate plain, contains_annotate plain']
    exact (declared.flatMap_right _).contains_eq

def groupSignature (g : String × List Argument) : String × Bool × Bool × Bool :=
  (g.1, g.2.any (·.context), g.2.any (·.mappable), g.2.any (·.default.isSome))

theorem signature_mergeArgument {h : Hierarchy} {o : Options} {g : String × List Argument}
    {a : Argument} (ok : mergeArgument h o g = .ok a) : a.signature = groupSignature g := by
  obtain ⟨type, _, ok⟩ := bind_eq_ok.mp ok
  cases ok
  simp only [Argument.signature, groupSignature, List.isSome_findSome?]

theorem signatures_mergeArguments {h : Hierarchy} {o : Options} {name : String}
    {rs : List Resolver} {as : List Argument} (ok : mergeArguments h o name rs = .ok as) :
    as.map Argument.signature = (argumentGroups o rs).map groupSignature := by
  have merged := mapM_eq_ok.mp (mapError_eq_ok.mp ok)
  have step : ∀ g a, mergeArgument h o g = .ok a → groupSignature g = a.signature :=
    fun _ _ ok => (signature_mergeArgument ok).symm
  exact (map_eq_map_of_forall₂ step merged).symm

theorem mergeArguments_perm {h : Hierarchy} {o : Options} {name name' : String}
    {rs rs' : List Resolver} (perm : rs.Perm rs') {as as' : List Argument}
    (ok : mergeArguments h o name rs = .ok as) (ok' : mergeArguments h o name' rs' = .ok as') :
    (as.map Argument.signature).Perm (as'.map Argument.signature) := by
  rw [signatures_mergeArguments ok, signatures_mergeArguments ok']
  have blind : ∀ (k : String) (xs ys : List Argument), xs.Perm ys →
      groupSignature (k, xs) = groupSignature (k, ys) := by
    intro k xs ys same
    simp only [groupSignature, any_eq_of_perm same]
  exact ((argumentGroups_perm o rs).map _).trans
    ((map_groupBy_perm blind (perm.flatMap_right _)).trans
      ((argumentGroups_perm o rs').map _).symm)

theorem sameUpToOrder_of_built {h : Hierarchy} {o : Options} {first first' : Resolver}
    {others others' : List Resolver} (perm : (first :: others).Perm (first' :: others'))
    (named : ∀ r ∈ first :: others, ∀ s ∈ first :: others, r.name = s.name)
    (agree : Agreeing (first :: others)) {op op' : Operation} (built : Built h o first others op)
    (built' : Built h o first' others' op') : op.SameUpToOrder op' := by
  have front : first ∈ first :: others := List.mem_cons_self
  have front' : first' ∈ first :: others := perm.mem_iff.mpr List.mem_cons_self
  obtain ⟨result, annotations⟩ := unifyResults_perm perm built.result built'.result
  refine ⟨?_, ?_, ?_, mergeArguments_perm perm built.arguments built'.arguments, annotations,
    result⟩
  · rw [built.name, built'.name]
    exact named first front first' front'
  · rw [built.batched, built'.batched]
    exact any_eq_of_perm perm _
  · rw [built.receivers, built'.receivers]
    exact (agree first front first' front').perm first.distinct first'.distinct

/-- Two endings of building: operations that are the same up to order, or errors of one kind. -/
inductive SameEnding :
    Except OperationError Operation → Except OperationError Operation → Prop
  | built {op op' : Operation} (same : op.SameUpToOrder op') : SameEnding (.ok op) (.ok op')
  | failed {e e' : OperationError} (kind : e.kind = e'.kind) : SameEnding (.error e) (.error e')

/-- The order of resolvers of one name decides neither whether they make an operation nor what kind
of error they lead to, and the operations that they make are the same up to order. -/
theorem build_perm {base h : Hierarchy} {ds : List Declaration}
    (accepted : base.extend ds = .ok h) (topFree : h.declares h.top = false)
    (nested : h.NestedArities) (o : Options) {rs rs' : List Resolver}
    (named : ∀ r ∈ rs, ∀ s ∈ rs, r.name = s.name) (perm : rs.Perm rs') :
    SameEnding (build h o rs) (build h o rs') := by
  have sound : h.Sound := ⟨validate_of_extend accepted, topFree⟩
  have outcome := outcome_of_build sound nested o rs
  have outcome' := outcome_of_build sound nested o rs'
  have kinds : errorKind? (build h o rs) = errorKind? (build h o rs') := by
    rw [outcome.errorKind?_eq, outcome'.errorKind?_eq, fault?_perm perm]
  cases built : build h o rs with
  | error e =>
      cases built' : build h o rs' with
      | error e' =>
          rw [built, built'] at kinds
          exact .failed (Option.some.inj kinds)
      | ok op' =>
          rw [built, built'] at kinds
          cases kinds
  | ok op =>
      cases built' : build h o rs' with
      | error e' =>
          rw [built, built'] at kinds
          cases kinds
      | ok op' =>
          rw [built] at outcome
          rw [built'] at outcome'
          cases outcome with
          | built _ _ agree =>
              cases outcome' with
              | built _ _ _ =>
                  exact .built (sameUpToOrder_of_built perm named (agreeing_iff.mpr agree)
                    (built_of_build built) (built_of_build built'))

/-- Two resolvers with other results and arguments, and with their receivers in another order. -/
def overloads : List Resolver :=
  [{ name := "find"
     resultType := .named [⟨"Stable", []⟩] "ArrayList" [.named [] "Int" []]
     arguments := [{ name := "id", type := .named [⟨"NonNull", []⟩] "ID" [], mappable := true }]
     receivers := [.named [] "String" [], .named [] "ID" []] },
   { name := "find"
     resultType := .named [] "HashSet" [.named [] "Long" []]
     arguments :=
       [{ name := "limit", type := .named [] "Int" [], default := some .null },
        { name := "id", type := .named [] "String" [], default := some (.integer 0)
          context := true }]
     receivers := [.named [] "ID" [], .named [] "String" []] }]

/-- The argument that both resolvers declare. -/
def mergedId : Argument where
  name := "id"
  type := .named [⟨"NonNull", []⟩] "Serializable" []
  default := some (.integer 0)
  context := true
  mappable := true

def mergedLimit : Argument where
  name := "limit"
  type := .named [] "Int" []
  default := some .null

/-- The operation that the resolvers make in an order, with its receivers and arguments. -/
def foundBy (rs : List Resolver) (receivers : List TypeExpr) (arguments : List Argument) :
    Operation where
  name := "find"
  resultType := .named [⟨"Stable", []⟩] "Collection" [.named [] "Number" []]
  receivers
  arguments
  batched := false
  resolvers := rs

def found : Operation :=
  foundBy overloads [.named [] "String" [], .named [] "ID" []] [mergedId, mergedLimit]

def foundInReverse : Operation :=
  foundBy overloads.reverse [.named [] "ID" [], .named [] "String" []] [mergedLimit, mergedId]

theorem build_perm_overloads :
    builtin.extend [] = .ok builtin ∧ builtin.declares builtin.top = false ∧
      builtin.NestedArities ∧ (∀ r ∈ overloads, ∀ s ∈ overloads, r.name = s.name) ∧
      overloads.Perm overloads.reverse ∧ build builtin {} overloads = .ok found ∧
      build builtin {} overloads.reverse = .ok foundInReverse ∧
      found.SameUpToOrder foundInReverse := by
  have named : ∀ r ∈ overloads, ∀ s ∈ overloads, r.name = s.name := by simp [overloads]
  have perm : overloads.Perm overloads.reverse := (List.reverse_perm overloads).symm
  have first : build builtin {} overloads = .ok found := by cbv
  have second : build builtin {} overloads.reverse = .ok foundInReverse := by cbv
  have ending :=
    build_perm builtin_accepted builtin_sound.topFree builtin_nestedArities {} named perm
  rw [first, second] at ending
  cases ending with
  | built same =>
      exact ⟨builtin_accepted, builtin_sound.topFree, builtin_nestedArities, named, perm, first,
        second, same⟩

end Operation

end Overload
