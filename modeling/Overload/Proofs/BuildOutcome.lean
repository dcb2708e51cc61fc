import Overload.Proofs.CheckedJoin
import Overload.Proofs.Grouping
import Overload.Proofs.JoinChoice
import Overload.Proofs.TypeSet

/-!
What becomes of the resolvers of an operation. Four things can be wrong with them: a type that is
not checked, results that have nothing in common, receivers that differ, or that there are none.
The first of these decides the error, and resolvers with which nothing is wrong make an operation.
-/
namespace Overload.Operation

open Hierarchy TypeExpr

/-- All types of the resolvers are declared and take the parameters they are given. -/
def Checked (h : Hierarchy) (rs : List Resolver) : Prop :=
  ∀ t ∈ rs.flatMap typesOf, h.check t = .ok ()

/-- The results are to be joined and have nothing in common. -/
def Clashing (h : Hierarchy) (rs : List Resolver) : Prop :=
  (∀ r ∈ rs, r.unionSource = false) ∧ h.NothingShared (rs.map (·.resultType))

/-- What becomes of resolvers, by the first thing that is wrong with them. -/
inductive Outcome (h : Hierarchy) (o : Options) :
    List Resolver → Except OperationError Operation → Prop
  | empty : Outcome h o [] (.error .noResolvers)
  | unchecked {first : Resolver} {others : List Resolver} {before after : List TypeExpr}
      {t : TypeExpr} {e : HierarchyError}
      (order : (first :: others).flatMap typesOf = before ++ t :: after)
      (passed : ∀ u ∈ before, h.check u = .ok ()) (fails : h.check t = .error e) :
      Outcome h o (first :: others) (.error (.wrongType first.name e))
  | clashing {first : Resolver} {others : List Resolver} {shared : TypeExpr}
      (checked : Checked h (first :: others)) (clash : Clashing h (first :: others))
      (joined : h.joinWithin ((first :: others).map (·.resultType)) o.maxJoinDepth = .ok shared)
      (free : h.isContentFree shared = true) :
      Outcome h o (first :: others)
        (.error (.incompatibleResults first.name ((first :: others).map (·.resultType)) shared))
  | differing {first : Resolver} {others before after : List Resolver} {r : Resolver}
      (checked : Checked h (first :: others)) (fits : ¬ Clashing h (first :: others))
      (order : first :: others = before ++ r :: after)
      (agree : ∀ s ∈ before, SameTypes first.receivers s.receivers)
      (differ : ¬ SameTypes first.receivers r.receivers) :
      Outcome h o (first :: others)
        (.error (.differentReceivers first.name first.receivers before.length r.receivers))
  | built {first : Resolver} {others : List Resolver} {op : Operation}
      (checked : Checked h (first :: others)) (fits : ¬ Clashing h (first :: others))
      (agree : ∀ s ∈ first :: others, SameTypes first.receivers s.receivers) :
      Outcome h o (first :: others) (.ok op)

theorem forall_results {P : TypeExpr → Prop} {rs : List Resolver}
    (each : ∀ t ∈ rs.flatMap typesOf, P t) : ∀ t ∈ rs.map (·.resultType), P t := by
  intro t ht
  obtain ⟨r, hr, rfl⟩ := List.mem_map.mp ht
  exact each _ (List.mem_flatMap.mpr ⟨r, hr, by simp [typesOf]⟩)

theorem forall_receivers {P : TypeExpr → Prop} {rs : List Resolver}
    (each : ∀ t ∈ rs.flatMap typesOf, P t) : ∀ r ∈ rs, ∀ t ∈ r.receivers, P t := by
  intro r hr t ht
  exact each t (List.mem_flatMap.mpr ⟨r, hr, by simp [typesOf, ht]⟩)

theorem forall_arguments {P : TypeExpr → Prop} {rs : List Resolver}
    (each : ∀ t ∈ rs.flatMap typesOf, P t) : ∀ a ∈ rs.flatMap (·.arguments), P a.type := by
  intro a ha
  obtain ⟨r, hr, ha⟩ := List.mem_flatMap.mp ha
  refine each _ (List.mem_flatMap.mpr ⟨r, hr, ?_⟩)
  simp only [typesOf, List.mem_append, List.mem_map]
  exact .inr ⟨a, ha, rfl⟩

theorem checkTypes_eq_ok {h : Hierarchy} {rs : List Resolver} :
    checkTypes h rs = .ok () ↔ Checked h rs := by
  rw [checkTypes, checkAll_eq_ok, Checked]

theorem unifyResults_of_joins {h : Hierarchy} {o : Options} {name : String} {rs : List Resolver}
    (joins : ∀ r ∈ rs, r.unionSource = false) : unifyResults h o name rs =
      match h.joinWithin (rs.map (·.resultType)) o.maxJoinDepth with
      | .error e => .error (.wrongType name e)
      | .ok t =>
          if h.isContentFree t then .error (.incompatibleResults name (rs.map (·.resultType)) t)
          else .ok (t.annotate (allAnnotations (rs.map (·.resultType)))) := by
  have none : rs.any (·.unionSource) = false := by simpa using joins
  rw [unifyResults, none]
  rfl

/-- A result is a union, or a join that says something about its values, with the annotations that
come in. -/
theorem unifyResults_eq_ok {h : Hierarchy} {o : Options} {name : String} {rs : List Resolver}
    {t : TypeExpr} (ok : unifyResults h o name rs = .ok t) :
    ∃ u, t = u.annotate (allAnnotations (rs.map (·.resultType))) ∧ u.annotations = [] ∧
      ((rs.any (·.unionSource) = true ∧ u = unionOf (rs.map (·.resultType))) ∨
        rs.any (·.unionSource) = false ∧ u.isUnion = false ∧ h.isContentFree u = false ∧
          h.joinWithin (rs.map (·.resultType)) o.maxJoinDepth = .ok u) := by
  cases source : rs.any (·.unionSource) with
  | true =>
      cases (if_pos source).symm.trans ok
      exact ⟨_, rfl, rfl, .inl ⟨rfl, rfl⟩⟩
  | false =>
      rw [unifyResults_of_joins (by simpa using source)] at ok
      split at ok
      · cases ok
      · rename_i j joined
        split at ok
        · cases ok
        · rename_i content
          cases ok
          obtain ⟨single, plain⟩ := joinBy_normal joined
          exact ⟨j, rfl, plain, .inr ⟨rfl, single, by simpa using content, joined⟩⟩

theorem unifyResults_cases {h : Hierarchy} (sound : h.Sound) (nested : h.NestedArities)
    (o : Options) (name : String) {rs : List Resolver} (checked : Checked h rs) :
    (Clashing h rs ∧ ∃ shared,
      h.joinWithin (rs.map (·.resultType)) o.maxJoinDepth = .ok shared ∧
        h.isContentFree shared = true ∧ unifyResults h o name rs =
          .error (.incompatibleResults name (rs.map (·.resultType)) shared)) ∨
      ¬ Clashing h rs ∧ ∃ t, unifyResults h o name rs = .ok t := by
  have fine := forall_results checked
  obtain ⟨j, joined, _⟩ := exists_joinWithin sound nested o.maxJoinDepth fine
  have meaning := sound.isContentFree_iff fine joined
  by_cases source : rs.any (·.unionSource) = true
  · right
    refine ⟨fun clash => ?_, ?_⟩
    · obtain ⟨r, hr, unites⟩ := List.any_eq_true.mp source
      exact absurd unites (by simp [clash.1 r hr])
    · exact ⟨_, if_pos source⟩
  · have joins : ∀ r ∈ rs, r.unionSource = false := by simpa using source
    by_cases free : h.isContentFree j = true
    · left
      refine ⟨⟨joins, meaning.mp free⟩, j, joined, free, ?_⟩
      rw [unifyResults_of_joins joins, joined]
      exact if_pos free
    · right
      refine ⟨fun clash => free (meaning.mpr clash.2), ?_⟩
      rw [unifyResults_of_joins joins, joined]
      exact ⟨_, if_neg free⟩

theorem agreeOnReceivers_cases (name : String) (first : Resolver) (others : List Resolver) :
    (∃ before r after, first :: others = before ++ r :: after ∧
      (∀ s ∈ before, SameTypes first.receivers s.receivers) ∧
        ¬ SameTypes first.receivers r.receivers ∧ agreeOnReceivers name (first :: others) =
          .error (.differentReceivers name first.receivers before.length r.receivers)) ∨
      (∀ s ∈ first :: others, SameTypes first.receivers s.receivers) ∧
        agreeOnReceivers name (first :: others) = .ok first.receivers := by
  have decides (r : Resolver) : (!sameReceivers first.receivers r.receivers) = false ↔
      SameTypes first.receivers r.receivers := by
    rw [Bool.not_eq_false', sameReceivers_iff first.distinct r.distinct]
  cases index : others.findIdx? fun r => !sameReceivers first.receivers r.receivers with
  | none =>
      right
      refine ⟨List.forall_mem_cons.mpr ⟨.refl _, fun r hr => ?_⟩, by simp [agreeOnReceivers, index]⟩
      exact (decides r).mp (List.findIdx?_eq_none_iff.mp index r hr)
  | some i =>
      left
      obtain ⟨before, r, after, rfl, rfl, differs, agree⟩ := exists_of_findIdx?_eq_some index
      refine ⟨first :: before, r, after, rfl, List.forall_mem_cons.mpr ⟨.refl _, ?_⟩, ?_, ?_⟩
      · exact fun s hs => (decides s).mp (agree s hs)
      · rw [← decides r, differs]
        exact fun same => Bool.false_ne_true same.symm
      · simp [agreeOnReceivers, index]

theorem argumentGroups_perm (o : Options) (rs : List Resolver) :
    (argumentGroups o rs).Perm (groupBy Argument.name (rs.flatMap (·.arguments))) := by
  unfold argumentGroups
  cases o.argumentOrder with
  | firstOccurrence => exact .refl _
  | alphabetical =>
      refine foldl_insertSorted_perm ?_
      rw [List.nil_append, keys_groupBy]
      exact nodup_eraseDups _

theorem mem_of_mem_argumentGroups {o : Options} {rs : List Resolver}
    {g : String × List Argument} (hg : g ∈ argumentGroups o rs) :
    ∀ a ∈ g.2, a ∈ rs.flatMap (·.arguments) := by
  intro a ha
  rw [(mem_groupBy.mp ((argumentGroups_perm o rs).mem_iff.mp hg)).2] at ha
  exact List.mem_of_mem_filter ha

theorem exists_argumentJoin {h : Hierarchy} (sound : h.Sound) (nested : h.NestedArities)
    {o : Options} {rs : List Resolver} (checked : Checked h rs) {g : String × List Argument}
    (hg : g ∈ argumentGroups o rs) :
    ∃ t, h.joinWithin (g.2.map (·.type)) o.maxJoinDepth = .ok t := by
  have fine : ∀ t ∈ g.2.map (·.type), h.check t = .ok () := by
    intro t ht
    obtain ⟨a, ha, rfl⟩ := List.mem_map.mp ht
    exact forall_arguments checked a (mem_of_mem_argumentGroups hg a ha)
  obtain ⟨t, joined, _⟩ := exists_joinWithin sound nested o.maxJoinDepth fine
  exact ⟨t, joined⟩

theorem exists_mergeArguments {h : Hierarchy} (sound : h.Sound) (nested : h.NestedArities)
    (o : Options) (name : String) {rs : List Resolver} (checked : Checked h rs) :
    ∃ as, mergeArguments h o name rs = .ok as := by
  have each : ∀ g ∈ argumentGroups o rs, ∃ a, mergeArgument h o g = .ok a := by
    intro g hg
    obtain ⟨t, joined⟩ := exists_argumentJoin sound nested checked hg
    simp only [mergeArgument, argumentType, joined, bind, Except.bind]
    exact ⟨_, rfl⟩
  obtain ⟨as, merged⟩ := exists_mapM_eq_ok each
  exact ⟨as, mapError_eq_ok.mpr merged⟩

theorem build_of_unchecked {h : Hierarchy} {o : Options} {first : Resolver}
    {others : List Resolver} {e : HierarchyError}
    (fault : checkTypes h (first :: others) = .error e) :
    build h o (first :: others) = .error (.wrongType first.name e) := by
  simp [build, fault, Except.mapError, bind, Except.bind]

theorem build_of_checked {h : Hierarchy} {o : Options} {first : Resolver} {others : List Resolver}
    (checked : Checked h (first :: others)) :
    build h o (first :: others) = (do
      let resultType ← unifyResults h o first.name (first :: others)
      let receivers ← agreeOnReceivers first.name (first :: others)
      let arguments ← mergeArguments h o first.name (first :: others)
      .ok
        { name := first.name, resultType, receivers, arguments
          batched := (first :: others).any (·.batched)
          resolvers := first :: others }) := by
  rw [build, checkTypes_eq_ok.mpr checked]
  rfl

theorem checked_of_build {h : Hierarchy} {o : Options} {rs : List Resolver} {op : Operation}
    (ok : build h o rs = .ok op) : Checked h rs := by
  cases rs with
  | nil => cases ok
  | cons first others =>
      obtain ⟨_, passed, _⟩ := bind_eq_ok.mp ok
      exact checkTypes_eq_ok.mp (mapError_eq_ok.mp passed)

theorem outcome_of_build {h : Hierarchy} (sound : h.Sound) (nested : h.NestedArities)
    (o : Options) (rs : List Resolver) : Outcome h o rs (build h o rs) := by
  cases rs with
  | nil => exact .empty
  | cons first others =>
      cases check : checkTypes h (first :: others) with
      | error e =>
          rw [build_of_unchecked check]
          rw [checkTypes, checkAll_eq_forM, forM_eq_error] at check
          obtain ⟨before, t, after, order, passed, fails⟩ := check
          exact .unchecked order passed fails
      | ok _ =>
          have checked := checkTypes_eq_ok.mp check
          rw [build_of_checked checked]
          obtain ⟨clash, shared, joined, free, fails⟩ | ⟨fits, t, united⟩ :=
            unifyResults_cases sound nested o first.name checked
          · rw [fails]
            exact .clashing checked clash joined free
          · rw [united]
            obtain ⟨before, r, after, order, agree, differ, fails⟩ | ⟨agree, agreed⟩ :=
              agreeOnReceivers_cases first.name first others
            · rw [fails]
              exact .differing checked fits order agree differ
            · obtain ⟨as, merged⟩ := exists_mergeArguments sound nested o first.name checked
              rw [agreed, merged]
              exact .built checked fits agree

/-- The parts of an operation by the stages that they come from. -/
structure Built (h : Hierarchy) (o : Options) (first : Resolver) (others : List Resolver)
    (op : Operation) : Prop where
  name : op.name = first.name
  result : unifyResults h o first.name (first :: others) = .ok op.resultType
  receivers : op.receivers = first.receivers
  arguments : mergeArguments h o first.name (first :: others) = .ok op.arguments
  batched : op.batched = (first :: others).any (·.batched)
  resolvers : op.resolvers = first :: others

theorem built_of_build {h : Hierarchy} {o : Options} {first : Resolver} {others : List Resolver}
    {op : Operation} (ok : build h o (first :: others) = .ok op) :
    Built h o first others op := by
  obtain ⟨_, _, ok⟩ := bind_eq_ok.mp ok
  obtain ⟨resultType, result, ok⟩ := bind_eq_ok.mp ok
  obtain ⟨receivers, agreed, ok⟩ := bind_eq_ok.mp ok
  obtain ⟨arguments, merged, ok⟩ := bind_eq_ok.mp ok
  cases ok
  refine ⟨rfl, result, ?_, merged, rfl, rfl⟩
  rw [agreeOnReceivers] at agreed
  split at agreed
  · cases agreed
    rfl
  · simp at agreed

theorem resolvers_of_build {h : Hierarchy} {o : Options} {rs : List Resolver} {op : Operation}
    (ok : build h o rs = .ok op) : op.resolvers = rs := by
  cases rs with
  | nil => cases ok
  | cons first others => exact (built_of_build ok).resolvers

/-- The first thing that is wrong with resolvers decides how building ends: there are none, a type
is not checked, the results have nothing in common, or the receivers differ. If nothing is wrong, it
ends with an operation. No join fails once all types are checked. -/
theorem build_outcome {base h : Hierarchy} {ds : List Declaration}
    (accepted : base.extend ds = .ok h) (topFree : h.declares h.top = false)
    (nested : h.NestedArities) (o : Options) (rs : List Resolver) :
    Outcome h o rs (build h o rs) ∧ (build h o rs = .error .noResolvers ↔ rs = []) ∧
      (Checked h rs →
        (∃ t, h.joinWithin (rs.map (·.resultType)) o.maxJoinDepth = .ok t) ∧
          ∀ g ∈ argumentGroups o rs,
            ∃ t, h.joinWithin (g.2.map (·.type)) o.maxJoinDepth = .ok t) := by
  have sound : h.Sound := ⟨validate_of_extend accepted, topFree⟩
  have outcome := outcome_of_build sound nested o rs
  refine ⟨outcome, ⟨fun none => ?_, fun none => none ▸ rfl⟩, fun checked => ⟨?_, fun g hg => ?_⟩⟩
  · rw [none] at outcome
    cases outcome
    rfl
  · obtain ⟨t, joined, _⟩ := exists_joinWithin sound nested o.maxJoinDepth (forall_results checked)
    exact ⟨t, joined⟩
  · exact exists_argumentJoin sound nested checked hg

/-- Two resolvers with results that have only a marker in common, and with different receivers. -/
def mismatched : List Resolver :=
  [{ name := "find", resultType := .named [] "Int" [] },
   { name := "find", resultType := .named [] "String" [], receivers := [.named [] "ID" []] }]

theorem build_outcome_mismatched :
    builtin.extend [] = .ok builtin ∧ builtin.declares builtin.top = false ∧
      builtin.NestedArities ∧ Checked builtin mismatched ∧ Clashing builtin mismatched ∧
      build builtin {} mismatched = .error (.incompatibleResults "find"
        [.named [] "Int" [], .named [] "String" []] (.named [] "Serializable" [])) := by
  have built : build builtin {} mismatched = .error (.incompatibleResults "find"
      [.named [] "Int" [], .named [] "String" []] (.named [] "Serializable" [])) := by cbv
  have outcome :=
    (build_outcome builtin_accepted builtin_sound.topFree builtin_nestedArities {} mismatched).1
  rw [built] at outcome
  cases outcome with
  | clashing checked clash joined free =>
      exact ⟨builtin_accepted, builtin_sound.topFree, builtin_nestedArities, checked, clash,
        built⟩

end Overload.Operation
