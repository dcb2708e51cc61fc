import Overload.Proofs.OperationTypes

/-!
Checked types stay checked. Where the types inside supertypes take their parameters, every entry in
the lineage of a checked type, every join of checked types and every type of an operation is checked
too: no variable of a declaration, no undeclared name and no wrong number of parameters gets out.
-/
namespace Overload.Operation

open Hierarchy TypeExpr

theorem check_annotate (h : Hierarchy) (t : TypeExpr) (as : List Annotation) :
    h.check (t.annotate as) = h.check t :=
  check_setAnnotations h _ t

theorem check_unionOf {h : Hierarchy} {types : List TypeExpr}
    (checked : ∀ t ∈ types, h.check t = .ok ()) : h.check (unionOf types) = .ok () :=
  check_union.mpr (forall_members (fun _ => check_children) checked)

section Building

variable {h : Hierarchy} (sound : h.Sound) (nested : h.NestedArities)
include sound nested

theorem passes_check : Passes h fun t => h.check t = .ok () where
  annotate {t} checked as := (check_annotate h t as).trans checked
  unionOf := check_unionOf
  joinWithin each joined := (passed_check sound nested).joinWithin each joined

theorem check_build {o : Options} {rs : List Resolver} {op : Operation}
    (ok : build h o rs = .ok op) :
    h.check op.resultType = .ok () ∧ ∀ a ∈ op.arguments, h.check a.type = .ok () := by
  have each := (passes_check sound nested).of_build (checked_of_build ok) ok
  obtain ⟨result, _, arguments, _⟩ := forall_types.mp each
  exact ⟨result, arguments⟩

end Building

/-- Checked types have lineages of checked types and joins that are checked types, and the types of
an operation are checked. -/
theorem check_preserved {base h : Hierarchy} {ds : List Declaration}
    (accepted : base.extend ds = .ok h) (topFree : h.declares h.top = false)
    (nested : h.NestedArities) :
    (∀ t, h.check t = .ok () → ∃ l, h.lineage t = .ok l ∧ ∀ e ∈ l, h.check e = .ok ()) ∧
      (∀ types depth, (∀ t ∈ types, h.check t = .ok ()) →
        ∃ j, h.joinWithin types depth = .ok j ∧ h.check j = .ok ()) ∧
      ∀ o rs op, build h o rs = .ok op →
        h.check op.resultType = .ok () ∧ ∀ a ∈ op.arguments, h.check a.type = .ok () := by
  have sound : h.Sound := ⟨validate_of_extend accepted, topFree⟩
  refine ⟨fun t checked => ?_, fun types depth checked => ?_, fun o rs op ok => ?_⟩
  · obtain ⟨l, climbs⟩ := sound.exists_lineage (rooted_of_check checked)
    exact ⟨l, climbs, check_of_mem_lineage sound nested checked climbs⟩
  · exact exists_joinWithin sound nested depth checked
  · exact check_build sound nested ok

/-- Two overloads without arguments. -/
def itemLists : List Resolver :=
  nestedCollections.map fun t => { name := "items", resultType := t }

/-- A `Collection<Collection<Number>>`. -/
def joinedCollections : TypeExpr :=
  .named [] "Collection" [.named [] "Collection" [.named [] "Number" []]]

def items : Operation where
  name := "items"
  resultType := joinedCollections
  receivers := []
  arguments := []
  batched := false
  resolvers := itemLists

theorem check_preserved_collections :
    builtin.extend [] = .ok builtin ∧ builtin.declares builtin.top = false ∧
      builtin.NestedArities ∧ (∀ t ∈ nestedCollections, builtin.check t = .ok ()) ∧
      (∀ t ∈ nestedCollections, ∃ l, builtin.lineage t = .ok l ∧
        ∀ e ∈ l, builtin.check e = .ok ()) ∧
      builtin.joinWithin nestedCollections 2 = .ok joinedCollections ∧
      builtin.check joinedCollections = .ok () ∧
      build builtin {} itemLists = .ok items ∧ builtin.check items.resultType = .ok () := by
  have checked : ∀ t ∈ nestedCollections, builtin.check t = .ok () := by
    simp only [nestedCollections, List.forall_mem_cons]
    exact ⟨by decide +kernel, by decide +kernel, by simp⟩
  have built : build builtin {} itemLists = .ok items := by cbv
  obtain ⟨lineages, joins, operations⟩ :=
    check_preserved builtin_accepted builtin_sound.topFree builtin_nestedArities
  obtain ⟨j, joined, fine⟩ := joins nestedCollections 2 checked
  cases joinWithin_nestedCollections.symm.trans joined
  exact ⟨builtin_accepted, builtin_sound.topFree, builtin_nestedArities, checked,
    fun t ht => lineages t (checked t ht), joined, fine, built,
    (operations {} itemLists items built).1⟩

end Overload.Operation
