import Overload.Proofs.JoinAbsorption
import Overload.Proofs.Rejection

/-!
What the depth of a join decides. With less depth the same ancestor is found, and only parameters
are lost: at some places inside the join an open parameter stands for a type. So the name of a join
does not depend on the depth, nor does the verdict on the results of resolvers.
-/
namespace Overload

namespace TypeExpr

mutual

/-- The first type is the second one with some of its parameters, at any depth, left open. The type
itself is not open in place of the other. -/
inductive Looser : TypeExpr → TypeExpr → Prop
  | refl (t : TypeExpr) : Looser t t
  | params {as : List Annotation} {name : String} {ps qs : List TypeExpr}
      (each : List.Forall₂ LooserParam ps qs) : Looser (.named as name ps) (.named as name qs)

inductive LooserParam : TypeExpr → TypeExpr → Prop
  | opened (q : TypeExpr) : LooserParam (.wildcard []) q
  | kept {p q : TypeExpr} (looser : Looser p q) : LooserParam p q

end

theorem Looser.name? {t u : TypeExpr} (looser : Looser t u) : t.name? = u.name? := by
  cases looser <;> rfl

end TypeExpr

namespace Hierarchy

open TypeExpr

theorem isContentFree_of_looser {h : Hierarchy} {t u : TypeExpr} (looser : Looser t u) :
    h.isContentFree t = h.isContentFree u := by
  cases looser <;> rfl

/-- One way to join columns succeeds where the other does, with the same result or a looser one. -/
def JoinsLooser (join join' : List TypeExpr → Except HierarchyError TypeExpr) : Prop :=
  ∀ column q, join' column = .ok q → ∃ p, join column = .ok p ∧ LooserParam p q

variable {h : Hierarchy}

theorem joinBy_looser {onColumn onColumn' : List TypeExpr → Except HierarchyError TypeExpr}
    (onColumns : JoinsLooser onColumn onColumn') {types : List TypeExpr} {j' : TypeExpr}
    (joined : h.joinBy onColumn' types = .ok j') :
    ∃ j, h.joinBy onColumn types = .ok j ∧ Looser j j' := by
  simp only [joinBy_eq_ok] at joined ⊢
  cases joined with
  | nothing none => exact ⟨_, .nothing none, .refl _⟩
  | agreed agree => exact ⟨_, .agreed agree, .refl _⟩
  | opened differ wild => exact ⟨_, .opened differ wild, .refl _⟩
  | unshared some differ closed climbs unchosen =>
      exact ⟨_, .unshared some differ closed climbs unchosen, .refl _⟩
  | ancestor some differ closed climbs chosen joined =>
      obtain ⟨params, joined', looser⟩ := exists_between joined onColumns
      exact ⟨_, .ancestor some differ closed climbs chosen joined', .params looser⟩

theorem joinsLooser_of_differ {depth depth' : Nat}
    (step : ∀ column q, agreed? column = none → h.joinColumn depth' column = .ok q →
      ∃ p, h.joinColumn depth column = .ok p ∧ LooserParam p q) :
    JoinsLooser (h.joinColumn depth) (h.joinColumn depth') := by
  intro column q ok
  cases agree : agreed? column with
  | none => exact step column q agree ok
  | some t =>
      cases (joinColumn_of_agreed agree).symm.trans ok
      exact ⟨q, joinColumn_of_agreed agree, .kept (.refl q)⟩

/-- Where the depth runs out, or an inner join has no content, the parameter is open. -/
theorem joinColumn_looser {depth depth' : Nat} (less : depth ≤ depth') :
    JoinsLooser (h.joinColumn depth) (h.joinColumn depth') := by
  induction depth generalizing depth' with
  | zero =>
      apply joinsLooser_of_differ
      intro column q differ _
      exact ⟨.wildcard [], by rw [joinColumn, differ]; rfl, .opened q⟩
  | succ depth ih =>
      apply joinsLooser_of_differ
      intro column q differ ok
      cases depth' with
      | zero => omega
      | succ depth' =>
          obtain ⟨u, joined, rfl⟩ := (joinColumn_succ_eq_ok differ).mp ok
          obtain ⟨t, joined', looser⟩ := joinBy_looser (ih (by omega)) joined
          refine ⟨_, (joinColumn_succ_eq_ok differ).mpr ⟨t, joined', rfl⟩, ?_⟩
          rw [isContentFree_of_looser looser]
          split
          · exact .opened _
          · exact .kept looser

end Hierarchy

namespace Operation

open Hierarchy TypeExpr

variable {h : Hierarchy} {o : Options} {name : String} {rs : List Resolver}

/-- With a join at hand the results are rejected if it has no content and no union is asked for. -/
theorem rejected_iff {j : TypeExpr}
    (joined : h.joinWithin (rs.map (·.resultType)) o.maxJoinDepth = .ok j) :
    Rejected h o name rs ↔
      (∀ r ∈ rs, r.unionSource = false) ∧ h.isContentFree j = true := by
  by_cases joins : ∀ r ∈ rs, r.unionSource = false
  · rw [Rejected, unifyResults_of_joins joins, joined, and_iff_right joins]
    cases free : h.isContentFree j <;> simp [free]
  · have united : rs.any (·.unionSource) = true := by simpa using joins
    simp [Rejected, unifyResults, united, joins]

end Operation

namespace Hierarchy

open TypeExpr Operation

/-- At less depth types have a join, too. It is the same one with some parameters left open, so it
has the same name and as much content, and resolvers with these results are rejected at both depths
or at neither. -/
theorem join_atDepth {h : Hierarchy} {types : List TypeExpr} {depth depth' : Nat}
    (less : depth ≤ depth') {j' : TypeExpr} (joined : h.joinWithin types depth' = .ok j') :
    (∃ j, h.joinWithin types depth = .ok j ∧ Looser j j' ∧ j.name? = j'.name? ∧
      h.isContentFree j = h.isContentFree j') ∧
    ∀ (order : ArgumentOrder) (name : String) (rs : List Resolver),
      rs.map (·.resultType) = types →
        (Rejected h ⟨depth, order⟩ name rs ↔ Rejected h ⟨depth', order⟩ name rs) := by
  obtain ⟨j, joined', looser⟩ := joinBy_looser (joinColumn_looser less) joined
  have content := isContentFree_of_looser (h := h) looser
  refine ⟨⟨j, joined', looser, looser.name?, content⟩, ?_⟩
  rintro order name rs rfl
  rw [rejected_iff (o := ⟨depth, order⟩) joined', rejected_iff (o := ⟨depth', order⟩) joined,
    content]

/-- At depth one the inner collections of the two collections are joined, their parameters are not.
-/
theorem join_atDepth_collections :
    1 ≤ 2 ∧ builtin.joinWithin nestedCollections 2 =
        .ok (.named [] "Collection" [.named [] "Collection" [.named [] "Number" []]]) ∧
      (∃ j, builtin.joinWithin nestedCollections 1 = .ok j ∧
        Looser j (.named [] "Collection" [.named [] "Collection" [.named [] "Number" []]])) ∧
      (Rejected builtin ⟨1, .firstOccurrence⟩ "items"
          (nestedCollections.map fun t => { name := "items", resultType := t }) ↔
        Rejected builtin ⟨2, .firstOccurrence⟩ "items"
          (nestedCollections.map fun t => { name := "items", resultType := t })) := by
  have less : 1 ≤ 2 := by omega
  obtain ⟨⟨j, joined, looser, _⟩, verdict⟩ := join_atDepth less joinWithin_nestedCollections
  exact ⟨less, joinWithin_nestedCollections, ⟨j, joined, looser⟩,
    verdict .firstOccurrence "items" _ rfl⟩

end Hierarchy

end Overload
