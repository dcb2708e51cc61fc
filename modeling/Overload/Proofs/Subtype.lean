import Mathlib.Data.List.Perm.Subperm
import Mathlib.Logic.Relation
import Overload.Hierarchy.Basic
import Overload.Proofs.Lists

/-!
Subtyping of names against the declared supertypes. The search meets exactly the declared names on
chains of supertypes, so a name is a subtype of itself, of the top type and of what such a chain
leads to.
-/
namespace Overload.Hierarchy

open Relation

theorem mem_of_get? {h : Hierarchy} {name : String} {d : Declaration}
    (found : h.get? name = some d) : d ∈ h.declarations :=
  List.mem_of_find?_eq_some found

theorem declaration_eq_ok {h : Hierarchy} {name : String} {d : Declaration} :
    h.declaration name = .ok d ↔ h.get? name = some d := by
  unfold declaration
  cases h.get? name <;> simp

theorem declares_iff_get? {h : Hierarchy} {name : String} :
    h.declares name = true ↔ ∃ d, h.get? name = some d :=
  Option.isSome_iff_exists

theorem get?_eq_none_iff {h : Hierarchy} {name : String} :
    h.get? name = none ↔ h.declares name = false := by
  rw [declares, Option.isSome_eq_false_iff, Option.isNone_iff_eq_none]

theorem declares_iff_mem {h : Hierarchy} {name : String} :
    h.declares name = true ↔ name ∈ h.declarations.map Declaration.name := by
  simp [declares, get?, findKey?, List.find?_isSome]

theorem length_le_declarations {h : Hierarchy} {names : List String} (distinct : names.Nodup)
    (declared : ∀ n ∈ names, h.declares n = true) : names.length ≤ h.declarations.length := by
  have sub : names ⊆ h.declarations.map Declaration.name :=
    fun n hn => declares_iff_mem.mp (declared n hn)
  simpa using (distinct.subperm sub).length_le

/-- The name of a declared supertype. -/
def Extends (h : Hierarchy) (sub sup : String) : Prop := sup ∈ h.supernames sub

theorem extends_iff {h : Hierarchy} {sub sup : String} :
    h.Extends sub sup ↔
      ∃ d, h.get? sub = some d ∧ ∃ t ∈ d.supertypes, t.name? = some sup := by
  unfold Extends supernames
  cases h.get? sub with
  | none => simp
  | some d => simp [List.mem_filterMap]

theorem Extends.declared {h : Hierarchy} {sub sup : String} (e : h.Extends sub sup) :
    h.declares sub = true := by
  obtain ⟨d, found, _⟩ := extends_iff.mp e
  exact declares_iff_get?.mpr ⟨d, found⟩

theorem reach_sound {h : Hierarchy} {rounds : Nat} {unseen pending : List String} {n : String}
    (hn : n ∈ h.reach rounds unseen pending) :
    n ∈ unseen ∧ ∃ p ∈ pending, ReflTransGen h.Extends p n := by
  induction rounds generalizing unseen pending with
  | zero => simp [reach] at hn
  | succ rounds ih =>
      unfold reach at hn
      split at hn
      · simp at hn
      · rename_i name rest dropped
        obtain ⟨passed, rfl, _, met⟩ := eq_append_of_dropWhile dropped
        obtain rfl | hn := List.mem_cons.mp hn
        · exact ⟨by simpa using met, n, by simp, .refl⟩
        · obtain ⟨inside, p, hp, chain⟩ := ih hn
          refine ⟨List.mem_of_mem_erase inside, ?_⟩
          obtain up | later := List.mem_append.mp hp
          · exact ⟨name, by simp, chain.head up⟩
          · exact ⟨p, by simp [later], chain⟩

/-- With a round for each unseen name, the search meets the pending names and all that the met ones
extend, as far as they are unseen. -/
theorem reach_closed (h : Hierarchy) (rounds : Nat) (unseen pending : List String)
    (enough : unseen.length ≤ rounds) :
    (∀ p ∈ pending, p ∈ unseen → p ∈ h.reach rounds unseen pending) ∧
      ∀ n ∈ h.reach rounds unseen pending, ∀ m, h.Extends n m → m ∈ unseen →
        m ∈ h.reach rounds unseen pending := by
  induction rounds generalizing unseen pending with
  | zero =>
      have none : unseen = [] := List.eq_nil_of_length_eq_zero (Nat.le_zero.mp enough)
      simp [none, reach]
  | succ rounds ih =>
      unfold reach
      split
      · rename_i dropped
        have seen := List.dropWhile_eq_nil_iff.mp dropped
        exact ⟨fun p hp hu => by simpa [hu] using seen p hp, by simp⟩
      · rename_i name rest dropped
        obtain ⟨passed, rfl, seen, met⟩ := eq_append_of_dropWhile dropped
        have fewer : (unseen.erase name).length ≤ rounds := by
          rw [List.length_erase_of_mem (by simpa using met)]
          omega
        obtain ⟨meets, closed⟩ := ih _ (h.supernames name ++ rest) fewer
        have still : ∀ m ∈ unseen, m ≠ name → m ∈ unseen.erase name :=
          fun m hu other => (List.mem_erase_of_ne other).mpr hu
        refine ⟨fun p hp hu => ?_, fun n hn m e hu => ?_⟩
        · by_cases same : p = name
          · exact same ▸ List.mem_cons_self
          · have fresh : p ∉ passed := fun inside => by simpa [hu] using seen p inside
            have later : p ∈ rest := by simpa [fresh, same] using hp
            exact List.mem_cons_of_mem name
              (meets p (List.mem_append_right _ later) (still p hu same))
        · by_cases same : m = name
          · exact same ▸ List.mem_cons_self
          · refine List.mem_cons_of_mem name ?_
            obtain rfl | hn := List.mem_cons.mp hn
            · exact meets m (List.mem_append_left _ e) (still m hu same)
            · exact closed n hn m e (still m hu same)

theorem mem_reachable {h : Hierarchy} {a n : String} (declared : h.declares n = true) :
    n ∈ h.reachable a ↔ ReflTransGen h.Extends a n := by
  constructor
  · intro hn
    obtain ⟨_, p, hp, chain⟩ := reach_sound hn
    rwa [List.mem_singleton.mp hp] at chain
  · intro chain
    obtain ⟨meets, closed⟩ := reach_closed h h.declarations.length
      (h.declarations.map Declaration.name) [a] (by simp)
    induction chain with
    | refl => exact meets a List.mem_cons_self (declares_iff_mem.mp declared)
    | tail _ e ih => exact closed _ (ih e.declared) _ e (declares_iff_mem.mp declared)

theorem isSubtypeName_iff {h : Hierarchy} {sub sup : String} :
    h.isSubtypeName sub sup = true ↔
      sub = sup ∨ sup = h.top ∨ TransGen h.Extends sub sup := by
  simp only [isSubtypeName, Bool.or_eq_true, beq_iff_eq, or_assoc, List.any_eq_true,
    List.contains_iff_mem]
  refine or_congr_right (or_congr_right ?_)
  rw [TransGen.tail'_iff]
  constructor
  · intro step
    obtain ⟨n, hn, e⟩ := step
    exact ⟨n, (mem_reachable (Extends.declared e)).mp hn, e⟩
  · intro step
    obtain ⟨n, chain, e⟩ := step
    exact ⟨n, (mem_reachable (Extends.declared e)).mpr chain, e⟩

end Overload.Hierarchy
