import Mathlib.Order.RelClasses
import Overload.Hierarchy.Validity
import Overload.Proofs.Outcome
import Overload.Proofs.Subtype

/-!
The search for cycles. The names done with are kept so that the supertypes of each stand behind it;
a search that comes to its end therefore leaves no name below itself. All names on the path are
below the name visited, so a search that stops has found a name below itself.
-/
namespace Overload.Hierarchy

open Relation

/-- Behind each name stand all names that it extends. -/
inductive Settled (h : Hierarchy) : List String → Prop
  | nil : Settled h []
  | cons {name : String} {done : List String} (above : ∀ s, h.Extends name s → s ∈ done)
      (rest : Settled h done) : Settled h (name :: done)

theorem Settled.acc {h : Hierarchy} {done : List String} (settled : h.Settled done) :
    ∀ n ∈ done, Acc (fun sup sub => h.Extends sub sup) n := by
  induction settled with
  | nil => simp
  | cons above _ ih =>
      intro n hn
      obtain rfl | hn := List.mem_cons.mp hn
      · exact Acc.intro n fun s e => ih s (above s e)
      · exact ih n hn

/-- What a visit does to the names done with: it keeps them, adds its own and leaves all settled. -/
def Settles (h : Hierarchy) (done : List String) (names : List String) (result : List String) :
    Prop :=
  h.Settled done → h.Settled result ∧ done ⊆ result ∧ names ⊆ result

theorem foldlM_settles {h : Hierarchy}
    {visits : List String → String → Except HierarchyError (List String)} {names : List String}
    (each : ∀ n ∈ names, ∀ done result, visits done n = .ok result → h.Settles done [n] result)
    {done result : List String} (ok : names.foldlM visits done = .ok result) :
    h.Settles done names result := by
  induction names generalizing done with
  | nil =>
      cases ok
      exact fun settled => ⟨settled, List.Subset.refl _, List.nil_subset _⟩
  | cons n names ih =>
      rw [List.foldlM_cons, bind_eq_ok] at ok
      obtain ⟨middle, first, rest⟩ := ok
      intro settled
      obtain ⟨settled, kept, own⟩ := each n List.mem_cons_self done middle first settled
      obtain ⟨settled, kept', others⟩ :=
        ih (fun m hm => each m (List.mem_cons_of_mem n hm)) rest settled
      refine ⟨settled, List.Subset.trans kept kept', ?_⟩
      exact List.cons_subset.mpr ⟨kept' (own List.mem_cons_self), others⟩

theorem visit_settles {h : Hierarchy} {depth : Nat} {path done result : List String}
    {name : String} (distinct : path.Nodup) (declared : ∀ p ∈ path, h.declares p = true)
    (fresh : name ∉ path) (room : depth + path.length = h.declarations.length + 1)
    (ok : h.visit depth path done name = .ok result) : h.Settles done [name] result := by
  induction depth generalizing path done name result with
  | zero =>
      -- The path holds distinct declared names, so the depth outlasts it.
      have := length_le_declarations distinct declared
      omega
  | succ depth ih =>
      unfold visit at ok
      split at ok
      · rename_i already
        cases ok
        exact fun settled => ⟨settled, List.Subset.refl _, by simpa using already⟩
      · split at ok
        · simp at ok
        · rename_i clear
          simp only [List.any_eq_true, List.contains_iff_mem, not_exists, not_and] at clear
          obtain ⟨middle, above, finish⟩ := bind_eq_ok.mp ok
          cases finish
          have visited : h.Settles done (h.supernames name).reverse middle := by
            refine foldlM_settles (fun s hs before after visit => ?_) above
            have e : h.Extends name s := List.mem_reverse.mp hs
            refine ih (List.nodup_cons.mpr ⟨fresh, distinct⟩) ?_ (clear s e) ?_ visit
            · intro p hp
              obtain rfl | hp := List.mem_cons.mp hp
              · exact e.declared
              · exact declared p hp
            · rw [List.length_cons]
              omega
          intro settled
          obtain ⟨settled, kept, supers⟩ := visited settled
          refine ⟨.cons (fun s e => supers (List.mem_reverse.mpr e)) settled, ?_, by simp⟩
          exact List.Subset.trans kept (List.subset_cons_self name middle)

/-- Going up along supertypes comes to an end. -/
theorem wellFounded_of_validateAcyclic {h : Hierarchy} (ok : h.validateAcyclic = .ok ()) :
    WellFounded fun sup sub => h.Extends sub sup := by
  obtain ⟨done, visited, _⟩ := bind_eq_ok.mp ok
  have settles : h.Settles [] (h.declarations.map Declaration.name) done := by
    refine foldlM_settles (fun n _ before after visit => ?_) visited
    exact visit_settles List.nodup_nil (by simp) List.not_mem_nil (by simp) visit
  obtain ⟨settled, _, all⟩ := settles .nil
  refine ⟨fun n => ?_⟩
  by_cases declared : h.declares n = true
  · exact settled.acc n (all (declares_iff_mem.mp declared))
  · exact Acc.intro n fun s e => absurd e.declared declared

theorem no_cycle {h : Hierarchy} (ok : h.validateAcyclic = .ok ()) (n : String) :
    ¬ TransGen h.Extends n n := by
  intro cycle
  have wf := (wellFounded_of_validateAcyclic ok).transGen
  have back : TransGen (fun sup sub => h.Extends sub sup) n n := transGen_swap.mpr cycle
  exact wf.asymmetric n n back back

theorem exists_visit {h : Hierarchy} (acyclic : ∀ n, ¬ TransGen h.Extends n n) {depth : Nat}
    {path : List String} {name : String} (below : ∀ p ∈ path, TransGen h.Extends p name)
    (done : List String) : ∃ result, h.visit depth path done name = .ok result := by
  induction depth generalizing path done name with
  | zero => exact ⟨done, rfl⟩
  | succ depth ih =>
      have clear : ∀ s, h.Extends name s → s ∉ name :: path := by
        intro s e again
        obtain rfl | again := List.mem_cons.mp again
        · exact acyclic s (.single e)
        · exact acyclic s ((below s again).tail e)
      have supers : ∀ s ∈ (h.supernames name).reverse, ∀ before,
          ∃ after, h.visit depth (name :: path) before s = .ok after := by
        intro s hs before
        have e : h.Extends name s := List.mem_reverse.mp hs
        refine ih (fun p hp => ?_) before
        obtain rfl | hp := List.mem_cons.mp hp
        · exact .single e
        · exact (below p hp).tail e
      unfold visit
      split
      · exact ⟨done, rfl⟩
      · rw [if_neg]
        · obtain ⟨middle, above⟩ := exists_foldlM_eq_ok supers done
          exact ⟨name :: middle, by rw [above]; rfl⟩
        · intro closes
          obtain ⟨s, e, again⟩ := List.any_eq_true.mp closes
          exact clear s e (List.contains_iff_mem.mp again)

theorem validateAcyclic_eq_ok {h : Hierarchy} :
    h.validateAcyclic = .ok () ↔ ∀ n, ¬ TransGen h.Extends n n := by
  constructor
  · exact no_cycle
  · intro acyclic
    have visits : ∀ n ∈ h.declarations.map Declaration.name, ∀ done,
        ∃ result, h.visit (h.declarations.length + 1) [] done n = .ok result :=
      fun n _ done => exists_visit acyclic (by simp) done
    obtain ⟨done, visited⟩ := exists_foldlM_eq_ok visits []
    rw [validateAcyclic, bind_eq_ok]
    exact ⟨done, visited, rfl⟩

end Overload.Hierarchy
