import Mathlib.Logic.Function.Basic
import Overload.Proofs.Acyclic

/-!
The search for cycles by rounds over a stack of names. A name is marked when it comes off the stack
and not when it is put there, so it can stand there several times. Each round leaves less to do, and
the search ends like the one that visits names by recursion: the names being visited are those on
its path, and a name that was put on the stack again is done by the time it comes off. Both report a
cycle exactly where a name leads back to itself, and they name it.
-/
namespace Overload.Hierarchy

open Relation

/-- How far the search has come with a name. -/
inductive Mark where
  | visiting
  | done

/-- What is left of the search: the names to start from, and a stack of names, each with whether its
supertypes have been put on the stack above it. -/
structure CycleSearch where
  roots : List String
  stack : List (String × Bool) := []
  marks : String → Option Mark := fun _ => none

namespace CycleSearch

/-- Puts names on the stack but for those that are done, if none is being visited. -/
def push (marks : String → Option Mark) :
    List String → List (String × Bool) → Option (List (String × Bool))
  | [], stack => some stack
  | name :: names, stack =>
      match marks name with
      | some .visiting => none
      | some .done => push marks names stack
      | none => push marks names ((name, false) :: stack)

/-- One round, or nothing when the search has come to its end. -/
def step (h : Hierarchy) (s : CycleSearch) : Except HierarchyError (Option CycleSearch) :=
  match s.stack with
  | [] =>
      match s.roots with
      | [] => .ok none
      | root :: roots =>
          match s.marks root with
          | some _ => .ok (some { s with roots })
          | none => .ok (some { s with roots, stack := [(root, false)] })
  | (name, true) :: stack =>
      .ok (some { s with stack, marks := Function.update s.marks name (some .done) })
  | (name, false) :: stack =>
      match s.marks name with
      | some .done => .ok (some { s with stack })
      | some .visiting => .error (.cyclic name)
      | none =>
          let marks := Function.update s.marks name (some .visiting)
          match push marks (h.supernames name) ((name, true) :: stack) with
          | some stack => .ok (some { s with stack, marks })
          | none => .error (.cyclic name)

/-- What the supertypes of names that are not marked can add to the stack. -/
def pending (h : Hierarchy) (marks : String → Option Mark) : List String → Nat
  | [] => 0
  | n :: names =>
      (if (marks n).isNone then 2 * (h.supernames n).length else 0) + pending h marks names

def load : List (String × Bool) → Nat
  | [] => 0
  | (_, expanded) :: stack => (if expanded then 1 else 2) + load stack

/-- How many rounds there can still be. -/
def work (h : Hierarchy) (s : CycleSearch) : Nat :=
  pending h s.marks (h.declarations.map Declaration.name) + load s.stack + 3 * s.roots.length

variable {h : Hierarchy}

theorem pending_update_le (marks : String → Option Mark) (name : String) (mark : Mark)
    (names : List String) :
    pending h (Function.update marks name (some mark)) names ≤ pending h marks names := by
  induction names with
  | nil => exact Nat.le_refl _
  | cons n names ih =>
      refine Nat.add_le_add ?_ ih
      by_cases same : n = name
      · rw [same, Function.update_self]
        exact Nat.zero_le _
      · rw [Function.update_of_ne same]

theorem pending_update {marks : String → Option Mark} {name : String} (new : marks name = none)
    (mark : Mark) {names : List String} (member : name ∈ names) :
    pending h (Function.update marks name (some mark)) names + 2 * (h.supernames name).length ≤
      pending h marks names := by
  induction names with
  | nil => exact absurd member List.not_mem_nil
  | cons n names ih =>
      have rest := pending_update_le (h := h) marks name mark names
      rw [pending, pending]
      by_cases same : n = name
      · subst same
        simp only [Function.update_self, new, Option.isNone_some, Option.isNone_none,
          Bool.false_eq_true, if_false, if_true]
        omega
      · have later := ih ((List.mem_cons.mp member).resolve_left (Ne.symm same))
        rw [Function.update_of_ne same]
        omega

theorem load_push {marks : String → Option Mark} {names : List String}
    {stack stack' : List (String × Bool)} (pushed : push marks names stack = some stack') :
    load stack' ≤ load stack + 2 * names.length := by
  induction names generalizing stack with
  | nil =>
      cases pushed
      exact Nat.le_add_right _ _
  | cons name names ih =>
      rw [List.length_cons]
      rw [push] at pushed
      split at pushed
      · cases pushed
      · have := ih pushed
        omega
      · have := ih pushed
        rw [load, if_neg Bool.false_ne_true] at this
        omega

theorem work_lt {s s' : CycleSearch} (next : s.step h = .ok (some s')) : s'.work h < s.work h := by
  obtain ⟨roots, stack, marks⟩ := s
  simp only [step] at next
  split at next
  · split at next
    · cases next
    · split at next
      · cases next
        simp only [work, List.length_cons]
        omega
      · cases next
        simp only [work, List.length_cons, load, Bool.false_eq_true, if_false]
        omega
  · rename_i name rest
    cases next
    have := pending_update_le (h := h) marks name .done (h.declarations.map Declaration.name)
    simp only [work, load, if_true]
    omega
  · rename_i name rest
    split at next
    · cases next
      simp only [work, load, Bool.false_eq_true, if_false]
      omega
    · cases next
    · rename_i new
      split at next
      · rename_i stack' pushed
        cases next
        have pushed := load_push pushed
        rw [load, if_pos rfl] at pushed
        simp only [work, load, Bool.false_eq_true, if_false]
        by_cases declared : h.declares name = true
        · have := pending_update (h := h) new .visiting (declares_iff_mem.mp declared)
          omega
        · -- A name that is not declared has no supertypes to put on the stack.
          have none : h.supernames name = [] := by
            rw [supernames, get?_eq_none_iff.mpr (by simpa using declared)]
          have := pending_update_le (h := h) marks name .visiting
            (h.declarations.map Declaration.name)
          rw [none, List.length_nil] at pushed
          omega
      · cases next

/-- The search to its end. -/
def run (h : Hierarchy) (s : CycleSearch) : Except HierarchyError Unit :=
  match _next : s.step h with
  | .error e => .error e
  | .ok none => .ok ()
  | .ok (some s') => run h s'
termination_by s.work h
decreasing_by exact work_lt _next

theorem run_of_error {s : CycleSearch} {e : HierarchyError} (next : s.step h = .error e) :
    s.run h = .error e := by
  rw [run]
  split <;> simp_all

theorem run_of_end {s : CycleSearch} (next : s.step h = .ok none) : s.run h = .ok () := by
  rw [run]
  split <;> simp_all

theorem run_of_step {s s' : CycleSearch} (next : s.step h = .ok (some s')) :
    s.run h = s'.run h := by
  rw [run]
  split <;> simp_all

/-- Every name that waits on the stack while it is being visited stands below the place where its
visit ends, or is one of those whose visits end before. -/
def Waits (marks : String → Option Mark) : List String → List (String × Bool) → Prop
  | _, [] => True
  | ended, (name, true) :: stack => Waits marks (name :: ended) stack
  | ended, (name, false) :: stack =>
      (marks name = some .visiting → name ∈ ended) ∧ Waits marks ended stack

theorem Waits.imp {marks marks' : String → Option Mark} {ended ended' : List String}
    {stack : List (String × Bool)} (waits : Waits marks ended stack)
    (step : ∀ n, marks' n = some .visiting → (marks n = some .visiting → n ∈ ended) → n ∈ ended') :
    Waits marks' ended' stack := by
  induction stack generalizing ended ended' with
  | nil => trivial
  | cons entry stack ih =>
      obtain ⟨name, _ | _⟩ := entry
      · exact ⟨fun visiting => step name visiting waits.1, ih waits.2 step⟩
      · refine @ih _ (name :: ended') waits fun n visiting before => ?_
        by_cases same : n = name
        · exact List.mem_cons.mpr (.inl same)
        · refine List.mem_cons_of_mem name (step n visiting fun visiting => ?_)
          exact (List.mem_cons.mp (before visiting)).resolve_left same

theorem Waits.push {marks : String → Option Mark} {names : List String}
    {stack stack' : List (String × Bool)} (waits : Waits marks [] stack)
    (pushed : CycleSearch.push marks names stack = some stack') : Waits marks [] stack' := by
  induction names generalizing stack with
  | nil =>
      cases pushed
      exact waits
  | cons name names ih =>
      rw [CycleSearch.push] at pushed
      split at pushed
      · cases pushed
      · exact ih waits pushed
      · rename_i unmarked
        have waits : Waits marks [] ((name, false) :: stack) := ⟨by simp [unmarked], waits⟩
        exact ih waits pushed

theorem Waits.step {s s' : CycleSearch} (waits : Waits s.marks [] s.stack)
    (next : s.step h = .ok (some s')) : Waits s'.marks [] s'.stack := by
  obtain ⟨roots, stack, marks⟩ := s
  simp only [CycleSearch.step] at next
  split at next
  · split at next
    · cases next
    · split at next
      · cases next
        exact waits
      · rename_i unmarked
        cases next
        exact ⟨by simp [unmarked], trivial⟩
  · rename_i name stack
    cases next
    have waits : Waits marks [name] stack := waits
    refine waits.imp fun n visiting before => ?_
    by_cases same : n = name
    · simp [same] at visiting
    · have kept := (Function.update_of_ne same _ marks).symm.trans visiting
      exact absurd (List.mem_singleton.mp (before kept)) same
  · rename_i name stack
    split at next
    · cases next
      exact waits.2
    · cases next
    · split at next
      · rename_i pushed
        cases next
        suffices waits : Waits _ [] ((name, true) :: stack) from waits.push pushed
        have rest : Waits marks [] stack := waits.2
        refine @Waits.imp _ _ _ [name] _ rest fun n visiting before => ?_
        by_cases same : n = name
        · exact List.mem_singleton.mpr same
        · have kept := (Function.update_of_ne same _ marks).symm.trans visiting
          exact absurd (before kept) List.not_mem_nil
      · cases next

/-- The search from all declared names. -/
def start (h : Hierarchy) : CycleSearch := { roots := h.declarations.map Declaration.name }

/-- One search comes to another by some rounds. -/
def Rounds (h : Hierarchy) : CycleSearch → CycleSearch → Prop :=
  ReflTransGen fun s s' => s.step h = .ok (some s')

theorem waits_of_rounds {s : CycleSearch} (rounds : Rounds h (start h) s) :
    Waits s.marks [] s.stack := by
  induction rounds with
  | refl => trivial
  | tail _ next ih => exact ih.step next

theorem visit_of_mem {depth : Nat} {path done : List String} {name : String} (old : name ∈ done) :
    h.visit depth path done name = .ok done := by
  cases depth with
  | zero => rfl
  | succ depth => rw [visit, if_pos old]

theorem subset_of_visits {names : List String}
    {visits : List String → String → Except HierarchyError (List String)}
    (keeps : ∀ n ∈ names, ∀ done result, visits done n = .ok result → done ⊆ result)
    {done result : List String} (visited : names.foldlM visits done = .ok result) :
    done ⊆ result := by
  induction names generalizing done with
  | nil =>
      cases visited
      exact List.Subset.refl _
  | cons n names ih =>
      obtain ⟨first, others⟩ := List.forall_mem_cons.mp keeps
      rw [List.foldlM_cons, bind_eq_ok] at visited
      obtain ⟨middle, visited, rest⟩ := visited
      exact List.Subset.trans (first done middle visited) (ih others rest)

theorem subset_of_visit {depth : Nat} {path done result : List String} {name : String}
    (visited : h.visit depth path done name = .ok result) : done ⊆ result := by
  induction depth generalizing path done name result with
  | zero =>
      cases visited
      exact List.Subset.refl _
  | succ depth ih =>
      rw [visit] at visited
      split at visited
      · cases visited
        exact List.Subset.refl _
      · split at visited
        · cases visited
        · obtain ⟨middle, above, finish⟩ := bind_eq_ok.mp visited
          cases finish
          have kept : done ⊆ middle := subset_of_visits (fun n _ _ _ => ih) above
          exact List.Subset.trans kept (List.subset_cons_self name middle)

/-- The marks while the names on a path are being visited and others are done. -/
def marksOf (path done : List String) : String → Option Mark := fun n =>
  if n ∈ path then some .visiting else if n ∈ done then some .done else none

theorem marksOf_visiting (path done : List String) (name : String) :
    Function.update (marksOf path done) name (some .visiting) = marksOf (name :: path) done := by
  funext n
  by_cases same : n = name
  · simp [same, marksOf]
  · rw [Function.update_of_ne same]
    simp only [marksOf, List.mem_cons, same, false_or]

theorem marksOf_done {path : List String} {name : String} (fresh : name ∉ path)
    (done : List String) :
    Function.update (marksOf (name :: path) done) name (some .done) =
      marksOf path (name :: done) := by
  funext n
  by_cases same : n = name
  · simp [same, marksOf, fresh]
  · rw [Function.update_of_ne same]
    simp only [marksOf, List.mem_cons, same, false_or]

/-- The entries of names that are yet to be visited. -/
def entries (names done : List String) : List (String × Bool) :=
  (names.filter (· ∉ done)).map (·, false)

theorem push_marksOf (path done names : List String) (stack : List (String × Bool)) :
    push (marksOf path done) names stack =
      if names.any path.contains then none else some (entries names.reverse done ++ stack) := by
  induction names generalizing stack with
  | nil => rfl
  | cons name names ih =>
      rw [push, marksOf, List.any_cons]
      by_cases cycle : name ∈ path
      · simp [cycle]
      · by_cases old : name ∈ done
        · simp [cycle, old, ih, entries, List.filter_append]
        · simp [cycle, old, ih, entries, List.filter_append]

/-- A way to visit names does what the rounds do with an entry of its own. -/
def Follows (h : Hierarchy) (path : List String)
    (visits : List String → String → Except HierarchyError (List String)) (name : String) : Prop :=
  ∀ roots stack done, run h ⟨roots, (name, false) :: stack, marksOf path done⟩ =
    visits done name >>= fun done => run h ⟨roots, stack, marksOf path done⟩

theorem run_entries {path names : List String}
    {visits : List String → String → Except HierarchyError (List String)}
    (follows : ∀ n ∈ names, Follows h path visits n)
    (idle : ∀ n ∈ names, ∀ done, n ∈ done → visits done n = .ok done)
    (keeps : ∀ n ∈ names, ∀ done result, visits done n = .ok result → done ⊆ result)
    {old done : List String} (known : old ⊆ done) (roots : List String)
    (stack : List (String × Bool)) :
    run h ⟨roots, entries names old ++ stack, marksOf path done⟩ =
      names.foldlM visits done >>= fun done => run h ⟨roots, stack, marksOf path done⟩ := by
  induction names generalizing done with
  | nil => rfl
  | cons n names ih =>
      obtain ⟨first, follows⟩ := List.forall_mem_cons.mp follows
      obtain ⟨idle', idle⟩ := List.forall_mem_cons.mp idle
      obtain ⟨keeps', keeps⟩ := List.forall_mem_cons.mp keeps
      have later {done : List String} := @ih follows idle keeps done
      rw [List.foldlM_cons]
      by_cases done_already : n ∈ old
      · have same : entries (n :: names) old = entries names old := by
          simp [entries, done_already]
        rw [same, idle' done (known done_already)]
        exact later known
      · have front : entries (n :: names) old = (n, false) :: entries names old := by
          simp [entries, done_already]
        rw [front, List.cons_append, first]
        cases visited : visits done n with
        | error e => rfl
        | ok middle => exact later (List.Subset.trans known (keeps' done middle visited))

theorem run_visit {depth : Nat} {path : List String} {name : String} (distinct : path.Nodup)
    (declared : ∀ p ∈ path, h.declares p = true) (fresh : name ∉ path)
    (room : depth + path.length = h.declarations.length + 1) :
    Follows h path (h.visit depth path) name := by
  induction depth generalizing path name with
  | zero =>
      have := length_le_declarations distinct declared
      omega
  | succ depth ih =>
      intro roots stack done
      by_cases old : name ∈ done
      · have skipped : step h ⟨roots, (name, false) :: stack, marksOf path done⟩ =
            .ok (some ⟨roots, stack, marksOf path done⟩) := by
          simp [step, marksOf, fresh, old]
        rw [run_of_step skipped, visit_of_mem old]
        rfl
      · have unmarked : marksOf path done name = none := by simp [marksOf, fresh, old]
        rw [visit, if_neg old]
        by_cases cycle : (h.supernames name).any (name :: path).contains = true
        · have stopped : step h ⟨roots, (name, false) :: stack, marksOf path done⟩ =
              .error (.cyclic name) := by
            simp [step, unmarked, marksOf_visiting, push_marksOf, cycle]
          rw [run_of_error stopped, if_pos cycle]
          rfl
        · have expanded : step h ⟨roots, (name, false) :: stack, marksOf path done⟩ =
              .ok (some ⟨roots, entries (h.supernames name).reverse done ++ (name, true) :: stack,
                marksOf (name :: path) done⟩) := by
            simp [step, unmarked, marksOf_visiting, push_marksOf, cycle]
          -- Only declared names have supertypes, so the path that they lengthen is declared.
          have follows : ∀ s ∈ (h.supernames name).reverse,
              Follows h (name :: path) (h.visit depth (name :: path)) s := by
            intro s hs
            have e : h.Extends name s := List.mem_reverse.mp hs
            refine ih (List.nodup_cons.mpr ⟨fresh, distinct⟩)
              (List.forall_mem_cons.mpr ⟨e.declared, declared⟩) (fun again => cycle ?_) ?_
            · exact List.any_eq_true.mpr ⟨s, e, List.contains_iff_mem.mpr again⟩
            · rw [List.length_cons]
              omega
          rw [run_of_step expanded, if_neg cycle, run_entries follows
            (fun _ _ _ => visit_of_mem) (fun _ _ _ _ => subset_of_visit) (List.Subset.refl done)]
          cases (h.supernames name).reverse.foldlM (h.visit depth (name :: path)) done with
          | error e => rfl
          | ok done =>
              have finished : step h ⟨roots, (name, true) :: stack, marksOf (name :: path) done⟩ =
                  .ok (some ⟨roots, stack, marksOf path (name :: done)⟩) := by
                simp [step, marksOf_done fresh]
              exact run_of_step finished

theorem run_roots {depth : Nat} (room : depth = h.declarations.length + 1)
    (roots done : List String) :
    run h ⟨roots, [], marksOf [] done⟩ =
      roots.foldlM (h.visit depth []) done >>= fun _ => .ok () := by
  induction roots generalizing done with
  | nil => exact run_of_end rfl
  | cons root roots ih =>
      rw [List.foldlM_cons]
      by_cases old : root ∈ done
      · have skipped : step h ⟨root :: roots, [], marksOf [] done⟩ =
            .ok (some ⟨roots, [], marksOf [] done⟩) := by
          simp [step, marksOf, old]
        rw [run_of_step skipped, visit_of_mem old]
        exact ih done
      · have started : step h ⟨root :: roots, [], marksOf [] done⟩ =
            .ok (some ⟨roots, [(root, false)], marksOf [] done⟩) := by
          simp [step, marksOf, old]
        rw [run_of_step started,
          run_visit List.nodup_nil (by simp) List.not_mem_nil (by simpa using room)]
        cases h.visit depth [] done root with
        | error e => rfl
        | ok middle => exact ih middle

end CycleSearch

/-- The search for cycles by rounds. -/
def searchCycles (h : Hierarchy) : Except HierarchyError Unit := (CycleSearch.start h).run h

theorem searchCycles_eq (h : Hierarchy) : h.searchCycles = h.validateAcyclic := by
  have unmarked : (fun _ => none) = CycleSearch.marksOf [] [] := by
    funext n
    simp [CycleSearch.marksOf]
  rw [searchCycles, CycleSearch.start, unmarked, CycleSearch.run_roots rfl]
  rfl

theorem cycle_of_visit {h : Hierarchy} {depth : Nat} {path done : List String} {name : String}
    (below : ∀ p ∈ path, TransGen h.Extends p name) {e : HierarchyError}
    (fails : h.visit depth path done name = .error e) :
    ∃ n, e = .cyclic n ∧ TransGen h.Extends n n := by
  induction depth generalizing path done name with
  | zero => cases fails
  | succ depth ih =>
      rw [visit] at fails
      split at fails
      · cases fails
      · split at fails
        · rename_i closes
          cases fails
          obtain ⟨s, up, again⟩ := List.any_eq_true.mp closes
          refine ⟨name, rfl, ?_⟩
          obtain rfl | again := List.mem_cons.mp (List.contains_iff_mem.mp again)
          · exact .single up
          · exact .head up (below s again)
        · obtain fails | ⟨_, _, none⟩ := bind_eq_error.mp fails
          · obtain ⟨s, hs, middle, fails⟩ := exists_of_foldlM_eq_error fails
            have up : h.Extends name s := List.mem_reverse.mp hs
            refine ih (List.forall_mem_cons.mpr ⟨.single up, fun p hp => ?_⟩) fails
            exact (below p hp).tail up
          · cases none

/-- The search comes to its end, since each round leaves less to do. It ends well exactly if no
declared name leads back to itself, and the name that it reports otherwise is one that does. A name
that comes off the stack again is never taken for one that closes a cycle. -/
theorem searchCycles_exact (h : Hierarchy) :
    (∀ s s' : CycleSearch, s.step h = .ok (some s') → s'.work h < s.work h) ∧
      h.searchCycles = h.validateAcyclic ∧
      (h.validateAcyclic = .ok () ↔
        ∀ n, h.declares n = true → ¬ TransGen h.Extends n n) ∧
      (∀ e, h.validateAcyclic = .error e →
        ∃ n, e = .cyclic n ∧ h.declares n = true ∧ TransGen h.Extends n n) ∧
      ∀ s name stack, CycleSearch.Rounds h (.start h) s → s.stack = (name, false) :: stack →
        s.marks name ≠ some .visiting := by
  have declared {n : String} (cycle : TransGen h.Extends n n) : h.declares n = true :=
    (TransGen.head'_iff.mp cycle).elim fun _ first => first.1.declared
  refine ⟨fun _ _ => CycleSearch.work_lt, h.searchCycles_eq, ?_, fun e fails => ?_,
    fun s name stack rounds top visiting => ?_⟩
  · rw [validateAcyclic_eq_ok]
    exact ⟨fun none n _ => none n, fun none n cycle => none n (declared cycle) cycle⟩
  · obtain fails | ⟨_, _, none⟩ := bind_eq_error.mp fails
    · obtain ⟨n, _, done, fails⟩ := exists_of_foldlM_eq_error fails
      obtain ⟨n, same, cycle⟩ := cycle_of_visit (by simp) fails
      exact ⟨n, same, declared cycle, cycle⟩
    · cases none
  · have waits := CycleSearch.waits_of_rounds rounds
    rw [top] at waits
    exact List.not_mem_nil (waits.1 visiting)

end Overload.Hierarchy
