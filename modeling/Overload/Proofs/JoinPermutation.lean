import Overload.Proofs.CheckedJoin
import Overload.Proofs.JoinAbsorption
import Overload.Proofs.JoinBound

/-!
The order of types matters to their join only where several names could be chosen. Whether the join
is open, and whether it says something about its values, are facts about the types as a set, and so
is the name where there is only one to choose; without parameters the name is the whole join.
-/
namespace Overload.Hierarchy

open TypeExpr

/-- The only name to choose: a least shared name that alone says something about its values, or the
only least one if none does. -/
def SoleChoice (h : Hierarchy) (types : List TypeExpr) (n : String) : Prop :=
  h.LeastShared types n ∧
    (h.isFreeName n = false ∧ (∀ m, h.LeastShared types m → h.isFreeName m = false → m = n) ∨
      h.isFreeName n = true ∧ ∀ m, h.LeastShared types m → m = n)

variable {h : Hierarchy} {types types' : List TypeExpr}

theorem SoleChoice.eq_of_preferred {n m : String} (sole : h.SoleChoice types n)
    (preferred : h.Preferred types m) : m = n := by
  obtain ⟨least, ⟨full, only⟩ | ⟨_, only⟩⟩ := sole
  · apply only m preferred.1
    exact ((preferred_iff_of_content least full m).mp preferred).2
  · exact only m preferred.1

theorem soleChoice_congr (same : ∀ t, t ∈ types ↔ t ∈ types') {n : String} :
    h.SoleChoice types n ↔ h.SoleChoice types' n := by
  simp only [SoleChoice, leastShared_congr same]

section Joining

variable {onColumn : List TypeExpr → Except HierarchyError TypeExpr} {j j' : TypeExpr}

theorem isWildcard_iff_of_joinBy (ok : h.joinBy onColumn types = .ok j) :
    j.isWildcard = true ↔ ∃ t ∈ flattenAll types, t.isWildcard = true :=
  ⟨wildcard_of_joinBy ok, isWildcard_of_open (joinBy_eq_ok.mp ok)⟩

/-- Types without parameters have a join without parameters, if its name takes none. -/
theorem params_of_joined (joined : h.Joined onColumn types j) (raw : ∀ t ∈ types, t.params = [])
    {n : String} (named : j.name? = some n) (arity : h.arity n = .ok 0) : j.params = [] := by
  cases joined with
  | nothing none => rfl
  | agreed agree => exact raw j (List.mem_of_head? (agreed?_eq_some.mp agree).1)
  | opened differ wild => rfl
  | unshared some differ closed climbs unchosen => rfl
  | ancestor some differ closed climbs chosen joined =>
      cases named
      have length := Except.ok.inj ((nearest_entry climbs chosen).1.symm.trans arity)
      rw [← length_columns, joined.length_eq] at length
      exact List.eq_nil_of_length_eq_zero length

theorem eq_wildcard_of_open (ok : h.joinBy onColumn types = .ok j)
    (wild : ∃ t ∈ flattenAll types, t.isWildcard = true) : j = .wildcard [] := by
  have unannotated := (joinBy_normal ok).2
  have opened := (isWildcard_iff_of_joinBy ok).mpr wild
  cases j with
  | wildcard as => rw [show as = [] from unannotated]
  | named as name params => cases opened
  | union as members => cases opened

theorem eq_topType_of_nil (ok : h.joinBy onColumn types = .ok j) (none : flattenAll types = []) :
    j = h.topType := by
  rw [joinBy, none] at ok
  exact (Except.ok.inj ok).symm

theorem Sound.name_of_soleChoice (sound : h.Sound) (checked : ∀ t ∈ types, h.check t = .ok ())
    (some : flattenAll types ≠ []) (closed : ¬ ∃ t ∈ flattenAll types, t.isWildcard = true)
    (ok : h.joinBy onColumn types = .ok j) {n : String}
    (sole : h.SoleChoice (flattenAll types) n) : j.name? = .some n := by
  have each : ∀ t ∈ flattenAll types, t.isWildcard = false := by simpa using closed
  obtain ⟨e, first, named⟩ := sound.firstPreferred_of_joinBy checked some each ok
  rw [named, sole.eq_of_preferred first.preferred]

/-- Where there is one name to choose, the joins of the types in two orders are equal for want of a
choice, or both have that name. -/
theorem Sound.eq_or_named (sound : h.Sound) (perm : types.Perm types')
    (checked : ∀ t ∈ types, h.check t = .ok ()) (ok : h.joinBy onColumn types = .ok j)
    (ok' : h.joinBy onColumn types' = .ok j') {n : String}
    (sole : h.SoleChoice (flattenAll types) n) :
    j = j' ∨ j.name? = some n ∧ j'.name? = some n := by
  have flat := flattenAll_perm perm
  have same : ∀ t, t ∈ flattenAll types ↔ t ∈ flattenAll types' := fun _ => flat.mem_iff
  by_cases wild : ∃ t ∈ flattenAll types, t.isWildcard = true
  · left
    have wild' : ∃ t ∈ flattenAll types', t.isWildcard = true := by simpa only [same] using wild
    rw [eq_wildcard_of_open ok wild, eq_wildcard_of_open ok' wild']
  by_cases none : flattenAll types = []
  · left
    have none' : flattenAll types' = [] := List.perm_nil.mp (none ▸ flat.symm)
    rw [eq_topType_of_nil ok none, eq_topType_of_nil ok' none']
  · right
    have checked' : ∀ t ∈ types', h.check t = .ok () := fun t ht => checked t (perm.mem_iff.mpr ht)
    have none' : flattenAll types' ≠ [] := fun empty => none (List.perm_nil.mp (empty ▸ flat))
    have wild' : ¬ ∃ t ∈ flattenAll types', t.isWildcard = true := by simpa only [same] using wild
    constructor
    · exact sound.name_of_soleChoice checked none wild ok sole
    · exact sound.name_of_soleChoice checked' none' wild' ok' ((soleChoice_congr same).mp sole)

theorem eq_named_of_raw (ok : h.joinBy onColumn types = .ok j)
    (raw : ∀ t ∈ flattenAll types, t.params = []) {n : String} (named : j.name? = some n)
    (arity : h.arity n = .ok 0) : j = .named [] n [] := by
  have none := params_of_joined (joinBy_eq_ok.mp ok) raw named arity
  have unannotated := (joinBy_normal ok).2
  obtain ⟨as, params, rfl⟩ := exists_eq_named named
  rw [show as = [] from unannotated, show params = [] from none]

end Joining

/-- The joins of types in two orders are both free of content or neither, and both open or neither.
Where there is one name to choose both have the same name, and if in addition neither the types nor
that name take parameters, the joins are equal. -/
theorem join_permuted {base : Hierarchy} {ds : List Declaration} (accepted : base.extend ds = .ok h)
    (topFree : h.declares h.top = false) (perm : types.Perm types')
    (checked : ∀ t ∈ types, h.check t = .ok ()) {depth : Nat} {j j' : TypeExpr}
    (joined : h.joinWithin types depth = .ok j) (joined' : h.joinWithin types' depth = .ok j') :
    h.isContentFree j = h.isContentFree j' ∧ j.isWildcard = j'.isWildcard ∧
      ∀ n, h.SoleChoice (flattenAll types) n → j.name? = j'.name? ∧
        ((∀ t ∈ flattenAll types, t.params = []) → h.arity n = .ok 0 → j = j') := by
  have sound : h.Sound := ⟨validate_of_extend accepted, topFree⟩
  have flat := flattenAll_perm perm
  have checked' : ∀ t ∈ types', h.check t = .ok () := fun t ht => checked t (perm.mem_iff.mpr ht)
  refine ⟨?_, ?_, fun n sole => ?_⟩
  · rw [Bool.eq_iff_iff, sound.isContentFree_iff checked joined,
      sound.isContentFree_iff checked' joined', nothingShared_perm perm]
  · rw [Bool.eq_iff_iff, isWildcard_iff_of_joinBy joined, isWildcard_iff_of_joinBy joined']
    simp only [flat.mem_iff]
  · obtain same | ⟨named, named'⟩ := sound.eq_or_named perm checked joined joined' sole
    · exact ⟨congrArg name? same, fun _ _ => same⟩
    · refine ⟨named.trans named'.symm, fun raw arity => ?_⟩
      have raw' : ∀ t ∈ flattenAll types', t.params = [] := fun t ht => raw t (flat.mem_iff.mpr ht)
      rw [eq_named_of_raw joined raw named arity, eq_named_of_raw joined' raw' named' arity]

/-- An `Int` and a `Long`. -/
def wholeNumbers : List TypeExpr := [.named [] "Int" [], .named [] "Long" []]

theorem wholeNumbers_soleChoice : builtin.SoleChoice (flattenAll wholeNumbers) "Number" := by
  have int : builtin.lineage (.named [] "Int" []) = .ok [.named [] "Int" [],
      .named [] "Number" [], .named [] "Serializable" [], .named [] "Object" []] := by cbv
  have long : builtin.lineage (.named [] "Long" []) = .ok [.named [] "Long" [],
      .named [] "Number" [], .named [] "Serializable" [], .named [] "Object" []] := by cbv
  have climbs : builtin.Lineages (flattenAll wholeNumbers) _ := .cons int (.cons long .nil)
  have shared (m : String) : builtin.Shared (flattenAll wholeNumbers) m ↔
      m = "Number" ∨ m ∈ ["Serializable", "Object"] := by
    rw [shared_iff climbs, List.forall_mem_cons, List.forall_mem_singleton]
    simp only [List.map_cons, List.map_nil, erasedName_named, List.mem_cons]
    grind
  have others : ∀ m ∈ ["Serializable", "Object"],
      builtin.isSubtypeName m "Number" = false ∧ builtin.isFreeName m = true := by decide +kernel
  refine ⟨⟨(shared "Number").mpr (.inl rfl), fun m given sub => ?_⟩, .inl ⟨by cbv, ?_⟩⟩
  · obtain same | other := (shared m).mp given
    · exact same
    · exact absurd sub (by simp [(others m other).1])
  · intro m least full
    obtain same | other := (shared m).mp least.1
    · exact same
    · exact absurd full (by simp [(others m other).2])

theorem join_permuted_numbers :
    builtin.extend [] = .ok builtin ∧ builtin.declares builtin.top = false ∧
      wholeNumbers.Perm wholeNumbers.reverse ∧ (∀ t ∈ wholeNumbers, builtin.check t = .ok ()) ∧
      (∀ t ∈ flattenAll wholeNumbers, t.params = []) ∧ builtin.arity "Number" = .ok 0 ∧
      builtin.joinWithin wholeNumbers 0 = .ok (.named [] "Number" []) ∧
      builtin.joinWithin wholeNumbers.reverse 0 = .ok (.named [] "Number" []) := by
  have swapped := wholeNumbers.reverse_perm.symm
  have checked : ∀ t ∈ wholeNumbers, builtin.check t = .ok () := by
    simp only [wholeNumbers, List.forall_mem_cons]
    exact ⟨by decide +kernel, by decide +kernel, by simp⟩
  have raw : ∀ t ∈ flattenAll wholeNumbers, t.params = [] := by
    simp [wholeNumbers, flattenAll, flatten, bare, setAnnotations, params]
  have arity : builtin.arity "Number" = .ok 0 := by cbv
  have joined : builtin.joinWithin wholeNumbers 0 = .ok (.named [] "Number" []) := by cbv
  have checked' : ∀ t ∈ wholeNumbers.reverse, builtin.check t = .ok () :=
    fun t ht => checked t (List.mem_reverse.mp ht)
  obtain ⟨j', joined', _⟩ :=
    exists_joinWithin builtin_sound builtin_nestedArities 0 checked'
  obtain ⟨_, _, sole⟩ :=
    join_permuted builtin_accepted builtin_sound.topFree swapped checked joined joined'
  have same := (sole "Number" wholeNumbers_soleChoice).2 raw arity
  exact ⟨builtin_accepted, builtin_sound.topFree, swapped, checked, raw, arity, joined,
    same ▸ joined'⟩

end Overload.Hierarchy
