import Overload.Hierarchy.Lineage
import Overload.Proofs.Validity

/-!
The lineage of a type by the steps of its search. Its names are the supertypes of the name it
starts from, each once, and every entry has the parameters that its declaration asks for.
-/
namespace Overload

namespace TypeExpr

@[simp]
theorem erasedName_named (as : List Annotation) (name : String) (params : List TypeExpr) :
    (named as name params).erasedName = name := rfl

theorem substituteAll_eq_map (vars : List String) (args ts : List TypeExpr) :
    substituteAll vars args ts = ts.map (substitute vars args) := by
  induction ts with
  | nil => rfl
  | cons t ts ih => simp only [substituteAll, ih, List.map_cons]

/-- A name stays when it is not one of the variables, or has parameters. -/
theorem substitute_named {vars : List String} {args : List TypeExpr} {as : List Annotation}
    {name : String} {params : List TypeExpr} (free : params = [] → name ∉ vars) :
    (named as name params).substitute vars args =
      .named as name (params.map (substitute vars args)) := by
  cases params with
  | nil =>
      have other : vars.idxOf? name = none := List.idxOf?_eq_none_iff.mpr (free rfl)
      simp only [substitute, other, List.map_nil]
  | cons p ps => simp only [substitute, substituteAll_eq_map, List.map_cons]

theorem substitute_variable {vars : List String} {args : List TypeExpr} {as : List Annotation}
    {name : String} {i : Nat} (index : vars.idxOf? name = some i) :
    (named as name []).substitute vars args = args[i]?.getD (.wildcard []) := by
  simp only [substitute, index]

/-- A name stays, or it is a variable. -/
theorem stays_or_bound (vars : List String) (name : String) (params : List TypeExpr) :
    (params = [] → name ∉ vars) ∨ params = [] ∧ ∃ i, vars.idxOf? name = some i := by
  refine or_iff_not_imp_left.mpr fun replaced => ?_
  obtain ⟨raw, bound⟩ := Classical.not_imp.mp replaced
  exact ⟨raw, Option.isSome_iff_exists.mp (List.isSome_idxOf?.mpr (not_not.mp bound))⟩

end TypeExpr

namespace Hierarchy

open Relation TypeExpr

@[simp]
theorem erasedName_topType (h : Hierarchy) : h.topType.erasedName = h.top := rfl

/-- A type at the front of the queue is passed over, or it is met and its supertypes queue up. -/
inductive Climb (h : Hierarchy) : List String → List TypeExpr → List TypeExpr → Prop
  | finish {seen : List String} : Climb h seen [] []
  | pass {seen : List String} {t : TypeExpr} {queue entries : List TypeExpr}
      (passes : h.passesOver seen t = true) (rest : Climb h seen queue entries) :
      Climb h seen (t :: queue) entries
  | meet {seen : List String} {as : List Annotation} {name : String}
      {params queue args later : List TypeExpr} {d : Declaration}
      (new : name ≠ h.top ∧ name ∉ seen) (found : h.get? name = some d)
      (given : d.instantiate params = .ok args)
      (rest : Climb h (name :: seen) (queue ++ d.supertypesAt args) later) :
      Climb h seen (.named as name params :: queue) (.named [] name args :: later)

theorem passesOver_named {h : Hierarchy} {seen : List String} {as : List Annotation}
    {name : String} {params : List TypeExpr} :
    h.passesOver seen (.named as name params) = true ↔ name = h.top ∨ name ∈ seen := by
  simp [passesOver, name?]

/-- A search from one type passes over the top type and starts with any other. -/
theorem Climb.start {h : Hierarchy} {as : List Annotation} {name : String}
    {params entries : List TypeExpr} (climb : h.Climb [] [.named as name params] entries) :
    (name = h.top ∧ entries = []) ∨ name ≠ h.top ∧ ∃ d args later, h.get? name = some d ∧
      d.instantiate params = .ok args ∧ entries = .named [] name args :: later := by
  cases climb with
  | pass passes rest =>
      cases rest
      exact .inl ⟨by simpa using passesOver_named.mp passes, rfl⟩
  | meet new found given rest => exact .inr ⟨new.1, _, _, _, found, given, rfl⟩

theorem Climb.passAll {h : Hierarchy} {seen : List String} {passed queue entries : List TypeExpr}
    (passes : ∀ t ∈ passed, h.passesOver seen t = true) (rest : h.Climb seen queue entries) :
    h.Climb seen (passed ++ queue) entries := by
  induction passed with
  | nil => exact rest
  | cons t passed ih =>
      have ⟨first, others⟩ := List.forall_mem_cons.mp passes
      exact .pass first (ih others)

theorem climb_of_lineageOf {h : Hierarchy} {rounds : Nat} {seen : List String}
    {queue entries : List TypeExpr} (distinct : seen.Nodup)
    (declared : ∀ n ∈ seen, h.declares n = true)
    (room : rounds + seen.length = h.declarations.length + 1)
    (ok : h.lineageOf rounds seen queue = .ok entries) : h.Climb seen queue entries := by
  induction rounds generalizing seen queue entries with
  | zero =>
      -- The names seen are distinct and declared, so the rounds outlast them.
      have := length_le_declarations distinct declared
      omega
  | succ rounds ih =>
      unfold lineageOf at ok
      split at ok
      · rename_i as name params queue' dropped
        obtain ⟨passed, rfl, passes, new⟩ := eq_append_of_dropWhile dropped
        obtain ⟨d, found, ok⟩ := bind_eq_ok.mp ok
        obtain ⟨args, given, ok⟩ := bind_eq_ok.mp ok
        obtain ⟨later, rest, ok⟩ := bind_eq_ok.mp ok
        cases ok
        have found := declaration_eq_ok.mp found
        have fresh : name ≠ h.top ∧ name ∉ seen := by
          rw [← not_or, ← passesOver_named, new]
          exact Bool.false_ne_true
        refine Climb.passAll passes (.meet fresh found given (ih ?_ ?_ ?_ rest))
        · exact List.nodup_cons.mpr ⟨fresh.2, distinct⟩
        · exact List.forall_mem_cons.mpr ⟨declares_iff_get?.mpr ⟨d, found⟩, declared⟩
        · rw [List.length_cons]
          omega
      · rename_i other
        cases ok
        have none : queue.dropWhile (h.passesOver seen) = [] := by
          cases front : queue.dropWhile (h.passesOver seen) with
          | nil => rfl
          | cons t queue' =>
              obtain ⟨_, _, _, new⟩ := eq_append_of_dropWhile front
              cases t with
              | named as name params => exact absurd front (other as name params queue')
              | wildcard as => simp [passesOver, name?] at new
              | union as members => simp [passesOver, name?] at new
        have all := List.dropWhile_eq_nil_iff.mp none
        simpa using Climb.passAll all .finish

theorem climb_of_lineage {h : Hierarchy} {t : TypeExpr} {n : String} {l : List TypeExpr}
    (named : t.name? = some n) (ok : h.lineage t = .ok l) :
    ∃ entries, h.Climb [] [t.bare] entries ∧ l = entries ++ [h.topType] := by
  unfold lineage at ok
  rw [named] at ok
  obtain ⟨entries, searched, same⟩ := bind_eq_ok.mp ok
  cases same
  exact ⟨entries, climb_of_lineageOf List.nodup_nil (by simp) (by simp) searched, rfl⟩

theorem length_of_instantiate {d : Declaration} {params args : List TypeExpr}
    (given : d.instantiate params = .ok args) : args.length = d.params.length := by
  unfold Declaration.instantiate at given
  split at given
  · cases given
    simp
  · split at given
    · cases given
      assumption
    · simp at given

theorem args_of_instantiate {d : Declaration} {params args : List TypeExpr}
    (given : d.instantiate params = .ok args) :
    args = if params = [] then d.params.map fun _ => .wildcard [] else params := by
  unfold Declaration.instantiate at given
  split at given
  · rename_i raw
    cases given
    exact (if_pos raw).symm
  · rename_i some
    rw [if_neg some]
    split at given
    · cases given
      rfl
    · cases given

theorem forall_mem_instantiate {P : TypeExpr → Prop} (opened : P (.wildcard []))
    {d : Declaration} {params args : List TypeExpr} (given : d.instantiate params = .ok args)
    (each : ∀ p ∈ params, P p) : ∀ a ∈ args, P a := by
  rw [args_of_instantiate given]
  split
  · exact List.forall_mem_map.mpr fun _ _ => opened
  · exact each

theorem Climb.entry {h : Hierarchy} {seen : List String} {queue entries : List TypeExpr}
    (climb : h.Climb seen queue entries) {e : TypeExpr} (he : e ∈ entries) :
    ∃ name args d, e = .named [] name args ∧ h.get? name = some d ∧
      args.length = d.params.length ∧ name ≠ h.top ∧ name ∉ seen := by
  induction climb with
  | finish => simp at he
  | pass _ _ ih => exact ih he
  | @meet seen as name params queue args later d new found given _ ih =>
      obtain rfl | he := List.mem_cons.mp he
      · exact ⟨name, args, d, rfl, found, length_of_instantiate given, new⟩
      · obtain ⟨name', args', d', rfl, found', length, other, fresh⟩ := ih he
        exact ⟨name', args', d', rfl, found', length, other,
          fun old => fresh (List.mem_cons_of_mem name old)⟩

theorem Climb.distinct {h : Hierarchy} {seen : List String} {queue entries : List TypeExpr}
    (climb : h.Climb seen queue entries) : (entries.map erasedName).Nodup := by
  induction climb with
  | finish => exact List.nodup_nil
  | pass _ _ ih => exact ih
  | @meet seen as name params queue args later d _ _ _ rest ih =>
      refine List.nodup_cons.mpr ⟨fun again => ?_, ih⟩
      obtain ⟨e, he, same⟩ := List.mem_map.mp again
      obtain ⟨name', args', d', rfl, _, _, _, fresh⟩ := rest.entry he
      exact fresh (List.mem_cons.mpr (.inl same))

/-- Every entry of a lineage has as many parameters as its name takes. -/
theorem lineage_entry {h : Hierarchy} {t e : TypeExpr} {l : List TypeExpr}
    (ok : h.lineage t = .ok l) (he : e ∈ l) :
    ∃ name args, e = .named [] name args ∧ h.arity name = .ok args.length := by
  have top : h.topType = .named [] h.top [] ∧ h.arity h.top = .ok 0 := ⟨rfl, h.arity_top⟩
  cases named : t.name? with
  | none =>
      unfold lineage at ok
      rw [named] at ok
      cases ok
      rw [List.mem_singleton.mp he]
      exact ⟨h.top, [], top⟩
  | some n =>
      obtain ⟨entries, climb, rfl⟩ := climb_of_lineage named ok
      obtain he | he := List.mem_append.mp he
      · obtain ⟨name, args, d, rfl, found, length, other, _⟩ := climb.entry he
        exact ⟨name, args, rfl, length ▸ arity_of_get? found other⟩
      · rw [List.mem_singleton.mp he]
        exact ⟨h.top, [], top⟩

theorem topType_mem_lineage {h : Hierarchy} {t : TypeExpr} {l : List TypeExpr}
    (ok : h.lineage t = .ok l) : h.topType ∈ l := by
  cases named : t.name? with
  | none =>
      unfold lineage at ok
      rw [named] at ok
      cases ok
      exact List.mem_cons_self
  | some n =>
      obtain ⟨entries, _, rfl⟩ := climb_of_lineage named ok
      exact List.mem_append_right _ List.mem_cons_self

theorem lineage_front {h : Hierarchy} {t : TypeExpr} {n : String} {l : List TypeExpr}
    (named : t.name? = some n) (ok : h.lineage t = .ok l) :
    ∃ e rest, l = e :: rest ∧ e.erasedName = n := by
  obtain ⟨as, params, rfl⟩ := exists_eq_named named
  obtain ⟨entries, climb, rfl⟩ := climb_of_lineage rfl ok
  obtain ⟨rfl, rfl⟩ | ⟨_, _, args, later, _, _, rfl⟩ := climb.start
  · exact ⟨h.topType, [], rfl, rfl⟩
  · exact ⟨_, _, rfl, rfl⟩

/-- The parameters of a type whose name takes so many: a raw type leaves all of them open. -/
def fullParams (count : Nat) (params : List TypeExpr) : List TypeExpr :=
  if params = [] then List.replicate count (.wildcard []) else params

theorem fullParams_self (params : List TypeExpr) : fullParams params.length params = params := by
  rw [fullParams, ite_eq_right_iff]
  intro raw
  rw [raw, List.length_nil, List.replicate_zero]

theorem length_fullParams {count : Nat} {params : List TypeExpr}
    (fits : params = [] ∨ params.length = count) : (fullParams count params).length = count := by
  rw [fullParams]
  split
  · exact List.length_replicate
  · rename_i some
    exact fits.resolve_left some

/-- A type that is raw or takes its parameters stands at the front of its own lineage. -/
theorem lineage_start {h : Hierarchy} {as : List Annotation} {name : String}
    {params l : List TypeExpr} {count : Nat} (arity : h.arity name = .ok count)
    (fits : params = [] ∨ params.length = count)
    (climbs : h.lineage (.named as name params) = .ok l) :
    ∃ rest, l = .named [] name (fullParams count params) :: rest := by
  obtain ⟨entries, climb, rfl⟩ := climb_of_lineage rfl climbs
  obtain ⟨rfl, rfl⟩ | ⟨other, d, args, later, found, given, rfl⟩ := climb.start
  · rw [h.arity_top] at arity
    cases arity
    have none : params = [] := fits.elim id List.eq_nil_of_length_eq_zero
    exact ⟨[], by rw [none]; rfl⟩
  · rw [arity_of_get? found other] at arity
    cases arity
    rw [args_of_instantiate given, List.map_const']
    exact ⟨_, rfl⟩

/-- What holds of the top type, and passes from a type that is met to its entry in the lineage and
to its supertypes. -/
structure Inherited (h : Hierarchy) (P : TypeExpr → Prop) : Prop where
  top : P h.topType
  bare : ∀ t, P t → P t.bare
  above : ∀ {as name params d args}, P (.named as name params) → h.get? name = some d →
    name ≠ h.top → d.instantiate params = .ok args →
      P (.named [] name args) ∧ ∀ u ∈ d.supertypesAt args, P u

theorem Inherited.climb {h : Hierarchy} {P : TypeExpr → Prop} (inherited : h.Inherited P)
    {seen : List String} {queue entries : List TypeExpr} (climb : h.Climb seen queue entries)
    (each : ∀ t ∈ queue, P t) : ∀ e ∈ entries, P e := by
  induction climb with
  | finish => exact nofun
  | pass _ _ ih => exact ih (List.forall_mem_cons.mp each).2
  | meet new found given _ ih =>
      obtain ⟨front, waiting⟩ := List.forall_mem_cons.mp each
      obtain ⟨entry, supertypes⟩ := inherited.above front found new.1 given
      refine List.forall_mem_cons.mpr ⟨entry, ih fun u hu => ?_⟩
      exact (List.mem_append.mp hu).elim (waiting u) (supertypes u)

theorem Inherited.lineage {h : Hierarchy} {P : TypeExpr → Prop} (inherited : h.Inherited P)
    {t : TypeExpr} {l : List TypeExpr} (climbs : h.lineage t = .ok l) (ht : P t) :
    ∀ e ∈ l, P e := by
  cases named : t.name? with
  | none =>
      unfold Hierarchy.lineage at climbs
      rw [named] at climbs
      cases climbs
      exact List.forall_mem_singleton.mpr inherited.top
  | some n =>
      obtain ⟨entries, climb, rfl⟩ := climb_of_lineage named climbs
      have front : ∀ u ∈ [t.bare], P u := List.forall_mem_singleton.mpr (inherited.bare t ht)
      refine List.forall_mem_append.mpr ⟨inherited.climb climb front, ?_⟩
      exact List.forall_mem_singleton.mpr inherited.top

theorem SupertypeOf.substitute {h : Hierarchy} {d : Declaration} {as : List Annotation}
    {name : String} {params : List TypeExpr} (ok : h.SupertypeOf d as name params)
    (args : List TypeExpr) :
    (named as name params).substitute d.params args =
      .named as name (params.map (TypeExpr.substitute d.params args)) :=
  substitute_named ok.notVariable

theorem Sound.supertypesAt {h : Hierarchy} (sound : h.Sound) {n : String} {d : Declaration}
    (found : h.get? n = some d) {args : List TypeExpr} {u : TypeExpr}
    (hu : u ∈ d.supertypesAt args) :
    ∃ as name params, named as name params ∈ d.supertypes ∧ h.SupertypeOf d as name params ∧
      u = .named as name (params.map (TypeExpr.substitute d.params args)) := by
  obtain ⟨t, ht, rfl⟩ := List.mem_map.mp hu
  obtain ⟨as, name, params, rfl, ok⟩ := sound.supertype found ht
  exact ⟨as, name, params, ht, ok, ok.substitute args⟩

theorem Sound.supernames_supertypesAt {h : Hierarchy} (sound : h.Sound) {n : String}
    {d : Declaration} (found : h.get? n = some d) (args : List TypeExpr) (s : String) :
    (∃ u ∈ d.supertypesAt args, u.name? = some s) ↔ h.Extends n s := by
  rw [extends_iff]
  constructor
  · intro super
    obtain ⟨u, hu, named⟩ := super
    obtain ⟨as, name, params, ht, _, rfl⟩ := sound.supertypesAt found hu
    exact ⟨d, found, _, ht, named⟩
  · intro super
    obtain ⟨d', found', t, ht, named⟩ := super
    cases found.symm.trans found'
    obtain ⟨as, name, params, rfl, ok⟩ := sound.supertype found ht
    refine ⟨_, List.mem_map_of_mem ht, ?_⟩
    rw [ok.substitute args]
    exact named

theorem Climb.reaches {h : Hierarchy} (sound : h.Sound) {seen : List String}
    {queue entries : List TypeExpr} (climb : h.Climb seen queue entries) {e : TypeExpr}
    (he : e ∈ entries) :
    ∃ q ∈ queue, ∃ n, q.name? = some n ∧ ReflTransGen h.Extends n e.erasedName := by
  induction climb with
  | finish => simp at he
  | pass _ _ ih =>
      obtain ⟨q, hq, chain⟩ := ih he
      exact ⟨q, List.mem_cons_of_mem _ hq, chain⟩
  | @meet seen as name params queue args later d _ found _ _ ih =>
      obtain rfl | he := List.mem_cons.mp he
      · exact ⟨_, List.mem_cons_self, name, rfl, .refl⟩
      · obtain ⟨q, hq, n, named, chain⟩ := ih he
        obtain waiting | above := List.mem_append.mp hq
        · exact ⟨q, List.mem_cons_of_mem _ waiting, n, named, chain⟩
        · have e := (sound.supernames_supertypesAt found args n).mp ⟨q, above, named⟩
          exact ⟨_, List.mem_cons_self, name, rfl, chain.head e⟩

theorem Climb.meets {h : Hierarchy} {seen : List String} {queue entries : List TypeExpr}
    (climb : h.Climb seen queue entries) {q : TypeExpr} (hq : q ∈ queue) {n : String}
    (named : q.name? = some n) : n = h.top ∨ n ∈ seen ∨ n ∈ entries.map erasedName := by
  induction climb with
  | finish => simp at hq
  | @pass seen t queue entries passes _ ih =>
      obtain rfl | hq := List.mem_cons.mp hq
      · simp only [passesOver, named, Bool.or_eq_true, beq_iff_eq, List.contains_iff_mem] at passes
        exact passes.imp_right .inl
      · exact ih hq
  | @meet seen as name params queue args later d _ _ _ _ ih =>
      have self : name ∈ (TypeExpr.named [] name args :: later).map erasedName :=
        List.mem_cons_self
      obtain rfl | hq := List.mem_cons.mp hq
      · cases named
        exact .inr (.inr self)
      · obtain top | old | met := ih (List.mem_append_left _ hq)
        · exact .inl top
        · obtain rfl | old := List.mem_cons.mp old
          · exact .inr (.inr self)
          · exact .inr (.inl old)
        · exact .inr (.inr (List.mem_cons_of_mem _ met))

theorem Climb.closed {h : Hierarchy} (sound : h.Sound) {seen : List String}
    {queue entries : List TypeExpr} (climb : h.Climb seen queue entries) {n s : String}
    (hn : n ∈ entries.map erasedName) (e : h.Extends n s) :
    s = h.top ∨ s ∈ seen ∨ s ∈ entries.map erasedName := by
  induction climb with
  | finish => simp at hn
  | pass _ _ ih => exact ih hn
  | @meet seen as name params queue args later d _ found _ rest ih =>
      have next : s = h.top ∨ s ∈ name :: seen ∨ s ∈ later.map erasedName := by
        obtain rfl | hn := List.mem_cons.mp hn
        · obtain ⟨u, hu, named⟩ := (sound.supernames_supertypesAt found args s).mpr e
          exact rest.meets (List.mem_append_right _ hu) named
        · exact ih hn
      obtain top | old | met := next
      · exact .inl top
      · obtain rfl | old := List.mem_cons.mp old
        · exact .inr (.inr List.mem_cons_self)
        · exact .inr (.inl old)
      · exact .inr (.inr (List.mem_cons_of_mem _ met))

/-- The search up the lineage and the search for a subtype meet the same names. -/
theorem Sound.mem_lineage_names {h : Hierarchy} (sound : h.Sound) {t : TypeExpr} {n m : String}
    {l : List TypeExpr} (named : t.name? = some n) (ok : h.lineage t = .ok l) :
    m ∈ l.map erasedName ↔ h.isSubtypeName n m = true := by
  obtain ⟨entries, climb, rfl⟩ := climb_of_lineage named ok
  have front : t.bare.name? = some n := (name?_bare t).trans named
  simp only [List.map_append, List.mem_append, List.map_cons, List.map_nil, List.mem_singleton,
    erasedName_topType]
  constructor
  · intro member
    obtain met | rfl := member
    · obtain ⟨e, he, rfl⟩ := List.mem_map.mp met
      obtain ⟨q, hq, n', named', chain⟩ := climb.reaches sound he
      rw [List.mem_singleton.mp hq, front] at named'
      cases named'
      rw [isSubtypeName_iff]
      obtain same | chain := reflTransGen_iff_eq_or_transGen.mp chain
      · exact .inl same.symm
      · exact .inr (.inr chain)
    · exact isSubtypeName_top h n
  · intro sub
    have start : n = h.top ∨ n ∈ entries.map erasedName := by
      simpa using climb.meets List.mem_cons_self front
    have above : ∀ s, ReflTransGen h.Extends n s → s = h.top ∨ s ∈ entries.map erasedName := by
      intro s chain
      induction chain with
      | refl => exact start
      | tail _ e ih =>
          obtain rfl | met := ih
          · exact absurd e (sound.top_extends_nothing _)
          · simpa using climb.closed sound met e
    obtain rfl | rfl | chain := isSubtypeName_iff.mp sub
    · exact start.symm
    · exact .inr rfl
    · exact (above m chain.to_reflTransGen).symm

end Hierarchy

end Overload
