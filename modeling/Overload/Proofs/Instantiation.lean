import Overload.Proofs.BreadthFirst
import Overload.Proofs.Conservation

/-!
Lineages are uniform in the parameters of their type. The search goes by names alone, and the
variables of every declaration on the way give way to arguments all at once. So a lineage that is
taken with new names for the parameters is a pattern: arguments for the new names make it the
lineage with these arguments, whatever variables or types the arguments are named like.
-/
namespace Overload

namespace TypeExpr

/-- The second type is the first one with arguments for its variables, which are names without
parameters. The annotations of a variable go with it, all others stay. -/
inductive Filled (vars : List String) (args : List TypeExpr) : TypeExpr → TypeExpr → Prop
  | replaced {as : List Annotation} {i : Nat} {name : String} {a : TypeExpr}
      (bound : vars[i]? = some name) (given : args[i]? = some a) :
      Filled vars args (.named as name []) a
  | named {as : List Annotation} {name : String} {params params' : List TypeExpr}
      (free : params = [] → name ∉ vars) (each : List.Forall₂ (Filled vars args) params params') :
      Filled vars args (.named as name params) (.named as name params')
  | wildcard {as : List Annotation} : Filled vars args (.wildcard as) (.wildcard as)
  | union {as : List Annotation} {members members' : List TypeExpr}
      (each : List.Forall₂ (Filled vars args) members members') :
      Filled vars args (.union as members) (.union as members')

variable {vars : List String} {args : List TypeExpr}

theorem filled_substitute (fit : vars.length = args.length) (t : TypeExpr) :
    Filled vars args t (t.substitute vars args) := by
  induction t using induct with
  | wildcard as => exact .wildcard
  | union as members ih =>
      rw [substitute, substituteAll_eq_map]
      exact .union (forall₂_map_of_forall ih)
  | named as name params ih =>
      obtain free | ⟨rfl, i, index⟩ := stays_or_bound vars name params
      · rw [substitute_named free]
        exact .named free (forall₂_map_of_forall ih)
      · obtain ⟨below, at_i, _⟩ := List.idxOf?_eq_some_iff.mp index
        rw [substitute_variable index, List.getElem?_eq_getElem (fit ▸ below)]
        refine .replaced ?_ (List.getElem?_eq_getElem (fit ▸ below))
        rw [List.getElem?_eq_getElem below, at_i]

/-- Where arguments that are substituted for variables have variables of their own, these can be
substituted beforehand, unless the type has one of them itself. -/
theorem substitute_substitute {names : List String} {values : List TypeExpr} {t : TypeExpr}
    (apart : ∀ u ∈ t.nodes, ∀ n, u.name? = some n → n ∈ vars ∨ n ∉ names) :
    (t.substitute vars args).substitute names values =
      t.substitute vars (args.map (substitute names values)) := by
  induction t using induct with
  | wildcard as => rfl
  | union as members ih =>
      have below := (forall_nodes.mp apart).2
      simp only [substitute, substituteAll_eq_map, List.map_map]
      exact congrArg (union as) (List.map_congr_left fun m hm => ih m hm (below m hm))
  | named as name params ih =>
      obtain ⟨own, below⟩ := forall_nodes.mp apart
      obtain free | ⟨rfl, i, index⟩ := stays_or_bound vars name params
      · have still : params.map (substitute vars args) = [] → name ∉ names := fun raw =>
          (own name rfl).resolve_left (free (List.map_eq_nil_iff.mp raw))
        rw [substitute_named free, substitute_named free, substitute_named still, List.map_map]
        exact congrArg (named as name) (List.map_congr_left fun p hp => ih p hp (below p hp))
      · rw [substitute_variable index, substitute_variable index, List.getElem?_map]
        cases args[i]? with
        | none => rfl
        | some a => rfl

/-- Variables that differ from each other are replaced by the arguments in their places. -/
theorem map_substitute_variables (distinct : vars.Nodup) (fit : vars.length = args.length) :
    (vars.map fun name => named [] name []).map (substitute vars args) = args := by
  rw [List.map_map]
  refine List.ext_getElem (by rw [List.length_map, fit]) fun i hi hi' => ?_
  have below : i < vars.length := fit ▸ hi'
  have index : vars.idxOf? vars[i] = some i := by
    refine List.idxOf?_eq_some_iff.mpr ⟨below, rfl, fun j before same => ?_⟩
    exact absurd ((List.Nodup.getElem_inj_iff distinct).mp same) (Nat.ne_of_lt before)
  rw [List.getElem_map, Function.comp_apply, substitute_variable index,
    List.getElem?_eq_getElem hi', Option.getD_some]

end TypeExpr

theorem Declaration.instantiate_map (d : Declaration) {f : TypeExpr → TypeExpr}
    (opened : f (.wildcard []) = .wildcard []) {params args : List TypeExpr}
    (given : d.instantiate params = .ok args) :
    d.instantiate (params.map f) = .ok (args.map f) := by
  unfold Declaration.instantiate at given ⊢
  split at given
  · rename_i raw
    cases given
    rw [raw, List.map_nil, if_pos rfl, List.map_map]
    exact congrArg Except.ok (List.map_congr_left fun _ _ => opened.symm)
  · rename_i some
    split at given
    · rename_i fits
      cases given
      rw [if_neg (mt List.map_eq_nil_iff.mp some), if_pos ((List.length_map _).trans fits)]
    · cases given

namespace Hierarchy

open TypeExpr

theorem Climb.unique {h : Hierarchy} {seen : List String} {queue entries entries' : List TypeExpr}
    (climb : h.Climb seen queue entries) (other : h.Climb seen queue entries') :
    entries = entries' := by
  induction climb generalizing entries' with
  | finish =>
      cases other
      rfl
  | pass passes _ ih =>
      cases other with
      | pass _ rest => exact ih rest
      | meet new found given rest => exact absurd (passesOver_named.mp passes) (not_or.mpr new)
  | meet new found given _ ih =>
      cases other with
      | pass passes rest => exact absurd (passesOver_named.mp passes) (not_or.mpr new)
      | meet _ found' given' rest =>
          cases found.symm.trans found'
          cases given.symm.trans given'
          rw [ih rest]

section Uniformity

variable {h : Hierarchy} {names : List String} (fresh : ∀ n ∈ names, h.contains n = false)
  (values : List TypeExpr)
include fresh

theorem not_mem_of_contains {n : String} (contained : h.contains n = true) : n ∉ names := by
  intro new
  rw [fresh n new] at contained
  exact Bool.false_ne_true contained

theorem substitute_contained {as : List Annotation} {name : String} {params : List TypeExpr}
    (contained : h.contains name = true) :
    (named as name params).substitute names values =
      .named as name (params.map (substitute names values)) :=
  substitute_named fun _ => not_mem_of_contains fresh contained

/-- A supertype mentions variables of its declaration and known names only. -/
theorem Sound.supertypesAt_substitute (sound : h.Sound) {n : String} {d : Declaration}
    (found : h.get? n = some d) (args : List TypeExpr) :
    (d.supertypesAt args).map (substitute names values) =
      d.supertypesAt (args.map (substitute names values)) := by
  rw [Declaration.supertypesAt, Declaration.supertypesAt, List.map_map]
  refine List.map_congr_left fun s hs => substitute_substitute fun u hu m named => ?_
  have valid := (validate_eq_ok.mp sound.valid).1 d (mem_of_get? found) s hs
  obtain ⟨as, params, rfl⟩ := exists_eq_named named
  obtain bound | known := (known_of_validateSupertype valid).2 _ hu
  · exact .inl bound.2
  · exact .inr (not_mem_of_contains fresh known)

/-- A search that starts from known names goes the same way with values for new names. -/
theorem Climb.substitute (sound : h.Sound) {seen : List String} {queue entries : List TypeExpr}
    (climb : h.Climb seen queue entries)
    (known : ∀ t ∈ queue, ∃ n, t.name? = some n ∧ h.contains n = true) :
    h.Climb seen (queue.map (TypeExpr.substitute names values))
      (entries.map (TypeExpr.substitute names values)) := by
  induction climb with
  | finish => exact .finish
  | @pass seen t queue entries passes _ ih =>
      obtain ⟨⟨n, named, contained⟩, waiting⟩ := List.forall_mem_cons.mp known
      obtain ⟨as, params, rfl⟩ := exists_eq_named named
      rw [List.map_cons, substitute_contained fresh values contained]
      exact .pass (passesOver_named.mpr (passesOver_named.mp passes)) (ih waiting)
  | @meet seen as name params queue args later d new found given _ ih =>
      have contained := contains_of_get? found
      rw [List.map_cons, List.map_cons, substitute_contained fresh values contained,
        substitute_contained fresh values contained]
      refine .meet new found (d.instantiate_map rfl given) ?_
      rw [← sound.supertypesAt_substitute fresh values found, ← List.map_append]
      refine ih fun u hu => ?_
      obtain waits | above := List.mem_append.mp hu
      · exact known u (List.mem_cons_of_mem _ waits)
      · obtain ⟨as, s, ps, _, ok, rfl⟩ := sound.supertypesAt found above
        exact ⟨s, rfl, ok.contained⟩

theorem Sound.lineage_substitute (sound : h.Sound) {as as' : List Annotation} {name : String}
    (contained : h.contains name = true) {params l l' : List TypeExpr}
    (climbs : h.lineage (.named as name params) = .ok l)
    (climbs' : h.lineage (.named as' name (params.map (TypeExpr.substitute names values))) =
      .ok l') :
    l' = l.map (TypeExpr.substitute names values) := by
  obtain ⟨entries, climb, rfl⟩ := climb_of_lineage rfl climbs
  obtain ⟨entries', climb', rfl⟩ := climb_of_lineage rfl climbs'
  have top : h.topType.substitute names values = h.topType :=
    substitute_contained fresh values h.contains_top
  have uniform := climb.substitute fresh values sound
    (List.forall_mem_singleton.mpr ⟨name, rfl, contained⟩)
  rw [List.map_singleton, TypeExpr.bare, setAnnotations,
    substitute_contained fresh values contained] at uniform
  rw [List.map_append, List.map_singleton, top, uniform.unique climb']

end Uniformity

/-- A supertype is declared for the first type, and the second one is this supertype: it has the
parameters of the first type for the variables, or is open where the supertype is declared raw. -/
def Inherits (h : Hierarchy) (t u : TypeExpr) : Prop :=
  ∃ d d' as params, h.get? t.erasedName = some d ∧ h.get? u.erasedName = some d' ∧
    .named as u.erasedName params ∈ d.supertypes ∧
    (params = [] → u.params = d'.params.map fun _ => .wildcard []) ∧
    (params ≠ [] → List.Forall₂ (Filled d.params t.params) params u.params)

theorem Sound.inherits {h : Hierarchy} (sound : h.Sound) {n : String} {d d' : Declaration}
    (found : h.get? n = some d) {args params params' : List TypeExpr} {as : List Annotation}
    {name : String} (fit : d.params.length = args.length)
    (above : .named as name params ∈ d.supertypesAt args) (found' : h.get? name = some d')
    (given : d'.instantiate params = .ok params') :
    h.Inherits (.named [] n args) (.named [] name params') := by
  obtain ⟨as', name', declared, hs, _, same⟩ := sound.supertypesAt found above
  cases same
  refine ⟨d, d', as, declared, found, found', hs, fun raw => ?_, fun some => ?_⟩
  · rw [TypeExpr.params, args_of_instantiate given, raw, List.map_nil, if_pos rfl]
  · rw [TypeExpr.params, TypeExpr.params, args_of_instantiate given,
      if_neg (mt List.map_eq_nil_iff.mp some)]
    exact forall₂_map_of_forall fun p _ => filled_substitute fit p

/-- The entry that the search makes of a type that is queued. -/
def HasEntry (h : Hierarchy) (t e : TypeExpr) : Prop :=
  ∃ as name params args d, t = .named as name params ∧ h.get? name = some d ∧
    d.instantiate params = .ok args ∧ e = .named [] name args

/-- An entry is that of a type that was queued from the start, or inherits from one before it. -/
theorem Climb.inherits {h : Hierarchy} (sound : h.Sound) {seen : List String}
    {queue entries : List TypeExpr} (climb : h.Climb seen queue entries)
    {before after : List TypeExpr} {e : TypeExpr} (place : entries = before ++ e :: after) :
    (∃ q ∈ queue, h.HasEntry q e) ∨ ∃ t ∈ before, h.Inherits t e := by
  induction climb generalizing before with
  | finish => simp at place
  | pass _ _ ih =>
      refine (ih place).imp_left fun queued => ?_
      obtain ⟨q, waits, entry⟩ := queued
      exact ⟨q, List.mem_cons_of_mem _ waits, entry⟩
  | @meet seen as name params queue args later d new found given rest ih =>
      cases before with
      | nil =>
          cases place
          exact .inl ⟨_, List.mem_cons_self, as, name, params, args, d, rfl, found, given, rfl⟩
      | cons first before =>
          obtain ⟨rfl, later⟩ := List.cons.inj place
          obtain ⟨q, queued, entry⟩ | ⟨t, ht, inherits⟩ := ih later
          · obtain waits | above := List.mem_append.mp queued
            · exact .inl ⟨q, List.mem_cons_of_mem _ waits, entry⟩
            · obtain ⟨as', name', params', args', d', rfl, found', given', rfl⟩ := entry
              refine .inr ⟨_, List.mem_cons_self, ?_⟩
              exact sound.inherits found (length_of_instantiate given).symm above found' given'
          · exact .inr ⟨t, List.mem_cons_of_mem _ ht, inherits⟩

/-- Every entry of a lineage but its first and the top type inherits from one before it. -/
theorem Sound.inherits_of_lineage {h : Hierarchy} (sound : h.Sound) {as : List Annotation}
    {name : String} {params before after : List TypeExpr} {e : TypeExpr}
    (climbs : h.lineage (.named as name params) = .ok (before ++ e :: after)) :
    e.erasedName = name ∨ e = h.topType ∨ ∃ t ∈ before, h.Inherits t e := by
  obtain ⟨entries, climb, place⟩ := climb_of_lineage rfl climbs
  obtain rfl | ⟨after, last, rfl⟩ := List.eq_nil_or_concat after
  · obtain ⟨_, same⟩ := List.append_inj' place rfl
    exact .inr (.inl (List.cons.inj same).1)
  · rw [List.concat_eq_append, ← List.cons_append, ← List.append_assoc] at place
    obtain ⟨place, _⟩ := List.append_inj' place rfl
    obtain ⟨_, front, _, name', _, _, _, same, _, _, rfl⟩ | above :=
      climb.inherits sound place.symm
    · cases (List.mem_singleton.mp front).symm.trans same
      exact .inl rfl
    · exact .inr (.inr above)

/-- The names in a type with arguments for some variables are those of the type but for these. -/
theorem names_of_filled {h : Hierarchy} {names : List String} {args : List TypeExpr}
    {t u : TypeExpr} (filled : Filled names args t u) (within : h.NamesWithin u) :
    ∀ v ∈ t.nodes, ∀ n, v.name? = some n → h.contains n = true ∨ n ∈ names := by
  induction t using induct generalizing u with
  | wildcard as => simp [nodes, name?]
  | union as members ih =>
      cases filled with
      | union each =>
          refine forall_nodes.mpr ⟨fun n named => ?_, fun m hm => ?_⟩
          · cases named
          · obtain ⟨m', hm', filled⟩ := exists_of_mem_left each hm
            exact ih m hm filled ((namesWithin_iff.mp within).2 m' hm')
  | named as name params ih =>
      cases filled with
      | replaced bound given =>
          refine forall_nodes.mpr ⟨fun n same => ?_, List.forall_mem_nil _⟩
          cases same
          exact .inr (List.mem_of_getElem? bound)
      | named free each =>
          obtain ⟨contained, below⟩ := namesWithin_named.mp within
          refine forall_nodes.mpr ⟨fun n same => ?_, fun p hp => ?_⟩
          · cases same
            exact .inl contained
          · obtain ⟨p', hp', filled⟩ := exists_of_mem_left each hp
            exact ih p hp filled (below p' hp')

/-- The lineage of a type with new names for its parameters is the pattern of another one. Both
start with their type and all its parameters. Arguments for the names give the other lineage, entry
by entry. What the pattern is made of are the new names and those of the hierarchy, so no variable
is left. What a declaration passes on to its supertypes are its own arguments, so no variable is
lost or taken for another. -/
structure Uniform (h : Hierarchy) (name : String) (names : List String) (args : List TypeExpr)
    (pattern l : List TypeExpr) : Prop where
  patternStart : pattern.head? = some (.named [] name (names.map fun n => .named [] n []))
  start : l.head? = some (.named [] name args)
  filled : List.Forall₂ (Filled names args) pattern l
  known : ∀ e ∈ pattern, ∀ u ∈ e.nodes, ∀ n, u.name? = some n → h.contains n = true ∨ n ∈ names
  inherits : ∀ before e after, l = before ++ e :: after →
    e.erasedName = name ∨ e = h.topType ∨ ∃ t ∈ before, h.Inherits t e

section Patterns

variable {h : Hierarchy} (sound : h.Sound) {name : String} {d : Declaration}
  (found : h.get? name = some d)
include sound found

theorem Sound.ne_top_of_get? : name ≠ h.top := by
  rintro rfl
  exact Bool.false_ne_true (sound.topFree.symm.trans (declares_iff_get?.mpr ⟨d, found⟩))

theorem exists_lineage_of_get? (as : List Annotation) {args : List TypeExpr}
    (fit : args.length = d.params.length) : ∃ l, h.lineage (.named as name args) = .ok l := by
  have other := sound.ne_top_of_get? found
  exact sound.exists_lineage ⟨_, arity_of_get? found other, .inr fit⟩

theorem head?_lineage {as : List Annotation} {args l : List TypeExpr}
    (fit : args.length = d.params.length) (climbs : h.lineage (.named as name args) = .ok l) :
    l.head? = some (.named [] name args) := by
  have other := sound.ne_top_of_get? found
  obtain ⟨rest, rfl⟩ := lineage_start (arity_of_get? found other) (.inr fit) climbs
  rw [← fit, fullParams_self, List.head?_cons]

variable {names : List String} (distinct : names.Nodup) (count : names.length = d.params.length)
  (fresh : ∀ n ∈ names, h.contains n = false) {pattern : List TypeExpr}
  (climbs : h.lineage (.named [] name (names.map fun n => .named [] n [])) = .ok pattern)
include distinct count fresh climbs

theorem filled_lineage {as : List Annotation} {args l : List TypeExpr}
    (fit : args.length = d.params.length) (climbs' : h.lineage (.named as name args) = .ok l) :
    List.Forall₂ (Filled names args) pattern l := by
  have fit : names.length = args.length := count.trans fit.symm
  rw [← map_substitute_variables distinct fit] at climbs'
  rw [sound.lineage_substitute fresh args (contains_of_get? found) climbs climbs']
  exact forall₂_map_of_forall fun e _ => filled_substitute fit e

/-- With open parameters for the new names only names of the hierarchy are left. -/
theorem names_of_pattern : ∀ e ∈ pattern, ∀ u ∈ e.nodes, ∀ n, u.name? = some n →
    h.contains n = true ∨ n ∈ names := by
  have fit : (d.params.map fun _ => wildcard []).length = d.params.length := List.length_map _
  obtain ⟨l, climbs'⟩ := exists_lineage_of_get? sound found [] fit
  have filled := filled_lineage sound found distinct count fresh climbs fit climbs'
  have kept := conserves_of_extend sound.valid (extend_nil_of_valid sound.valid)
  have opened : h.NamesWithin (.named [] name (d.params.map fun _ => .wildcard [])) := by
    refine namesWithin_named.mpr ⟨contains_of_get? found, fun p hp => ?_⟩
    obtain ⟨_, _, rfl⟩ := List.mem_map.mp hp
    exact h.namesWithin_wildcard []
  intro e he
  obtain ⟨e', he', filled⟩ := exists_of_mem_left filled he
  exact names_of_filled filled (kept.passed.lineage climbs' opened e' he')

end Patterns

/-- The lineages of a declared type under any arguments have one pattern. It is enough that the
names in the pattern are not those of types: they can be those of variables. -/
theorem lineage_uniform {base h : Hierarchy} {ds : List Declaration}
    (accepted : base.extend ds = .ok h) (topFree : h.declares h.top = false) {name : String}
    {d : Declaration} (found : h.get? name = some d) {names : List String}
    (distinct : names.Nodup) (count : names.length = d.params.length)
    (fresh : ∀ n ∈ names, h.contains n = false) (as : List Annotation) {args : List TypeExpr}
    (fit : args.length = d.params.length) :
    ∃ pattern l, h.lineage (.named [] name (names.map fun n => .named [] n [])) = .ok pattern ∧
      h.lineage (.named as name args) = .ok l ∧ h.Uniform name names args pattern l := by
  have sound : h.Sound := ⟨validate_of_extend accepted, topFree⟩
  have count' := (List.length_map fun n => named [] n []).trans count
  obtain ⟨pattern, climbs⟩ := exists_lineage_of_get? sound found [] count'
  obtain ⟨l, climbs'⟩ := exists_lineage_of_get? sound found as fit
  refine ⟨pattern, l, climbs, climbs', head?_lineage sound found count' climbs,
    head?_lineage sound found fit climbs', ?_, ?_, ?_⟩
  · exact filled_lineage sound found distinct count fresh climbs fit climbs'
  · exact names_of_pattern sound found distinct count fresh climbs
  · rintro before e after rfl
    exact sound.inherits_of_lineage climbs'

/-- A pair gives its variables to its supertype the other way round, and a type has the name of one
of them. -/
def pairs : Hierarchy where
  top := "Any"
  declarations :=
    [{ name := "A" },
     { name := "Box", params := ["A"] },
     { name := "Flipped", params := ["A", "B"]
       supertypes := [.named [] "Box" [.named [] "Box" [.named [] "B" []]]] },
     { name := "Pair", params := ["A", "B"]
       supertypes := [.named [] "Flipped" [.named [] "B" [], .named [] "A" []],
         .named [] "Box" []] }]

/-- The lineage of a `Pair` of two types, of which the nearer `Box` is raw. -/
def lineageOfPair (a b : TypeExpr) : List TypeExpr :=
  [.named [] "Pair" [a, b], .named [] "Flipped" [b, a], .named [] "Box" [.wildcard []],
    .named [] "Any" []]

theorem lineage_uniform_pair :
    pairs.extend [] = .ok pairs ∧ pairs.declares pairs.top = false ∧
      ∃ d, pairs.get? "Pair" = some d ∧ ["X", "Y"].Nodup ∧
        ["X", "Y"].length = d.params.length ∧
        (∀ n ∈ ["X", "Y"], pairs.contains n = false) ∧
        pairs.lineage (.named [] "Pair" [.named [] "X" [], .named [] "Y" []]) =
          .ok (lineageOfPair (.named [] "X" []) (.named [] "Y" [])) ∧
        pairs.lineage (.named [] "Pair" [.named [] "B" [], .union [] [.named [] "A" []]]) =
          .ok (lineageOfPair (.named [] "B" []) (.union [] [.named [] "A" []])) ∧
        pairs.Uniform "Pair" ["X", "Y"] [.named [] "B" [], .union [] [.named [] "A" []]]
          (lineageOfPair (.named [] "X" []) (.named [] "Y" []))
          (lineageOfPair (.named [] "B" []) (.union [] [.named [] "A" []])) := by
  have accepted : pairs.extend [] = .ok pairs := extend_nil_of_valid (by decide +kernel)
  have free : pairs.declares pairs.top = false := by decide +kernel
  have distinct : ["X", "Y"].Nodup := by decide
  have fresh : ∀ n ∈ ["X", "Y"], pairs.contains n = false := by decide +kernel
  have letters : pairs.lineage (.named [] "Pair" [.named [] "X" [], .named [] "Y" []]) =
      .ok (lineageOfPair (.named [] "X" []) (.named [] "Y" [])) := by cbv
  have types : pairs.lineage (.named [] "Pair" [.named [] "B" [], .union [] [.named [] "A" []]]) =
      .ok (lineageOfPair (.named [] "B" []) (.union [] [.named [] "A" []])) := by cbv
  obtain ⟨d, found, count⟩ : ∃ d, pairs.get? "Pair" = some d ∧ 2 = d.params.length :=
    ⟨_, rfl, rfl⟩
  have fit : [named [] "B" [], union [] [named [] "A" []]].length = d.params.length := count
  obtain ⟨pattern, l, climbs, climbs', uniform⟩ :=
    lineage_uniform accepted free found distinct count fresh [] fit
  cases letters.symm.trans climbs
  cases types.symm.trans climbs'
  exact ⟨accepted, free, d, found, distinct, count, fresh, letters, types, uniform⟩

end Hierarchy

end Overload
