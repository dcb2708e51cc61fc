import Overload.Proofs.JoinChoice

/-!
A join absorbs itself: put anywhere among the types that were joined, it leaves the join as it is.
It is its own nearest ancestor, so nothing else that is still shared lies below it, and each of its
parameters comes into a column whose join it is.
-/
namespace Overload.Hierarchy

open TypeExpr

/-- A way to join that comes to the same again when its result is among the types. -/
def Absorbing (join : List TypeExpr → Except HierarchyError TypeExpr) : Prop :=
  ∀ before after j, join (before ++ after) = .ok j → join (before ++ j :: after) = .ok j

theorem agreed?_absorbs {before after : List TypeExpr} {t : TypeExpr}
    (agree : agreed? (before ++ after) = some t) : agreed? (before ++ t :: after) = some t := by
  obtain ⟨front, all⟩ := agreed?_eq_some.mp agree
  refine agreed?_eq_some.mpr ⟨?_, fun u hu => ?_⟩
  · cases before with
    | nil => rfl
    | cons b before => exact front
  · rw [List.mem_append, List.mem_cons] at hu
    obtain hu | rfl | hu := hu
    · exact all u (List.mem_append_left _ hu)
    · exact sameType_refl u
    · exact all u (List.mem_append_right _ hu)

/-- Types that differ still do so among more types. -/
theorem differ_of_subset {ts us : List TypeExpr} (differ : agreed? ts = none) (some : ts ≠ [])
    (sub : ts ⊆ us) : agreed? us = none := by
  cases agree : agreed? us with
  | none => rfl
  | some v =>
      obtain ⟨_, all⟩ := agreed?_eq_some.mp agree
      obtain ⟨t, front⟩ := Option.isSome_iff_exists.mp (List.isSome_head?.mpr some)
      have alike : ∀ u ∈ ts, t.sameType u = true := by
        intro u hu
        have left : t.sameType v = true := by
          rw [sameType_comm]
          exact all t (sub (List.mem_of_head? front))
        exact sameType_trans left (all u (sub hu))
      rw [agreed?_eq_some.mpr ⟨front, alike⟩] at differ
      cases differ

theorem subset_insert (before after : List TypeExpr) (t : TypeExpr) :
    before ++ after ⊆ before ++ t :: after :=
  ((List.sublist_cons_self t after).append_left before).subset

theorem flattenAll_insert {before after : List TypeExpr} {j : TypeExpr}
    (single : j.isUnion = false) (plain : j.annotations = []) :
    flattenAll (before ++ j :: after) = flattenAll before ++ j :: flattenAll after := by
  have self : flatten j = [j] := by rw [flatten_single single, bare_of_plain plain]
  simp only [flattenAll_eq_flatMap, List.flatMap_append, List.flatMap_cons, self,
    List.singleton_append]

/-- A type with the parameters that its name takes stands at the front of its own lineage. -/
theorem lineage_self {h : Hierarchy} {as : List Annotation} {name : String}
    {params l : List TypeExpr} (arity : h.arity name = .ok params.length)
    (climbs : h.lineage (.named as name params) = .ok l) :
    ∃ rest, l = .named [] name params :: rest := by
  rw [← fullParams_self params]
  exact lineage_start arity (.inr rfl) climbs

theorem entryNamed?_self {name : String} {as : List Annotation} {params rest : List TypeExpr} :
    entryNamed? name (.named as name params :: rest) = some (.named as name params) :=
  List.find?_cons_of_pos (p := fun t : TypeExpr => t.erasedName == name) (beq_self_eq_true name)

/-- Columns that take in the joins made of them have the same joins again. -/
theorem columns_absorb {onColumn : List TypeExpr → Except HierarchyError TypeExpr}
    (absorbing : Absorbing onColumn) {before after : List (List TypeExpr)} {a b : TypeExpr}
    {params : List TypeExpr} (rest : List TypeExpr) (same : b.erasedName = a.erasedName)
    (length : b.params.length = params.length)
    (joined : List.Forall₂ (fun c p => onColumn c = .ok p) (columns (before ++ after) a) params) :
    List.Forall₂ (fun c p => onColumn c = .ok p)
      (columns (before ++ (.named [] a.erasedName params :: rest) :: after) b) params := by
  have ⟨long, each⟩ := List.forall₂_iff_get.mp joined
  refine List.forall₂_iff_get.mpr ⟨by rw [length_columns, length], fun i hi hp => ?_⟩
  have join := each i (by rwa [long]) hp
  simp only [columns, List.get_eq_getElem, List.getElem_map, List.getElem_range,
    List.filterMap_append, List.filterMap_cons, same, entryNamed?_self] at join ⊢
  rw [TypeExpr.params, List.getElem?_eq_getElem hp]
  exact absorbing _ _ _ join

/-- The ancestor that a search settles on has the parameters that its name takes, and its name is a
least one of those that are shared. -/
theorem nearest_entry {h : Hierarchy} {types : List TypeExpr} {lineages : List (List TypeExpr)}
    {a : TypeExpr} (climbs : h.Lineages types lineages) (chosen : h.nearest? lineages = some a) :
    h.arity a.erasedName = .ok a.params.length ∧ h.LeastShared types a.erasedName := by
  have lowest := (firstPreferred_of_chosen climbs chosen).preferred.1
  obtain ⟨l, hl, ha⟩ := exists_lineage_of_shared (mem_minimalEntries.mp (mem_of_chosen chosen)).1
  obtain ⟨_, _, climb⟩ := exists_of_mem_right climbs hl
  obtain ⟨name, args, rfl, arity⟩ := lineage_entry climb ha
  exact ⟨arity, lowest⟩

section Absorption

variable {h : Hierarchy} (sound : h.Sound)
include sound

/-- Among types that all have the name of one of them above them, no other name is least. -/
theorem name_of_leastShared {types : List TypeExpr} {t : TypeExpr} {name least : String}
    (member : t ∈ types) (named : t.name? = some name) (shared : h.Shared types name)
    (lowest : h.LeastShared types least) : least = name := by
  obtain ⟨l, climbs, above⟩ := lowest.1 t member
  exact (lowest.2 name shared ((sound.mem_lineage_names named climbs).mp above)).symm

/-- A search among types that all have the name of one of them above them settles on that name. -/
theorem exists_nearest_of_member {types : List TypeExpr} {lineages : List (List TypeExpr)}
    (climbs : h.Lineages types lineages) {t : TypeExpr} {name : String} (member : t ∈ types)
    (named : t.name? = some name) (shared : h.Shared types name) :
    ∃ a, h.nearest? lineages = some a ∧ a.erasedName = name ∧
      h.arity name = .ok a.params.length := by
  obtain ⟨a, chosen⟩ := sound.exists_nearest climbs (List.ne_nil_of_mem member)
  obtain ⟨arity, lowest⟩ := nearest_entry climbs chosen
  have same : a.erasedName = name := name_of_leastShared sound member named shared lowest
  exact ⟨a, chosen, same, same ▸ arity⟩

theorem ancestor_absorbs {onColumn : List TypeExpr → Except HierarchyError TypeExpr}
    (absorbing : Absorbing onColumn) {before after : List TypeExpr}
    {lineages : List (List TypeExpr)} {a : TypeExpr} {params : List TypeExpr}
    (some : before ++ after ≠ []) (differ : agreed? (before ++ after) = none)
    (closed : ∀ t ∈ before ++ after, t.isWildcard = false)
    (climbs : h.Lineages (before ++ after) lineages) (chosen : h.nearest? lineages = .some a)
    (joined : List.Forall₂ (fun c p => onColumn c = .ok p) (columns lineages a) params) :
    h.Joined onColumn (before ++ .named [] a.erasedName params :: after)
      (.named [] a.erasedName params) := by
  obtain ⟨arity, shared, _⟩ := nearest_entry climbs chosen
  rw [← length_columns lineages, joined.length_eq] at arity
  obtain ⟨l, climb⟩ := sound.exists_lineage (t := .named [] a.erasedName params)
    ⟨_, arity, .inr rfl⟩
  obtain ⟨rest, rfl⟩ := lineage_self arity climb
  obtain ⟨ls, ms, rfl, left, right⟩ := exists_append_of_forall₂ climbs
  generalize join : TypeExpr.named [] a.erasedName params = j at *
  have member : j ∈ before ++ j :: after := List.mem_append_right _ List.mem_cons_self
  have named : j.name? = .some a.erasedName := join ▸ rfl
  have climbs' : h.Lineages (before ++ j :: after) (ls ++ (j :: rest) :: ms) :=
    List.rel_append left (.cons climb right)
  have shared' : h.Shared (before ++ j :: after) a.erasedName := by
    rw [shared_iff climbs', List.forall_mem_append, List.forall_mem_cons]
    obtain ⟨first, second⟩ := List.forall_mem_append.mp ((shared_iff climbs).mp shared)
    exact ⟨first, join ▸ List.mem_cons_self, second⟩
  have closed' : ∀ t ∈ before ++ j :: after, t.isWildcard = false := by
    rw [List.forall_mem_append, List.forall_mem_cons]
    obtain ⟨first, second⟩ := List.forall_mem_append.mp closed
    exact ⟨first, join ▸ rfl, second⟩
  have differ' := differ_of_subset differ some (subset_insert before after j)
  obtain ⟨b, chosen', same, arity'⟩ := exists_nearest_of_member sound climbs' member named shared'
  have length : b.params.length = params.length := Except.ok.inj (arity'.symm.trans arity)
  subst join
  have joined' := columns_absorb absorbing rest same length joined
  have again := Joined.ancestor (List.ne_nil_of_mem member) differ' closed' climbs' chosen' joined'
  rwa [same] at again

theorem joined_absorbs {onColumn : List TypeExpr → Except HierarchyError TypeExpr}
    (absorbing : Absorbing onColumn) {before after : List TypeExpr} {j : TypeExpr}
    (joined : h.Joined onColumn (before ++ after) j) :
    h.Joined onColumn (before ++ j :: after) j := by
  cases joined with
  | nothing none =>
      obtain ⟨rfl, rfl⟩ := List.append_eq_nil_iff.mp none
      exact .agreed rfl
  | agreed agree => exact .agreed (agreed?_absorbs agree)
  | opened differ wild =>
      obtain ⟨t, ht, _⟩ := wild
      refine .opened ?_ ⟨.wildcard [], List.mem_append_right _ List.mem_cons_self, rfl⟩
      exact differ_of_subset differ (List.ne_nil_of_mem ht) (subset_insert before after _)
  | ancestor some differ closed climbs chosen joined =>
      exact ancestor_absorbs sound absorbing some differ closed climbs chosen joined
  | unshared some differ closed climbs unchosen =>
      obtain ⟨a, chosen⟩ := sound.exists_nearest climbs some
      rw [unchosen] at chosen
      cases chosen

theorem absorbing_joinBy {onColumn : List TypeExpr → Except HierarchyError TypeExpr}
    (absorbing : Absorbing onColumn) : Absorbing (h.joinBy onColumn) := by
  intro before after j ok
  obtain ⟨single, plain⟩ := joinBy_normal ok
  rw [joinBy_eq_ok, flattenAll_insert single plain]
  rw [joinBy_eq_ok, flattenAll_append] at ok
  exact joined_absorbs sound absorbing ok

omit sound in
/-- An open type among others leaves their join open. -/
theorem exists_open_joinBy {onColumn : List TypeExpr → Except HierarchyError TypeExpr}
    {types : List TypeExpr} (wild : ∃ t ∈ flattenAll types, t.isWildcard = true) :
    ∃ w, h.joinBy onColumn types = .ok w ∧ w.isWildcard = true := by
  cases agree : agreed? (flattenAll types) with
  | none => exact ⟨_, joinBy_eq_ok.mpr (.opened agree wild), rfl⟩
  | some t =>
      have joined : h.Joined onColumn (flattenAll types) t := .agreed agree
      exact ⟨t, joinBy_eq_ok.mpr joined, isWildcard_of_open joined wild⟩

omit sound in
theorem joinColumn_of_agreed {depth : Nat} {column : List TypeExpr} {t : TypeExpr}
    (agree : agreed? column = some t) : h.joinColumn depth column = .ok t := by
  cases depth <;> simp [joinColumn, agree]

omit sound in
theorem joinColumn_succ_eq_ok {depth : Nat} {column : List TypeExpr} {p : TypeExpr}
    (differ : agreed? column = none) : h.joinColumn (depth + 1) column = .ok p ↔
      ∃ t, h.joinBy (h.joinColumn depth) column = .ok t ∧
        p = if h.isContentFree t then .wildcard [] else t := by
  simp only [joinColumn, differ, bind_eq_ok, Except.ok.injEq]
  exact exists_congr fun t => and_congr_right fun _ => eq_comm

omit sound in
/-- A column without types has an open join. -/
theorem joinColumn_nil (depth : Nat) : h.joinColumn depth [] = .ok (.wildcard []) := by
  cases depth with
  | zero => rfl
  | succ depth =>
      have free : h.isContentFree h.topType = true := by simp [topType, isContentFree]
      exact (joinColumn_succ_eq_ok rfl).mpr ⟨h.topType, rfl, by rw [if_pos free]⟩

omit sound in
/-- Only columns whose types differ are left to look at, and with their join they differ too. -/
theorem absorbing_of_differ {depth : Nat}
    (step : ∀ before after p, agreed? (before ++ after) = none →
      agreed? (before ++ p :: after) = none → h.joinColumn depth (before ++ after) = .ok p →
        h.joinColumn depth (before ++ p :: after) = .ok p) : Absorbing (h.joinColumn depth) := by
  intro before after p ok
  cases agree : agreed? (before ++ after) with
  | some t =>
      cases (joinColumn_of_agreed agree).symm.trans ok
      exact joinColumn_of_agreed (agreed?_absorbs agree)
  | none =>
      by_cases none : before ++ after = []
      · obtain ⟨rfl, rfl⟩ := List.append_eq_nil_iff.mp none
        cases (joinColumn_nil depth).symm.trans ok
        exact joinColumn_of_agreed rfl
      · exact step before after p agree
          (differ_of_subset agree none (subset_insert before after p)) ok

/-- A column absorbs its join, be it what the column agrees on, the join of its types, or an open
parameter for want of depth or of content. -/
theorem absorbing_joinColumn (depth : Nat) : Absorbing (h.joinColumn depth) := by
  induction depth with
  | zero =>
      refine absorbing_of_differ fun before after p differ differ' ok => ?_
      rw [joinColumn, differ] at ok
      rw [joinColumn, differ']
      exact ok
  | succ depth ih =>
      refine absorbing_of_differ fun before after p differ differ' ok => ?_
      obtain ⟨t, joined, rfl⟩ := (joinColumn_succ_eq_ok differ).mp ok
      refine (joinColumn_succ_eq_ok differ').mpr ?_
      by_cases free : h.isContentFree t = true
      · rw [if_pos free]
        have wild : ∃ u ∈ flattenAll (before ++ .wildcard [] :: after), u.isWildcard = true := by
          rw [flattenAll_insert rfl rfl]
          exact ⟨.wildcard [], List.mem_append_right _ List.mem_cons_self, rfl⟩
        obtain ⟨w, joined', opened⟩ := exists_open_joinBy (h := h) wild
        have free' : h.isContentFree w = true := by
          cases w <;> simp_all [isWildcard, isContentFree]
        exact ⟨w, joined', (if_pos free').symm⟩
      · rw [if_neg free]
        exact ⟨t, absorbing_joinBy sound ih before after t joined, (if_neg free).symm⟩

end Absorption

/-- The join of types is also that of the types and their join, whichever comes first, at every
depth and whatever the join comes to. -/
theorem join_absorbs {base h : Hierarchy} {ds : List Declaration}
    (accepted : base.extend ds = .ok h) (topFree : h.declares h.top = false)
    {types : List TypeExpr} {depth : Nat} {j : TypeExpr}
    (joined : h.joinWithin types depth = .ok j) :
    h.joinWithin (types ++ [j]) depth = .ok j ∧ h.joinWithin (j :: types) depth = .ok j := by
  have sound : h.Sound := ⟨validate_of_extend accepted, topFree⟩
  have absorbing : Absorbing fun ts => h.joinWithin ts depth :=
    absorbing_joinBy sound (absorbing_joinColumn sound depth)
  refine ⟨absorbing types [] j ?_, absorbing [] types j joined⟩
  rwa [List.append_nil]

/-- At depth one the join of the two collections leaves its inner parameter open. -/
theorem join_absorbs_collections :
    builtin.extend [] = .ok builtin ∧ builtin.declares builtin.top = false ∧
      builtin.joinWithin nestedCollections 1 =
        .ok (.named [] "Collection" [.named [] "Collection" [.wildcard []]]) ∧
      builtin.joinWithin (nestedCollections ++
        [.named [] "Collection" [.named [] "Collection" [.wildcard []]]]) 1 =
          .ok (.named [] "Collection" [.named [] "Collection" [.wildcard []]]) := by
  have joined : builtin.joinWithin nestedCollections 1 =
      .ok (.named [] "Collection" [.named [] "Collection" [.wildcard []]]) := by cbv
  exact ⟨builtin_accepted, builtin_sound.topFree, joined,
    (join_absorbs builtin_accepted builtin_sound.topFree joined).1⟩

end Overload.Hierarchy
