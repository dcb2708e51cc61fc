import Mathlib.Data.List.Find
import Overload.Proofs.Checked

/-!
The choice of a join. The names that all lineages share have minimal ones among them, since
subtyping orders names, and the join has the name of the first minimal one that says something
about its values, or of the first if none does.
-/
namespace Overload.Hierarchy

open TypeExpr

/-- A name that the lineages of all types share. -/
def Shared (h : Hierarchy) (types : List TypeExpr) (name : String) : Prop :=
  ∀ t ∈ types, ∃ l, h.lineage t = .ok l ∧ name ∈ l.map erasedName

/-- A shared name without a shared name below it. -/
def LeastShared (h : Hierarchy) (types : List TypeExpr) (name : String) : Prop :=
  h.Shared types name ∧
    ∀ other, h.Shared types other → h.isSubtypeName other name = true → other = name

/-- Whether a name says nothing about the values of its types. -/
def isFreeName (h : Hierarchy) (name : String) : Bool := h.isContentFree (.named [] name [])

/-- A least shared name that says something about its values, if there is one that does. -/
def Preferred (h : Hierarchy) (types : List TypeExpr) (name : String) : Prop :=
  h.LeastShared types name ∧
    (h.isFreeName name = true → ∀ n, h.LeastShared types n → h.isFreeName n = true)

/-- Among finitely many names one has none of the others below it. -/
theorem Sound.exists_least {h : Hierarchy} (sound : h.Sound) {names : List String}
    (some : names ≠ []) :
    ∃ m ∈ names, ∀ n ∈ names, h.isSubtypeName n m = true → n = m := by
  induction names with
  | nil => exact absurd rfl some
  | cons a names ih =>
      by_cases alone : names = []
      · subst alone
        exact ⟨a, List.mem_cons_self, fun n hn _ => List.mem_singleton.mp hn⟩
      · obtain ⟨m, hm, least⟩ := ih alone
        by_cases below : h.isSubtypeName a m = true
        · refine ⟨a, List.mem_cons_self, fun n hn sub => ?_⟩
          obtain same | hn := List.mem_cons.mp hn
          · exact same
          · have same := least n hn (sound.isSubtypeName_trans sub below)
            subst same
            exact sound.isSubtypeName_antisymm sub below
        · refine ⟨m, List.mem_cons_of_mem a hm, fun n hn sub => ?_⟩
          obtain rfl | hn := List.mem_cons.mp hn
          · exact absurd sub below
          · exact least n hn sub

theorem shared_iff {h : Hierarchy} {types : List TypeExpr} {lineages : List (List TypeExpr)}
    (climbs : h.Lineages types lineages) {name : String} :
    h.Shared types name ↔ ∀ l ∈ lineages, name ∈ l.map erasedName := by
  constructor
  · intro shared l hl
    obtain ⟨t, ht, climb⟩ := exists_of_mem_right climbs hl
    obtain ⟨l', climb', member⟩ := shared t ht
    cases climb.symm.trans climb'
    exact member
  · intro all t ht
    obtain ⟨l, hl, climb⟩ := exists_of_mem_left climbs ht
    exact ⟨l, climb, all l hl⟩

theorem shared_top {h : Hierarchy} {types : List TypeExpr} {lineages : List (List TypeExpr)}
    (climbs : h.Lineages types lineages) : h.Shared types h.top := by
  intro t ht
  obtain ⟨l, _, climb⟩ := exists_of_mem_left climbs ht
  exact ⟨l, climb, List.mem_map_of_mem (topType_mem_lineage climb)⟩

/-- Below each shared name there is a least one. -/
theorem Sound.exists_leastShared_below {h : Hierarchy} (sound : h.Sound) {types : List TypeExpr}
    (some : types ≠ []) {n : String} (shared : h.Shared types n) :
    ∃ m, h.LeastShared types m ∧ h.isSubtypeName m n = true := by
  classical
  obtain ⟨t, ht⟩ := List.exists_mem_of_ne_nil types some
  obtain ⟨l, climb, member⟩ := shared t ht
  have below : ∀ m,
      m ∈ (l.map erasedName).filter (fun m => h.Shared types m ∧ h.isSubtypeName m n = true) ↔
        h.Shared types m ∧ h.isSubtypeName m n = true := by
    intro m
    simp only [List.mem_filter, decide_eq_true_eq, and_iff_right_iff_imp]
    intro given
    obtain ⟨l', climb', inside⟩ := given.1 t ht
    cases climb.symm.trans climb'
    exact inside
  have inhabited := List.ne_nil_of_mem ((below n).mpr ⟨shared, isSubtypeName_refl h n⟩)
  obtain ⟨m, hm, least⟩ := sound.exists_least inhabited
  obtain ⟨own, sub⟩ := (below m).mp hm
  refine ⟨m, ⟨own, fun other all lower => least other ((below other).mpr ?_) lower⟩, sub⟩
  exact ⟨all, sound.isSubtypeName_trans lower sub⟩

theorem Sound.exists_leastShared {h : Hierarchy} (sound : h.Sound) {types : List TypeExpr}
    {lineages : List (List TypeExpr)} (climbs : h.Lineages types lineages)
    (some : types ≠ []) : ∃ n, h.LeastShared types n :=
  (sound.exists_leastShared_below some (shared_top climbs)).imp fun _ => And.left

variable {h : Hierarchy} {types : List TypeExpr} {first : List TypeExpr}
  {others : List (List TypeExpr)}

theorem mem_sharedEntries_iff (climbs : h.Lineages types (first :: others)) {e : TypeExpr} :
    e ∈ sharedEntries (first :: others) ↔ e ∈ first ∧ h.Shared types e.erasedName := by
  rw [mem_sharedEntries, shared_iff climbs, List.forall_mem_cons]
  constructor
  · intro shared
    exact ⟨shared.1, List.mem_map_of_mem shared.1, shared.2⟩
  · intro shared
    exact ⟨shared.1, shared.2.2⟩

theorem exists_entry_of_name (climbs : h.Lineages types (first :: others)) {n : String}
    (shared : h.Shared types n) : ∃ e ∈ first, e.erasedName = n :=
  List.mem_map.mp ((shared_iff climbs).mp shared first List.mem_cons_self)

theorem mem_minimalEntries_iff (climbs : h.Lineages types (first :: others)) {e : TypeExpr} :
    e ∈ h.minimalEntries (sharedEntries (first :: others)) ↔
      e ∈ first ∧ h.LeastShared types e.erasedName := by
  rw [mem_minimalEntries, mem_sharedEntries_iff climbs, and_assoc]
  refine and_congr_right fun _ => and_congr_right fun _ => ⟨fun least n shared sub => ?_, ?_⟩
  · obtain ⟨u, hu, rfl⟩ := exists_entry_of_name climbs shared
    exact least u ((mem_sharedEntries_iff climbs).mpr ⟨hu, shared⟩) sub
  · intro least u hu sub
    exact least _ ((mem_sharedEntries_iff climbs).mp hu).2 sub

theorem isContentFree_of_mem_lineage {t e : TypeExpr} {l : List TypeExpr}
    (climb : h.lineage t = .ok l) (he : e ∈ l) :
    h.isContentFree e = h.isFreeName e.erasedName := by
  obtain ⟨name, args, rfl, _⟩ := lineage_entry climb he
  rfl

open Classical in
theorem minimalEntries_eq_filter (climbs : h.Lineages types (first :: others)) :
    h.minimalEntries (sharedEntries (first :: others)) =
      first.filter fun e => h.LeastShared types e.erasedName := by
  rw [minimalEntries, sharedEntries, List.filter_filter]
  refine List.filter_congr fun e he => ?_
  have member := @mem_minimalEntries_iff _ _ _ _ climbs e
  rw [minimalEntries, sharedEntries, List.filter_filter, List.mem_filter] at member
  rw [Bool.eq_iff_iff, decide_eq_true_eq]
  exact ⟨fun ok => (member.mp ⟨he, ok⟩).2, fun least => (member.mpr ⟨he, least⟩).2⟩

theorem preferred_iff_of_content {n : String} (least : h.LeastShared types n)
    (full : h.isFreeName n = false) (m : String) :
    h.Preferred types m ↔ h.LeastShared types m ∧ h.isFreeName m = false := by
  constructor
  · intro preferred
    refine ⟨preferred.1, Bool.eq_false_iff.mpr fun free => ?_⟩
    exact absurd (preferred.2 free n least) (by simp [full])
  · intro other
    exact ⟨other.1, fun free => absurd free (by simp [other.2])⟩

theorem preferred_iff_of_free (free : ∀ n, h.LeastShared types n → h.isFreeName n = true)
    (m : String) : h.Preferred types m ↔ h.LeastShared types m :=
  ⟨And.left, fun least => ⟨least, fun _ => free⟩⟩

open Classical in
/-- The entry chosen is the first of a preferred name in the first lineage. -/
theorem nearest?_eq_find? (climbs : h.Lineages types (first :: others)) :
    h.nearest? (first :: others) = first.find? fun e => h.Preferred types e.erasedName := by
  obtain ⟨t, _, climb⟩ := exists_of_mem_right climbs List.mem_cons_self
  have content : ∀ e ∈ first, decide (decide (h.LeastShared types e.erasedName) = true ∧
      (!h.isContentFree e) = true) =
        decide (h.LeastShared types e.erasedName ∧ h.isFreeName e.erasedName = false) := by
    intro e he
    rw [isContentFree_of_mem_lineage climb he]
    exact decide_eq_decide.mpr (and_congr decide_eq_true_iff (by rw [Bool.not_eq_true']))
  rw [nearest?, minimalEntries_eq_filter climbs, chooseEntry?, List.find?_filter,
    List.head?_filter, List.find?_congr content]
  by_cases some : ∃ n, h.LeastShared types n ∧ h.isFreeName n = false
  · obtain ⟨n, least, full⟩ := some
    simp only [preferred_iff_of_content least full]
    refine Option.or_of_isSome ?_
    obtain ⟨e, he, rfl⟩ := exists_entry_of_name climbs least.1
    exact List.find?_isSome.mpr ⟨e, he, decide_eq_true ⟨least, full⟩⟩
  -- Without content among the least names the search falls back to the first of them.
  · have free : ∀ n, h.LeastShared types n → h.isFreeName n = true := fun n least =>
      Bool.not_eq_false _ ▸ fun full => some ⟨n, least, full⟩
    simp only [preferred_iff_of_free free]
    have none : ∀ e ∈ first, ¬ decide (h.LeastShared types e.erasedName ∧
        h.isFreeName e.erasedName = false) = true := by
      intro e _
      simpa using free e.erasedName
    rw [List.find?_eq_none.mpr none, Option.none_or]

theorem Sound.preferred_of_agreed (sound : h.Sound) {t : TypeExpr} {n : String}
    (agree : agreed? types = some t) (named : t.name? = some n)
    (climbs : ∀ u ∈ types, ∃ l, h.lineage u = .ok l) : h.Preferred types n := by
  obtain ⟨front, all⟩ := agreed?_eq_some.mp agree
  have shared : ∀ m, h.Shared types m ↔ h.isSubtypeName n m = true := by
    intro m
    constructor
    · intro shared
      obtain ⟨l, climb, member⟩ := shared t (List.mem_of_head? front)
      exact (sound.mem_lineage_names named climb).mp member
    · intro sub u hu
      obtain ⟨l, climb⟩ := climbs u hu
      have named' := (name?_of_sameType (all u hu)).symm.trans named
      exact ⟨l, climb, (sound.mem_lineage_names named' climb).mpr sub⟩
  have own := (shared n).mpr (isSubtypeName_refl h n)
  refine ⟨⟨own, fun m all sub => ?_⟩, fun free m least => ?_⟩
  · exact sound.isSubtypeName_antisymm sub ((shared m).mp all)
  · rw [← least.2 n own ((shared m).mp least.1)]
    exact free

theorem Sound.exists_preferred (sound : h.Sound) {lineages : List (List TypeExpr)}
    (climbs : h.Lineages types lineages) (some : types ≠ []) : ∃ n, h.Preferred types n := by
  by_cases content : ∃ n, h.LeastShared types n ∧ h.isFreeName n = false
  · obtain ⟨n, least, full⟩ := content
    exact ⟨n, (preferred_iff_of_content least full n).mpr ⟨least, full⟩⟩
  · obtain ⟨n, least⟩ := sound.exists_leastShared climbs some
    refine ⟨n, (preferred_iff_of_free (fun m least' => ?_) n).mpr least⟩
    exact Bool.not_eq_false _ ▸ fun full => content ⟨m, least', full⟩

/-- The first entry of a preferred name in the lineage of the first type. -/
def FirstPreferred (h : Hierarchy) (types : List TypeExpr) (e : TypeExpr) : Prop :=
  ∃ t before after, types.head? = some t ∧ h.lineage t = .ok (before ++ e :: after) ∧
    h.Preferred types e.erasedName ∧ ∀ u ∈ before, ¬ h.Preferred types u.erasedName

theorem FirstPreferred.preferred {e : TypeExpr} (front : h.FirstPreferred types e) :
    h.Preferred types e.erasedName := by
  obtain ⟨_, _, _, _, _, preferred, _⟩ := front
  exact preferred

theorem firstPreferred_of_chosen {lineages : List (List TypeExpr)} {a : TypeExpr}
    (climbs : h.Lineages types lineages) (chosen : h.nearest? lineages = some a) :
    h.FirstPreferred types a := by
  cases climbs with
  | nil => simp [nearest?, sharedEntries, minimalEntries, chooseEntry?] at chosen
  | cons climb rest =>
      rw [nearest?_eq_find? (.cons climb rest), List.find?_eq_some_iff_append] at chosen
      obtain ⟨preferred, before, after, rfl, others⟩ := chosen
      exact ⟨_, before, after, rfl, climb, by simpa using preferred,
        fun u hu => by simpa using others u hu⟩

theorem Sound.exists_nearest (sound : h.Sound) {lineages : List (List TypeExpr)}
    (climbs : h.Lineages types lineages) (some : types ≠ []) :
    ∃ a, h.nearest? lineages = .some a := by
  obtain ⟨n, preferred⟩ := sound.exists_preferred climbs some
  cases climbs with
  | nil => exact absurd rfl some
  | cons climb rest =>
      rw [nearest?_eq_find? (.cons climb rest), ← Option.isSome_iff_exists, List.find?_isSome]
      obtain ⟨e, he, rfl⟩ := exists_entry_of_name (.cons climb rest) preferred.1.1
      exact ⟨e, he, by simpa using preferred⟩

theorem Sound.firstPreferred_of_agreed (sound : h.Sound) {t : TypeExpr} {n : String}
    (agree : agreed? types = some t) (named : t.name? = some n)
    (climbs : ∀ u ∈ types, ∃ l, h.lineage u = .ok l) :
    ∃ e, h.FirstPreferred types e ∧ e.erasedName = n := by
  have front := (agreed?_eq_some.mp agree).1
  obtain ⟨l, climb⟩ := climbs t (List.mem_of_head? front)
  obtain ⟨e, rest, rfl, same⟩ := lineage_front named climb
  refine ⟨e, ⟨t, [], rest, front, climb, ?_, by simp⟩, same⟩
  rw [same]
  exact sound.preferred_of_agreed agree named climbs

theorem Sound.firstPreferred_of_joinBy (sound : h.Sound)
    {onColumn : List TypeExpr → Except HierarchyError TypeExpr} {j : TypeExpr}
    (checked : ∀ t ∈ types, h.check t = .ok ()) (some : flattenAll types ≠ [])
    (closed : ∀ t ∈ flattenAll types, t.isWildcard = false)
    (ok : h.joinBy onColumn types = .ok j) :
    ∃ e, h.FirstPreferred (flattenAll types) e ∧ j.name? = .some e.erasedName := by
  have climbs : ∀ u ∈ flattenAll types, ∃ l, h.lineage u = .ok l := fun u hu =>
    sound.exists_lineage (rooted_of_check (check_flattenAll checked u hu))
  cases joinBy_eq_ok.mp ok with
  | nothing none => exact absurd none some
  | agreed agree =>
      have member := List.mem_of_head? (agreed?_eq_some.mp agree).1
      obtain ⟨n, named⟩ := exists_name_of_flattenAll member (closed j member)
      obtain ⟨e, first, rfl⟩ := sound.firstPreferred_of_agreed agree named climbs
      exact ⟨e, first, named⟩
  | opened differ wild =>
      obtain ⟨t, ht, wild⟩ := wild
      rw [closed t ht] at wild
      exact absurd wild Bool.false_ne_true
  | ancestor _ differ _ climbs chosen joined =>
      exact ⟨_, firstPreferred_of_chosen climbs chosen, rfl⟩
  | unshared _ differ _ climbs unchosen =>
      obtain ⟨a, chosen⟩ := sound.exists_nearest climbs some
      rw [unchosen] at chosen
      cases chosen

/-- Types that have nothing in common: one of them is open, or there are none, or no least name that
they share says something about its values. -/
def NothingShared (h : Hierarchy) (types : List TypeExpr) : Prop :=
  (∃ t ∈ flattenAll types, t.isWildcard = true) ∨ flattenAll types = [] ∨
    ∀ n, h.LeastShared (flattenAll types) n → h.isFreeName n = true

theorem leastShared_congr {types' : List TypeExpr} (same : ∀ t, t ∈ types ↔ t ∈ types')
    (n : String) : h.LeastShared types n ↔ h.LeastShared types' n := by
  simp only [LeastShared, Shared, same]

theorem nothingShared_perm {types' : List TypeExpr} (perm : types.Perm types') :
    h.NothingShared types ↔ h.NothingShared types' := by
  have flat := flattenAll_perm perm
  have none : flattenAll types = [] ↔ flattenAll types' = [] := by
    rw [← List.length_eq_zero_iff, flat.length_eq, List.length_eq_zero_iff]
  simp only [NothingShared, flat.mem_iff, none, leastShared_congr fun _ => flat.mem_iff]

theorem isContentFree_of_name {j : TypeExpr} {name : String} (named : j.name? = some name) :
    h.isContentFree j = h.isFreeName name := by
  obtain ⟨as, params, rfl⟩ := exists_eq_named named
  rfl

theorem isWildcard_of_open {onColumn : List TypeExpr → Except HierarchyError TypeExpr}
    {j : TypeExpr} (joined : h.Joined onColumn types j)
    (wild : ∃ t ∈ types, t.isWildcard = true) : j.isWildcard = true := by
  obtain ⟨t, ht, wild⟩ := wild
  cases joined with
  | nothing none => exact absurd none (List.ne_nil_of_mem ht)
  | agreed agree => exact (isWildcard_of_sameType ((agreed?_eq_some.mp agree).2 t ht)).trans wild
  | opened differ wild => rfl
  | ancestor _ differ closed climbs chosen joined => simp [closed t ht] at wild
  | unshared _ differ closed climbs unchosen => simp [closed t ht] at wild

/-- A join says nothing about its values where the types have nothing in common. -/
theorem Sound.isContentFree_iff (sound : h.Sound)
    {onColumn : List TypeExpr → Except HierarchyError TypeExpr} {j : TypeExpr}
    (checked : ∀ t ∈ types, h.check t = .ok ()) (ok : h.joinBy onColumn types = .ok j) :
    h.isContentFree j = true ↔ h.NothingShared types := by
  by_cases wild : ∃ t ∈ flattenAll types, t.isWildcard = true
  · have opened := isWildcard_of_open (joinBy_eq_ok.mp ok) wild
    have free : h.isContentFree j = true := by cases j <;> simp_all [isWildcard, isContentFree]
    exact ⟨fun _ => .inl wild, fun _ => free⟩
  · by_cases none : flattenAll types = []
    · have free : h.isContentFree j = true := by
        rw [joinBy, none] at ok
        cases ok
        simp [topType, isContentFree]
      exact ⟨fun _ => .inr (.inl none), fun _ => free⟩
    · have closed : ∀ t ∈ flattenAll types, t.isWildcard = false := fun t ht =>
        Bool.eq_false_iff.mpr fun opened => wild ⟨t, ht, opened⟩
      obtain ⟨e, first, named⟩ := sound.firstPreferred_of_joinBy checked none closed ok
      have preferred := first.preferred
      rw [isContentFree_of_name named, NothingShared, or_iff_right wild, or_iff_right none]
      exact ⟨preferred.2, fun all => all _ preferred.1⟩

/-- The join of types without an open one among them has a name that all their lineages share and
that no other shared name is below. It is free of content only if all such names are, and of those
with content, or of all, it comes first in the lineage of the first type. The search for it never
falls back to the top type. -/
theorem join_leastChoice {base h : Hierarchy} {ds : List Declaration} {types : List TypeExpr}
    (accepted : base.extend ds = .ok h) (topFree : h.declares h.top = false)
    (checked : ∀ t ∈ types, h.check t = .ok ()) (some : flattenAll types ≠ [])
    (closed : ∀ t ∈ flattenAll types, t.isWildcard = false) :
    (∃ n, h.LeastShared (flattenAll types) n) ∧
      (∃ name columns, h.searchPlan (flattenAll types) = .ok (.ancestor name columns)) ∧
        ∀ depth j, h.joinWithin types depth = .ok j →
          ∃ name, j.name? = .some name ∧ h.LeastShared (flattenAll types) name ∧
            (h.isContentFree j = true →
              ∀ n, h.LeastShared (flattenAll types) n → h.isFreeName n = true) ∧
            ∃ e, h.FirstPreferred (flattenAll types) e ∧ e.erasedName = name := by
  have sound : h.Sound := ⟨validate_of_extend accepted, topFree⟩
  obtain ⟨lineages, climbs⟩ := sound.exists_lineages fun t ht =>
    rooted_of_check (check_flattenAll checked t ht)
  obtain ⟨a, chosen⟩ := sound.exists_nearest climbs some
  refine ⟨sound.exists_leastShared climbs some, ?_, fun depth j joined => ?_⟩
  · exact ⟨_, _, searchPlan_eq_ok.mpr ⟨lineages, climbs, .inl ⟨a, chosen, rfl⟩⟩⟩
  · obtain ⟨e, first, named⟩ := sound.firstPreferred_of_joinBy checked some closed joined
    rw [isContentFree_of_name named]
    exact ⟨e.erasedName, named, first.preferred.1, first.preferred.2, e, first, rfl⟩

/-- The markers that the two collections share come first, and are not chosen. -/
theorem join_leastChoice_collections :
    builtin.extend [] = .ok builtin ∧ builtin.declares builtin.top = false ∧
      (∀ t ∈ nestedCollections, builtin.check t = .ok ()) ∧ flattenAll nestedCollections ≠ [] ∧
      (∀ t ∈ flattenAll nestedCollections, t.isWildcard = false) ∧
      builtin.LeastShared (flattenAll nestedCollections) "Collection" := by
  have checked : ∀ t ∈ nestedCollections, builtin.check t = .ok () := by
    simp only [nestedCollections, List.forall_mem_cons]
    exact ⟨by decide +kernel, by decide +kernel, by simp⟩
  have some : flattenAll nestedCollections ≠ [] := List.cons_ne_nil _ _
  have closed : ∀ t ∈ flattenAll nestedCollections, t.isWildcard = false := by decide
  obtain ⟨_, _, choice⟩ :=
    join_leastChoice builtin_accepted builtin_sound.topFree checked some closed
  obtain ⟨name, named, least, _⟩ := choice 2 _ joinWithin_nestedCollections
  cases named
  exact ⟨builtin_accepted, builtin_sound.topFree, checked, some, closed, least⟩

end Overload.Hierarchy
