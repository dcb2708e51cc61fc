import Overload.Proofs.JoinAncestor

/-!
The order of a lineage. The search takes in the names that it meets once, level by level: it comes
to the names that are a number of steps above the first one, in the order of the declared
supertypes, before those that are further up. What is queued in the course of it are the supertypes
of its own entries, so its entries are a fixed point that can be unfolded one level at a time.
-/
namespace Overload.Hierarchy

open Relation TypeExpr

/-- The names that a number of steps along supertypes lead to, in the order of the declared
supertypes. -/
def level (h : Hierarchy) (names : List String) : Nat → List String
  | 0 => names
  | steps + 1 => (h.level names steps).flatMap h.supernames

/-- The names that breadth-first search meets up to a height, each where it is met first. -/
def breadthFirst (h : Hierarchy) (name : String) (height : Nat) : List String :=
  ((List.range (height + 1)).flatMap (h.level [name])).eraseDups

/-- A name is at most a number of steps above another one. -/
def Within (h : Hierarchy) (name : String) (steps : Nat) (above : String) : Prop :=
  ∃ k ≤ steps, above ∈ h.level [name] k

theorem level_append (h : Hierarchy) (xs ys : List String) (steps : Nat) :
    h.level (xs ++ ys) steps = h.level xs steps ++ h.level ys steps := by
  induction steps with
  | zero => rfl
  | succ steps ih => rw [level, level, level, ih, List.flatMap_append]

theorem level_supernames (h : Hierarchy) (names : List String) (steps : Nat) :
    h.level (names.flatMap h.supernames) steps = h.level names (steps + 1) := by
  induction steps with
  | zero => rfl
  | succ steps ih =>
      rw [level, ih]
      rfl

theorem eraseDups_level (h : Hierarchy) (names : List String) (steps : Nat) :
    (h.level names.eraseDups steps).eraseDups = (h.level names steps).eraseDups := by
  induction steps with
  | zero => exact eraseDups_of_nodup (nodup_eraseDups names)
  | succ steps ih => rw [level, level, ← eraseDups_flatMap, ih, eraseDups_flatMap]

/-- The names below a name on one of its levels are declared and differ from each other. -/
theorem exists_chain {h : Hierarchy} (acyclic : ∀ n, ¬ TransGen h.Extends n n)
    {names : List String} {steps : Nat} {n : String} (hn : n ∈ h.level names steps) :
    ∃ chain : List String, chain.length = steps ∧ chain.Nodup ∧
      ∀ m ∈ chain, h.declares m = true ∧ TransGen h.Extends m n := by
  induction steps generalizing n with
  | zero => exact ⟨[], rfl, List.nodup_nil, by simp⟩
  | succ steps ih =>
      obtain ⟨m, hm, e⟩ := List.mem_flatMap.mp hn
      have e : h.Extends m n := e
      obtain ⟨chain, rfl, distinct, below⟩ := ih hm
      refine ⟨m :: chain, rfl, List.nodup_cons.mpr ⟨fun again => ?_, distinct⟩, ?_⟩
      · exact acyclic m (below m again).2
      · refine List.forall_mem_cons.mpr ⟨⟨e.declared, .single e⟩, fun p hp => ?_⟩
        exact ⟨(below p hp).1, (below p hp).2.tail e⟩

theorem level_eq_nil {h : Hierarchy} (acyclic : ∀ n, ¬ TransGen h.Extends n n)
    (names : List String) {steps : Nat} (high : h.declarations.length < steps) :
    h.level names steps = [] := by
  refine List.eq_nil_iff_forall_not_mem.mpr fun n hn => ?_
  obtain ⟨chain, rfl, distinct, below⟩ := exists_chain acyclic hn
  have := length_le_declarations distinct fun m hm => (below m hm).1
  omega

/-- A list that is made of its own supertypes consists of the levels. -/
theorem eq_levels {h : Hierarchy} {name : String} {names : List String}
    (fixed : names = (name :: names.flatMap h.supernames).eraseDups) (height : Nat) :
    names = ((List.range height).flatMap (h.level [name]) ++ h.level names height).eraseDups := by
  induction height with
  | zero =>
      rw [List.range_zero, List.flatMap_nil, List.nil_append, level, eraseDups_of_nodup]
      rw [fixed]
      exact nodup_eraseDups _
  | succ height ih =>
      have unfolded : (h.level names height).eraseDups =
          (h.level [name] height ++ h.level names (height + 1)).eraseDups := by
        conv_lhs => rw [fixed]
        rw [eraseDups_level, ← List.singleton_append, level_append, level_supernames]
      rw [List.range_succ, List.flatMap_append, List.flatMap_singleton, List.append_assoc]
      exact ih.trans (eraseDups_append_congr rfl unfolded)

theorem eq_breadthFirst {h : Hierarchy} (acyclic : ∀ n, ¬ TransGen h.Extends n n) {name : String}
    {names : List String} (fixed : names = (name :: names.flatMap h.supernames).eraseDups)
    {height : Nat} (high : h.declarations.length ≤ height) :
    names = h.breadthFirst name height := by
  have whole := eq_levels fixed (height + 1)
  rwa [level_eq_nil acyclic names (Nat.lt_succ_of_le high), List.append_nil] at whole

theorem pairwise_levels (h : Hierarchy) (name : String) (height : Nat) :
    ((List.range height).flatMap (h.level [name])).eraseDups.Pairwise
      fun a b => ∀ steps, h.Within name steps b → h.Within name steps a := by
  have mem_removeAll (xs ys : List String) (n : String) :
      n ∈ (ys.removeAll xs).eraseDups ↔ n ∈ ys ∧ n ∉ xs := by
    simp [List.removeAll]
  induction height with
  | zero => exact List.Pairwise.nil
  | succ height ih =>
      rw [List.range_succ, List.flatMap_append, List.flatMap_singleton, List.eraseDups_append]
      have new {a b : String} {k : Nat} (low : k ≤ height) (ha : a ∈ h.level [name] k)
          (hb : b ∈ ((h.level [name] height).removeAll
            ((List.range height).flatMap (h.level [name]))).eraseDups)
          (steps : Nat) (near : h.Within name steps b) : h.Within name steps a := by
        obtain ⟨j, few, hj⟩ := near
        refine ⟨k, low.trans (Nat.le_of_not_lt fun lower => ?_), ha⟩
        exact ((mem_removeAll _ _ b).mp hb).2
          (List.mem_flatMap.mpr ⟨j, List.mem_range.mpr (few.trans_lt lower), hj⟩)
      refine List.pairwise_append.mpr ⟨ih, List.pairwise_of_forall_mem_list fun a ha b hb => ?_,
        fun a ha b hb => ?_⟩
      · exact new (Nat.le_refl _) ((mem_removeAll _ _ a).mp ha).1 hb
      · obtain ⟨k, hk, ha⟩ := List.mem_flatMap.mp (List.mem_eraseDups.mp ha)
        exact new (Nat.le_of_lt (List.mem_range.mp hk)) ha hb

theorem Sound.filterMap_supertypesAt {h : Hierarchy} (sound : h.Sound) {n : String}
    {d : Declaration} (found : h.get? n = some d) (args : List TypeExpr) :
    (d.supertypesAt args).filterMap name? = h.supernames n := by
  rw [supernames, found, Declaration.supertypesAt, List.filterMap_map]
  refine List.filterMap_congr fun t ht => ?_
  obtain ⟨as, name, params, rfl, ok⟩ := sound.supertype found ht
  rw [Function.comp_apply, ok.substitute args]
  rfl

/-- Whether a name is not the top type's and was not met before. -/
def isNew (h : Hierarchy) (seen : List String) (name : String) : Bool :=
  name != h.top && !seen.contains name

theorem isNew_iff {h : Hierarchy} {seen : List String} {name : String} :
    h.isNew seen name = true ↔ name ≠ h.top ∧ name ∉ seen := by
  simp [isNew]

theorem isNew_of_passesOver {h : Hierarchy} {seen : List String} {t : TypeExpr} {name : String}
    (passes : h.passesOver seen t = true) (named : t.name? = some name) :
    ¬ h.isNew seen name = true := by
  obtain ⟨as, params, rfl⟩ := exists_eq_named named
  rw [isNew_iff, not_and_not_right]
  exact (passesOver_named.mp passes).resolve_left

/-- The names of the entries are those in the queue and those that the entries extend, but for the
top type and names that were met before. -/
theorem Climb.names_eq {h : Hierarchy} (sound : h.Sound) {seen : List String}
    {queue entries : List TypeExpr} (climb : h.Climb seen queue entries) :
    entries.map erasedName =
      ((queue.filterMap name? ++ (entries.map erasedName).flatMap h.supernames).filter
        (h.isNew seen)).eraseDups := by
  induction climb with
  | finish => rfl
  | @pass seen t queue entries passes _ ih =>
      rw [List.filterMap_cons]
      cases named : t.name? with
      | none => exact ih
      | some n =>
          rw [List.cons_append, List.filter_cons_of_neg (isNew_of_passesOver passes named)]
          exact ih
  | @meet seen as name params queue args later d new found given rest ih =>
      have front : (TypeExpr.named as name params).name? = some name := rfl
      rw [List.filterMap_append, sound.filterMap_supertypesAt found args] at ih
      rw [List.filterMap_cons_some front, List.map_cons, erasedName_named, List.flatMap_cons,
        List.cons_append, List.filter_cons_of_pos (isNew_iff.mpr new), List.eraseDups_cons,
        List.filter_filter, ← List.append_assoc]
      refine congrArg (name :: ·) (ih.trans (congrArg List.eraseDups ?_))
      refine List.filter_congr fun n _ => ?_
      rw [isNew, isNew, List.contains_cons, Bool.not_or]
      exact Bool.and_left_comm _ _ _

theorem Sound.flatMap_supernames {h : Hierarchy} (sound : h.Sound) (names : List String) :
    (names.filter (· ≠ h.top)).flatMap h.supernames = names.flatMap h.supernames := by
  have none : h.supernames h.top = [] :=
    List.eq_nil_iff_forall_not_mem.mpr sound.top_extends_nothing
  induction names with
  | nil => rfl
  | cons n names ih =>
      by_cases top : n = h.top
      · rw [List.filter_cons_of_neg (by simpa using top), ih, List.flatMap_cons, top, none,
          List.nil_append]
      · rw [List.filter_cons_of_pos (by simpa using top), List.flatMap_cons, List.flatMap_cons, ih]

/-- The names met on the way to the top type are those that breadth-first search meets. -/
theorem Climb.names_breadthFirst {h : Hierarchy} (sound : h.Sound) {t : TypeExpr} {name : String}
    (named : t.name? = some name) {entries : List TypeExpr} (climb : h.Climb [] [t] entries)
    {height : Nat} (high : h.declarations.length ≤ height) :
    entries.map erasedName = (h.breadthFirst name height).filter (· ≠ h.top) := by
  have isNew : h.isNew [] = fun n => decide (n ≠ h.top) := by
    funext n
    rw [Bool.eq_iff_iff, isNew_iff, decide_eq_true_iff, and_iff_left List.not_mem_nil]
  have names := climb.names_eq sound
  rw [List.filterMap_cons_some named, List.filterMap_nil, List.singleton_append, eraseDups_filter,
    isNew] at names
  generalize whole : (name :: (entries.map erasedName).flatMap h.supernames).eraseDups = met
    at names
  have fixed : met = (name :: met.flatMap h.supernames).eraseDups := by
    rw [← sound.flatMap_supernames met, ← names]
    exact whole.symm
  rw [names, eq_breadthFirst (validate_eq_ok.mp sound.valid).2 fixed high]

/-- A list of types goes up from a type breadth first: it starts with the type, or is the top type
alone, has each name above the type once and the top type last, and comes to the names in the order
in which breadth-first search along the declared supertypes meets them. -/
structure BreadthFirst (h : Hierarchy) (name : String) (params : List TypeExpr)
    (l : List TypeExpr) : Prop where
  distinct : (l.map erasedName).Nodup
  start : name ≠ h.top → ∃ d rest, h.get? name = some d ∧
    l = .named [] name (if params = [] then d.params.map fun _ => .wildcard [] else params) :: rest
  alone : name = h.top → l = [h.topType]
  last : l.getLast? = some h.topType
  names : ∀ m, m ∈ l.map erasedName ↔ h.isSubtypeName name m = true
  order : ∀ height, h.declarations.length ≤ height →
    l.dropLast.map erasedName = (h.breadthFirst name height).filter (· ≠ h.top)
  nearer : (l.dropLast.map erasedName).Pairwise
    fun a b => ∀ steps, h.Within name steps b → h.Within name steps a

/-- A lineage goes up breadth first, and its names are those that subtyping leads to. -/
theorem lineage_breadthFirst {base h : Hierarchy} {ds : List Declaration}
    (accepted : base.extend ds = .ok h) (topFree : h.declares h.top = false)
    {as : List Annotation} {name : String} {params l : List TypeExpr}
    (climbs : h.lineage (.named as name params) = .ok l) : h.BreadthFirst name params l := by
  have sound : h.Sound := ⟨validate_of_extend accepted, topFree⟩
  obtain ⟨entries, climb, rfl⟩ := climb_of_lineage rfl climbs
  have order : ∀ height, h.declarations.length ≤ height →
      entries.map erasedName = (h.breadthFirst name height).filter (· ≠ h.top) :=
    fun _ => climb.names_breadthFirst sound rfl
  refine ⟨distinct_lineage climbs, fun other => ?_, fun top => ?_, List.getLast?_concat,
    fun m => sound.mem_lineage_names rfl climbs, ?_, ?_⟩
  · obtain ⟨top, _⟩ | ⟨_, d, args, later, found, given, rfl⟩ := climb.start
    · exact absurd top other
    · rw [args_of_instantiate given]
      exact ⟨d, later ++ [h.topType], found, rfl⟩
  · obtain ⟨_, rfl⟩ | ⟨other, _⟩ := climb.start
    · rfl
    · exact absurd top other
  · rwa [List.dropLast_concat]
  · rw [List.dropLast_concat, order _ (Nat.le_refl _)]
    exact (pairwise_levels h name _).filter _

/-- A cat is a pet twice over and a hunter, both are animals, and pets extend the top type too. -/
def animals : Hierarchy where
  top := "Any"
  declarations :=
    [{ name := "Animal", params := ["T"] },
     { name := "Cat", params := ["T"]
       supertypes := [.named [] "Pet" [.named [] "T" []], .named [] "Hunter" [],
         .named [] "Pet" []] },
     { name := "Hunter", supertypes := [.named [] "Animal" []] },
     { name := "Pet", params := ["T"]
       supertypes := [.named [] "Any" [], .named [] "Animal" [.named [] "T" []]] }]

theorem lineage_breadthFirst_cat :
    animals.extend [] = .ok animals ∧ animals.declares animals.top = false ∧ ∃ l,
      animals.lineage (.named [⟨"kept", []⟩] "Cat" [.wildcard []]) = .ok l ∧
        l.map erasedName = ["Cat", "Pet", "Hunter", "Animal", "Any"] ∧
        animals.BreadthFirst "Cat" [.wildcard []] l := by
  have accepted : animals.extend [] = .ok animals := extend_nil_of_valid (by decide +kernel)
  have free : animals.declares animals.top = false := by decide +kernel
  have climbs : animals.lineage (.named [⟨"kept", []⟩] "Cat" [.wildcard []]) = .ok
      [.named [] "Cat" [.wildcard []], .named [] "Pet" [.wildcard []], .named [] "Hunter" [],
        .named [] "Animal" [.wildcard []], .named [] "Any" []] := by cbv
  exact ⟨accepted, free, _, climbs, rfl, lineage_breadthFirst accepted free climbs⟩

end Overload.Hierarchy
