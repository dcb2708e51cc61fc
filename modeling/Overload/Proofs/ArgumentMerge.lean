import Mathlib.Data.List.Sort
import Overload.Proofs.Rebuilding

/-!
Merging arguments, name by name. What an operation has for a name is decided by the declarations of
that name alone, in the order in which the resolvers have them. The order of arguments that is asked
for puts the same arguments into another order.
-/
namespace Overload.Operation

open Hierarchy TypeExpr

/-- Names in an order that is asked for, each once. -/
def Arranged (all : List String) : ArgumentOrder → List String → Prop
  | .firstOccurrence, names => names = all.eraseDups
  | .alphabetical, names => names.Pairwise (· < ·) ∧ ∀ n, n ∈ names ↔ n ∈ all

/-- What an argument is made of: the join of the declared types, which has no annotations of its
own, with all their annotations, each once; the first description that is not empty; the first
default, which can be null; and the flags that some declaration has. -/
structure Merges (h : Hierarchy) (depth : Nat) (declared : List Argument) (a : Argument) :
    Prop where
  type : ∃ j, h.joinWithin (declared.map (·.type)) depth = .ok j ∧ j.annotations = [] ∧
    a.type = j.setAnnotations (declared.flatMap (·.type.annotations)).eraseDups
  description : a.description = ((declared.filterMap (·.description)).filter (· ≠ "")).head?
  default : a.default = (declared.filterMap (·.default)).head?
  context : a.context = true ↔ ∃ d ∈ declared, d.context = true
  mappable : a.mappable = true ↔ ∃ d ∈ declared, d.mappable = true

theorem argumentType_eq_ok {h : Hierarchy} {o : Options} {declared : List Argument}
    {t : TypeExpr} : argumentType h o declared = .ok t ↔
      ∃ j, h.joinWithin (declared.map (·.type)) o.maxJoinDepth = .ok j ∧ j.annotations = [] ∧
        t = j.setAnnotations (declared.flatMap (·.type.annotations)).eraseDups := by
  rw [argumentType, bind_eq_ok]
  refine exists_congr fun j => and_congr_right fun joined => ?_
  have plain := (joinBy_normal joined).2
  rw [annotate_allAnnotations plain, List.flatMap_map, Except.ok.injEq, and_iff_right plain]
  exact eq_comm

theorem mergeArgument_eq_ok {h : Hierarchy} {o : Options} {name : String}
    {declared : List Argument} {a : Argument} : mergeArgument h o (name, declared) = .ok a ↔
      a.name = name ∧ Merges h o.maxJoinDepth declared a := by
  have flag (p : Argument → Bool) (b : Bool) : declared.any p = b ↔
      (b = true ↔ ∃ d ∈ declared, p d = true) := by
    rw [← List.any_eq_true, ← Bool.eq_iff_iff]
    exact eq_comm
  rw [mergeArgument, bind_eq_ok]
  constructor
  · intro merged
    obtain ⟨t, typed, same⟩ := merged
    obtain rfl := Except.ok.inj same
    refine ⟨rfl, argumentType_eq_ok.mp typed, ?_, ?_, (flag _ _).mp rfl, (flag _ _).mp rfl⟩
    · rw [List.head?_filter]
      rfl
    · rw [List.head?_filterMap]
  · intro made
    obtain ⟨rfl, type, description, default, context, mappable⟩ := made
    refine ⟨a.type, argumentType_eq_ok.mpr type, congrArg Except.ok ?_⟩
    rw [List.head?_filter] at description
    rw [List.head?_filterMap] at default
    rw [(flag (·.context) a.context).mpr context, (flag (·.mappable) a.mappable).mpr mappable,
      ← default, firstText?, ← description]

theorem arranged_iff {o : Options} {rs : List Resolver} {names : List String} :
    Arranged ((rs.flatMap (·.arguments)).map (·.name)) o.argumentOrder names ↔
      names = (argumentGroups o rs).map Prod.fst := by
  have order := argumentGroups_inOrder o rs
  have perm := (argumentGroups_perm o rs).map Prod.fst
  rw [keys_groupBy] at perm
  cases arranged : o.argumentOrder with
  | firstOccurrence => rw [Arranged, argumentGroups, arranged, keys_groupBy]
  | alphabetical =>
      rw [InOrder, arranged] at order
      have names_mem (n : String) : n ∈ (argumentGroups o rs).map Prod.fst ↔
          n ∈ (rs.flatMap (·.arguments)).map (·.name) := by
        rw [perm.mem_iff, List.mem_eraseDups]
      constructor
      · intro sorted
        refine sorted.1.eq_of_mem_iff order fun n => ?_
        rw [sorted.2, names_mem]
      · rintro rfl
        exact ⟨order, names_mem⟩

theorem argumentGroups_eq (o : Options) (rs : List Resolver) :
    argumentGroups o rs = ((argumentGroups o rs).map Prod.fst).map fun name =>
      (name, (rs.flatMap (·.arguments)).filter (·.name == name)) := by
  rw [List.map_map]
  refine (map_eq_self_iff.mpr fun g hg => ?_).symm
  have found := mem_groupBy.mp ((argumentGroups_perm o rs).mem_iff.mp hg)
  exact Prod.ext rfl found.2.symm

theorem argumentGroups_order_perm (o : Options) (order : ArgumentOrder) (rs : List Resolver) :
    (argumentGroups { o with argumentOrder := order } rs).Perm (argumentGroups o rs) :=
  (argumentGroups_perm _ rs).trans (argumentGroups_perm o rs).symm

/-- Arguments are what merging gives if they have the names in the order asked for and each is made
of the declarations of its name. In another order there are the same arguments. -/
theorem mergeArguments_exact (h : Hierarchy) (o : Options) (operation : String)
    (rs : List Resolver) :
    (∀ as, mergeArguments h o operation rs = .ok as ↔
      Arranged ((rs.flatMap (·.arguments)).map (·.name)) o.argumentOrder (as.map (·.name)) ∧
        ∀ a ∈ as, Merges h o.maxJoinDepth
          ((rs.flatMap (·.arguments)).filter (·.name == a.name)) a) ∧
    ∀ as, mergeArguments h o operation rs = .ok as → ∀ order, ∃ bs,
      mergeArguments h { o with argumentOrder := order } operation rs = .ok bs ∧ bs.Perm as := by
  refine ⟨fun as => ?_, fun as ok order => ?_⟩
  · rw [mergeArguments, mapError_eq_ok, mapM_eq_ok, arranged_iff, argumentGroups_eq,
      List.forall₂_map_left_iff]
    simp only [mergeArgument_eq_ok, forall₂_key_iff]
    rw [← argumentGroups_eq]
  · have merged := mapM_eq_ok.mp (mapError_eq_ok.mp ok)
    obtain ⟨bs, merged', perm⟩ :=
      List.perm_comp_forall₂ (argumentGroups_order_perm o order rs) merged
    exact ⟨bs, mapError_eq_ok.mpr (mapM_eq_ok.mpr merged'), perm⟩

end Overload.Operation
