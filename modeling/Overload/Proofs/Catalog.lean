import Overload.Catalog
import Overload.Proofs.BuildOutcome

/-!
A catalog is its names, each built on its own. Going through the resolvers once comes to the same as
taking out those of each name, so what is listed for a name depends on no others, and the first name
to fail in the order of the names decides the error.
-/
namespace Overload

open Hierarchy Operation

namespace Catalog

/-- The resolvers of one name, in their order. -/
def named (rs : List Resolver) (n : String) : List Resolver := rs.filter (·.name == n)

/-- The names of resolvers, in the order in which they first occur. -/
def names (rs : List Resolver) : List String := (rs.map (·.name)).eraseDups

/-- What the resolvers of one name make, whatever others there are. -/
def buildNamed (h : Hierarchy) (o : Options) (rs : List Resolver) (n : String) :
    Except OperationError Operation :=
  Operation.build h o (named rs n)

/-- Each name makes an operation. -/
def AllBuild (h : Hierarchy) (o : Options) (rs : List Resolver) : Prop :=
  ∀ n ∈ rs.map (·.name), ∃ op, buildNamed h o rs n = .ok op

/-- The operations of resolvers, and how they are found by name. -/
structure Lists (h : Hierarchy) (o : Options) (rs : List Resolver) (ops : List Operation)
    (lookup : String → Option Operation) : Prop where
  order : ops.map (·.name) = names rs
  listed : ∀ n ∈ rs.map (·.name), ∃ op, lookup n = some op ∧ buildNamed h o rs n = .ok op
  others : ∀ n, n ∉ rs.map (·.name) → lookup n = none
  resolvers : (ops.flatMap (·.resolvers)).Perm rs

variable {h : Hierarchy} {o : Options} {rs : List Resolver}

theorem mem_names {n : String} : n ∈ names rs ↔ n ∈ rs.map (·.name) := List.mem_eraseDups

theorem named_eq_nil_iff {n : String} : named rs n = [] ↔ n ∉ rs.map (·.name) := by
  simp [named, List.filter_eq_nil_iff]

theorem name_of_buildNamed {n : String} {op : Operation} (ok : buildNamed h o rs n = .ok op) :
    op.name = n := by
  rw [buildNamed] at ok
  cases found : named rs n with
  | nil =>
      rw [found] at ok
      cases ok
  | cons first others =>
      have member : first ∈ named rs n := found ▸ List.mem_cons_self
      rw [found] at ok
      rw [(built_of_build ok).name]
      exact eq_of_beq (List.mem_filter.mp member).2

/-- A name that no resolver has makes nothing. -/
theorem buildNamed_of_not_mem {n : String} (absent : n ∉ rs.map (·.name)) :
    buildNamed h o rs n = .error .noResolvers := by
  rw [buildNamed, named_eq_nil_iff.mpr absent]
  rfl

theorem buildAll_eq (h : Hierarchy) (o : Options) (rs : List Resolver) :
    buildAll h o rs = (names rs).mapM (buildNamed h o rs) := by
  rw [buildAll, groupBy_eq, List.mapM_map]
  rfl

theorem exists_buildAll_iff : (∃ ops, buildAll h o rs = .ok ops) ↔ AllBuild h o rs := by
  rw [buildAll_eq]
  constructor
  · intro built n hn
    obtain ⟨ops, ok⟩ := built
    obtain ⟨op, _, made⟩ := exists_of_mem_left (mapM_eq_ok.mp ok) (mem_names.mpr hn)
    exact ⟨op, made⟩
  · intro each
    exact exists_mapM_eq_ok fun n hn => each n (mem_names.mp hn)

theorem names_of_buildAll {ops : List Operation} (ok : buildAll h o rs = .ok ops) :
    ops.map (·.name) = names rs := by
  rw [buildAll_eq, mapM_eq_ok] at ok
  have step : ∀ n op, buildNamed h o rs n = .ok op → id n = op.name := fun _ _ made =>
    (name_of_buildNamed made).symm
  rw [← map_eq_map_of_forall₂ step ok, List.map_id]

/-- What is found under a name is what its resolvers make. -/
theorem find?_of_buildAll {ops : List Operation} (ok : buildAll h o rs = .ok ops) (n : String) :
    ops.find? (·.name == n) = (buildNamed h o rs n).toOption := by
  have each := ok
  rw [buildAll_eq, mapM_eq_ok] at each
  by_cases occurs : n ∈ rs.map (·.name)
  · obtain ⟨op, member, made⟩ := exists_of_mem_left each (mem_names.mpr occurs)
    have distinct : (ops.map (·.name)).Nodup := names_of_buildAll ok ▸ nodup_eraseDups _
    rw [made]
    exact (findKey?_eq_some_iff distinct).mpr ⟨member, name_of_buildNamed made⟩
  · rw [buildNamed_of_not_mem occurs]
    refine List.find?_eq_none.mpr fun op member named => occurs ?_
    have listed : op.name ∈ names rs := names_of_buildAll ok ▸ List.mem_map_of_mem member
    exact mem_names.mp (eq_of_beq named ▸ listed)

theorem resolvers_of_buildAll {ops : List Operation} (ok : buildAll h o rs = .ok ops) :
    (ops.flatMap (·.resolvers)).Perm rs := by
  have each := mapM_eq_ok.mp ok
  have step : ∀ (g : String × List Resolver) op, Operation.build h o g.2 = .ok op →
      g.2 = op.resolvers := fun _ _ made => (resolvers_of_build made).symm
  rw [List.flatMap_def, ← map_eq_map_of_forall₂ step each, ← List.flatMap_def]
  exact groupBy_perm Resolver.name rs

theorem lists_of_buildAll {ops : List Operation} (ok : buildAll h o rs = .ok ops) :
    Lists h o rs ops fun n => ops.find? (·.name == n) where
  order := names_of_buildAll ok
  listed n occurs := by
    obtain ⟨op, made⟩ := exists_buildAll_iff.mp ⟨ops, ok⟩ n occurs
    exact ⟨op, by rw [find?_of_buildAll ok, made]; rfl, made⟩
  others n absent := by
    rw [find?_of_buildAll ok, buildNamed_of_not_mem absent]
    rfl
  resolvers := resolvers_of_buildAll ok

theorem build_eq_ok {qs ms : List Resolver} {c : Catalog} : build h o qs ms = .ok c ↔
    buildAll h o qs = .ok c.queries ∧ buildAll h o ms = .ok c.mutations := by
  simp only [build, bind_eq_ok, Except.ok.injEq]
  constructor
  · intro stages
    obtain ⟨queries, first, mutations, second, rfl⟩ := stages
    exact ⟨first, second⟩
  · intro parts
    exact ⟨_, parts.1, _, parts.2, rfl⟩

theorem exists_build_iff {qs ms : List Resolver} :
    (∃ c, build h o qs ms = .ok c) ↔ AllBuild h o qs ∧ AllBuild h o ms := by
  rw [← exists_buildAll_iff, ← exists_buildAll_iff]
  constructor
  · intro built
    obtain ⟨c, ok⟩ := built
    obtain ⟨first, second⟩ := build_eq_ok.mp ok
    exact ⟨⟨_, first⟩, _, second⟩
  · intro built
    obtain ⟨⟨queries, first⟩, mutations, second⟩ := built
    exact ⟨{ queries, mutations }, build_eq_ok.mpr ⟨first, second⟩⟩

theorem build_eq_error {qs ms : List Resolver} {e : OperationError} :
    build h o qs ms = .error e ↔ FirstFault (buildNamed h o qs) (names qs) e ∨
      AllBuild h o qs ∧ FirstFault (buildNamed h o ms) (names ms) e := by
  simp only [build, bind_eq_error, reduceCtorEq, and_false, exists_false, or_false]
  rw [exists_and_right, exists_buildAll_iff, buildAll_eq, buildAll_eq, mapM_eq_error,
    mapM_eq_error]

/-- The resolvers of each name are the same and stand in the same order, whatever stands between
them. -/
def SameNamed (rs rs' : List Resolver) : Prop := ∀ n, named rs n = named rs' n

theorem SameNamed.mem_names_iff {rs' : List Resolver} (same : SameNamed rs rs') (n : String) :
    n ∈ rs.map (·.name) ↔ n ∈ rs'.map (·.name) := by
  rw [← not_iff_not, ← named_eq_nil_iff, ← named_eq_nil_iff, same n]

theorem SameNamed.buildNamed_eq {rs' : List Resolver} (same : SameNamed rs rs') (n : String) :
    buildNamed h o rs n = buildNamed h o rs' n := by
  rw [buildNamed, buildNamed, same n]

theorem SameNamed.exists_buildAll {rs' : List Resolver} (same : SameNamed rs rs')
    {ops : List Operation} (ok : buildAll h o rs = .ok ops) :
    ∃ ops', buildAll h o rs' = .ok ops' ∧
      ∀ n, ops'.find? (·.name == n) = ops.find? (·.name == n) := by
  have each : AllBuild h o rs' := by
    intro n occurs
    rw [← same.buildNamed_eq]
    exact exists_buildAll_iff.mp ⟨ops, ok⟩ n ((same.mem_names_iff n).mpr occurs)
  obtain ⟨ops', ok'⟩ := exists_buildAll_iff.mpr each
  refine ⟨ops', ok', fun n => ?_⟩
  rw [find?_of_buildAll ok, find?_of_buildAll ok', same.buildNamed_eq]

/-- Catalogs are built name by name: one is built when each name makes an operation, it lists just
these operations, and else the first name to fail decides the error, queries before mutations. What
is found under a name is the same however resolvers of other names stand between its own. -/
theorem build_byName (h : Hierarchy) (o : Options) (qs ms : List Resolver) :
    ((∃ c, build h o qs ms = .ok c) ↔ AllBuild h o qs ∧ AllBuild h o ms) ∧
      (∀ c, build h o qs ms = .ok c →
        Lists h o qs c.queries c.query? ∧ Lists h o ms c.mutations c.mutation?) ∧
      (∀ e, build h o qs ms = .error e ↔ FirstFault (buildNamed h o qs) (names qs) e ∨
        AllBuild h o qs ∧ FirstFault (buildNamed h o ms) (names ms) e) ∧
      ∀ c qs' ms', build h o qs ms = .ok c → SameNamed qs qs' → SameNamed ms ms' →
        ∃ c', build h o qs' ms' = .ok c' ∧
          ∀ n, c'.query? n = c.query? n ∧ c'.mutation? n = c.mutation? n := by
  refine ⟨exists_build_iff, fun c ok => ?_, fun e => build_eq_error, ?_⟩
  · obtain ⟨first, second⟩ := build_eq_ok.mp ok
    exact ⟨lists_of_buildAll first, lists_of_buildAll second⟩
  · intro c qs' ms' ok sameQueries sameMutations
    obtain ⟨first, second⟩ := build_eq_ok.mp ok
    obtain ⟨queries, first', found⟩ := sameQueries.exists_buildAll first
    obtain ⟨mutations, second', found'⟩ := sameMutations.exists_buildAll second
    exact ⟨{ queries, mutations }, build_eq_ok.mpr ⟨first', second'⟩,
      fun n => ⟨found n, found' n⟩⟩

/-- Two overloads of a name with a resolver of another name between them. -/
def interleaved : List Resolver :=
  [{ name := "find", resultType := .named [] "Int" [] },
   { name := "count", resultType := .named [] "Long" [] },
   { name := "find", resultType := .named [] "Long" [] }]

/-- The same resolvers, name by name, the other name first. -/
def grouped : List Resolver :=
  [{ name := "count", resultType := .named [] "Long" [] },
   { name := "find", resultType := .named [] "Int" [] },
   { name := "find", resultType := .named [] "Long" [] }]

theorem build_byName_interleaved :
    names interleaved = ["find", "count"] ∧ names grouped = ["count", "find"] ∧
      SameNamed interleaved grouped ∧ ∃ c c',
        build builtin {} interleaved [] = .ok c ∧ build builtin {} grouped [] = .ok c' ∧
          ((c.query? "find").map fun op => (op.resultType, op.resolvers.length)) =
            some (.named [] "Number" [], 2) ∧
          ∀ n, c'.query? n = c.query? n ∧ c'.mutation? n = c.mutation? n := by
  have same : SameNamed interleaved grouped := by
    intro n
    by_cases first : "find" = n
    · simp [named, interleaved, grouped, ← first]
    · simp [named, interleaved, grouped, List.filter_cons, first]
  have built : ∃ c, build builtin {} interleaved [] = .ok c ∧
      ((c.query? "find").map fun op => (op.resultType, op.resolvers.length)) =
        some (.named [] "Number" [], 2) := ⟨_, by cbv, by cbv⟩
  obtain ⟨c, ok, found⟩ := built
  obtain ⟨_, _, _, steady⟩ := build_byName builtin {} interleaved []
  obtain ⟨c', ok', alike⟩ := steady c grouped [] ok same fun _ => rfl
  exact ⟨by cbv, by cbv, same, c, c', ok, ok', found, alike⟩

end Catalog

end Overload
