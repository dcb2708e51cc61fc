import Overload.Proofs.BuildOrder
import Overload.Proofs.Rebuilding

/-!
Which calls of an operation are served. A call is served by the first resolver whose clients supply
exactly its arguments, by that resolver's own flags. The arguments of the operation have the flags
of all resolvers together: what one resolver takes from the server, no client of the operation
supplies. So the clients of another resolver that asks them for such an argument come short of it.
-/
namespace Overload.Operation

open Hierarchy TypeExpr

def SameNames (as bs : List String) : Prop := ∀ n, n ∈ as ↔ n ∈ bs

theorem sameNames_iff {as bs : List String} : sameNames as bs = true ↔ SameNames as bs := by
  simp only [sameNames, Bool.and_eq_true, List.all_eq_true, List.contains_iff_mem, SameNames]
  exact ⟨fun both n => ⟨both.1 n, both.2 n⟩,
    fun same => ⟨fun n => (same n).mp, fun n => (same n).mpr⟩⟩

theorem mem_clientNames {r : Resolver} {n : String} :
    n ∈ r.clientNames ↔ ∃ a ∈ r.arguments, a.context = false ∧ a.name = n := by
  simp only [Resolver.clientNames, List.mem_map, List.mem_filter, Bool.not_eq_true', and_assoc]

/-- The first resolver whose clients supply these arguments, or else the only resolver. -/
theorem resolverFor_eq (op : Operation) (names : List String) :
    op.resolverFor names = (op.resolvers.find? fun r => sameNames r.clientNames names).or
      (if op.resolvers.length = 1 then op.resolvers.head? else none) := by
  rw [resolverFor, resolverIndex?]
  cases index : op.resolvers.findIdx? fun r => sameNames r.clientNames names with
  | some i =>
      obtain ⟨before, r, after, split, rfl, serves, others⟩ := exists_of_findIdx?_eq_some index
      have found : op.resolvers.find? (fun r => sameNames r.clientNames names) = some r := by
        rw [split, List.find?_append, List.find?_eq_none.mpr fun s hs => by simp [others s hs],
          Option.none_or, List.find?_cons, serves]
      rw [found, Option.some_or, Option.some_or, Option.bind_some, split]
      simp
  | none =>
      have unfound : op.resolvers.find? (fun r => sameNames r.clientNames names) = none :=
        List.find?_eq_none.mpr fun r hr => by simp [List.findIdx?_eq_none_iff.mp index r hr]
      rw [unfound, Option.none_or, Option.none_or]
      split
      · rw [Option.bind_some, List.head?_eq_getElem?]
      · rfl

theorem exists_resolverFor {op : Operation} {names : List String} :
    (∃ s, op.resolverFor names = some s) ↔
      op.resolvers.length = 1 ∨ ∃ s ∈ op.resolvers, SameNames s.clientNames names := by
  have only : (if op.resolvers.length = 1 then op.resolvers.head? else none).isSome = true ↔
      op.resolvers.length = 1 := by
    split
    · rename_i single
      exact iff_of_true (List.isSome_head?.mpr fun none => by simp [none] at single) single
    · rename_i other
      exact iff_of_false (by simp) other
  rw [← Option.isSome_iff_exists, resolverFor_eq, Option.isSome_or, Bool.or_eq_true, only,
    List.find?_isSome, or_comm]
  simp only [sameNames_iff]

section

variable {h : Hierarchy} {o : Options} {operation : String} {rs : List Resolver}
  {as : List Argument} (ok : mergeArguments h o operation rs = .ok as)
include ok

theorem mem_names_mergeArguments {n : String} :
    n ∈ as.map (·.name) ↔ ∃ r ∈ rs, ∃ a ∈ r.arguments, a.name = n := by
  rw [names_mergeArguments ok, ((argumentGroups_perm o rs).map Prod.fst).mem_iff, keys_groupBy,
    List.mem_eraseDups, List.mem_map]
  simp only [List.mem_flatMap]
  constructor
  · rintro ⟨a, ⟨r, hr, ha⟩, named⟩
    exact ⟨r, hr, a, ha, named⟩
  · rintro ⟨r, hr, a, ha, named⟩
    exact ⟨a, ⟨r, hr, ha⟩, named⟩

/-- A merged argument has the flag if one of its declarations has it. -/
theorem context_eq_false_of_mem {m : Argument} (hm : m ∈ as) :
    m.context = false ↔ ∀ r ∈ rs, ∀ a ∈ r.arguments, a.name = m.name → a.context = false := by
  obtain ⟨g, hg, merged⟩ := exists_of_mem_right (mapM_eq_ok.mp (mapError_eq_ok.mp ok)) hm
  have group := (mem_groupBy.mp ((argumentGroups_perm o rs).mem_iff.mp hg)).2
  have signature := signature_mergeArgument merged
  simp only [Argument.signature, groupSignature, Prod.mk.injEq] at signature
  obtain ⟨named, context, _⟩ := signature
  rw [context, group, named]
  simp only [List.any_eq_false, List.mem_filter, List.mem_flatMap, beq_iff_eq, Bool.not_eq_true]
  constructor
  · intro none r hr a ha same
    exact none a ⟨⟨r, hr, ha⟩, same⟩
  · rintro none a ⟨⟨r, hr, ha⟩, same⟩
    exact none r hr a ha same

theorem exists_argument_iff {n : String} :
    (∃ m, as.find? (·.name == n) = some m ∧ m.context = false) ↔
      (∃ r ∈ rs, ∃ a ∈ r.arguments, a.name = n) ∧
        ∀ r ∈ rs, ∀ a ∈ r.arguments, a.name = n → a.context = false := by
  constructor
  · rintro ⟨m, found, context⟩
    have hm := List.mem_of_find?_eq_some found
    have named : m.name = n := by simpa using List.find?_some found
    subst named
    exact ⟨(mem_names_mergeArguments ok).mp (List.mem_map_of_mem hm),
      (context_eq_false_of_mem ok hm).mp context⟩
  · rintro ⟨declared, fromClients⟩
    obtain ⟨m, hm, named⟩ := List.mem_map.mp ((mem_names_mergeArguments ok).mpr declared)
    have some : (as.find? (·.name == n)).isSome = true :=
      List.find?_isSome.mpr ⟨m, hm, beq_iff_eq.mpr named⟩
    obtain ⟨m', found⟩ := Option.isSome_iff_exists.mp some
    have named' : m'.name = n := by simpa using List.find?_some found
    refine ⟨m', found, (context_eq_false_of_mem ok (List.mem_of_find?_eq_some found)).mpr ?_⟩
    rw [named']
    exact fromClients

end

theorem arguments_of_build {h : Hierarchy} {o : Options} {rs : List Resolver} {op : Operation}
    (ok : build h o rs = .ok op) : ∃ name, mergeArguments h o name rs = .ok op.arguments := by
  cases rs with
  | nil => cases ok
  | cons first others => exact ⟨_, (built_of_build ok).arguments⟩

/-- The arguments of the resolver that the operation does not mark as context arguments, in any
order and any number of times. It is what a client supplies who reads the operation. -/
def Supplies (op : Operation) (r : Resolver) (names : List String) : Prop :=
  ∀ n, n ∈ names ↔
    (∃ a ∈ r.arguments, a.name = n) ∧ ∃ m, op.argument? n = some m ∧ m.context = false

/-- What clients of this resolver supply, no resolver takes from the server. -/
def FlagsAgree (rs : List Resolver) (r : Resolver) : Prop :=
  ∀ n ∈ r.clientNames, ∀ s ∈ rs, ∀ a ∈ s.arguments, a.name = n → a.context = false

section

variable {h : Hierarchy} {o : Options} {rs : List Resolver} {op : Operation}
  (ok : build h o rs = .ok op) {r : Resolver} (hr : r ∈ rs) {names : List String}
include ok hr

theorem supplies_iff : op.Supplies r names ↔
    ∀ n, n ∈ names ↔ (∃ a ∈ r.arguments, a.name = n) ∧
      ∀ s ∈ rs, ∀ a ∈ s.arguments, a.name = n → a.context = false := by
  obtain ⟨name, merged⟩ := arguments_of_build ok
  refine forall_congr' fun n => iff_congr Iff.rfl (and_congr_right fun declared => ?_)
  rw [argument?, exists_argument_iff merged]
  exact and_iff_right ⟨r, hr, declared⟩

/-- A client who reads the operation supplies what the resolver asks for just if the flags
agree. -/
theorem sameNames_of_supplies (supplies : op.Supplies r names) :
    SameNames r.clientNames names ↔ FlagsAgree rs r := by
  have supplied := (supplies_iff ok hr).mp supplies
  constructor
  · intro same n hn
    exact ((supplied n).mp ((same n).mp hn)).2
  · intro agree n
    rw [supplied]
    constructor
    · intro hn
      obtain ⟨a, ha, _, named⟩ := mem_clientNames.mp hn
      exact ⟨⟨a, ha, named⟩, agree n hn⟩
    · rintro ⟨⟨a, ha, named⟩, fromClients⟩
      exact mem_clientNames.mpr ⟨a, ha, fromClients r hr a ha named, named⟩

end

/-- A client who reads the operation and supplies the arguments of one of its resolvers is served
if that is the only resolver or if some resolver asks its clients for just these arguments. The
resolver itself does if no other one takes from the server what it asks its clients for. -/
theorem resolverFor_supplied {h : Hierarchy} {o : Options} {rs : List Resolver} {op : Operation}
    (ok : build h o rs = .ok op) {r : Resolver} (hr : r ∈ rs) {names : List String}
    (supplies : op.Supplies r names) :
    ((∃ s, op.resolverFor names = some s) ↔
      rs.length = 1 ∨ ∃ s ∈ rs, SameNames s.clientNames names) ∧
    (SameNames r.clientNames names ↔ FlagsAgree rs r) ∧
    (FlagsAgree rs r → ∃ s, op.resolverFor names = some s) := by
  have served : (∃ s, op.resolverFor names = some s) ↔
      rs.length = 1 ∨ ∃ s ∈ rs, SameNames s.clientNames names := by
    rw [exists_resolverFor, resolvers_of_build ok]
  have own := sameNames_of_supplies ok hr supplies
  exact ⟨served, own, fun agree => served.mpr (.inr ⟨r, hr, own.mpr agree⟩)⟩

/-- The second resolver takes from the server the argument that the first one asks for. -/
def lookups : List Resolver :=
  [{ name := "find"
     resultType := .named [] "Int" []
     arguments := [{ name := "id", type := .named [] "ID" [] }] },
   { name := "find"
     resultType := .named [] "Int" []
     arguments :=
       [{ name := "id", type := .named [] "ID" [], context := true },
        { name := "name", type := .named [] "String" [] }] }]

theorem build_lookups : ∃ op, build builtin {} lookups = .ok op := ⟨_, by cbv⟩

/-- The clients of the first resolver supply nothing, and no resolver serves them. -/
theorem not_served_lookups :
    ¬ ∀ (h : Hierarchy) (o : Options) (rs : List Resolver) (op : Operation),
    build h o rs = .ok op → ∀ r ∈ rs, ∀ names, op.Supplies r names →
      ∃ s, op.resolverFor names = some s := by
  intro all
  obtain ⟨op, ok⟩ := build_lookups
  have front : lookups[0] ∈ lookups := List.getElem_mem _
  have supplies : op.Supplies lookups[0] [] :=
    (supplies_iff ok front).mpr fun n => by simp [lookups]
  have served := all builtin {} lookups op ok lookups[0] front [] supplies
  rw [exists_resolverFor, resolvers_of_build ok] at served
  revert served
  simp only [← sameNames_iff]
  decide

/-- The clients of the second resolver leave out what it takes from the server, and are served. -/
theorem resolverFor_supplied_lookups : ∃ op, build builtin {} lookups = .ok op ∧
    lookups[1] ∈ lookups ∧ op.Supplies lookups[1] ["name", "name"] ∧
    FlagsAgree lookups lookups[1] ∧ ∃ s, op.resolverFor ["name", "name"] = some s := by
  obtain ⟨op, ok⟩ := build_lookups
  have second : lookups[1] ∈ lookups := List.getElem_mem _
  have supplies : op.Supplies lookups[1] ["name", "name"] := by
    refine (supplies_iff ok second).mpr fun n => ⟨fun hn => ?_, ?_⟩
    · obtain rfl : n = "name" := by simpa using hn
      decide
    · rintro ⟨⟨a, ha, rfl⟩, fromClients⟩
      revert a
      decide
  have agree : FlagsAgree lookups lookups[1] := by
    unfold FlagsAgree
    decide
  exact ⟨op, ok, second, supplies, agree, (resolverFor_supplied ok second supplies).2.2 agree⟩

end Overload.Operation
