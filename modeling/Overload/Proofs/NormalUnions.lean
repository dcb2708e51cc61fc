import Overload.Proofs.FirstTypes
import Overload.Proofs.FlatUnion
import Overload.Proofs.OperationTypes
import Overload.Proofs.ResolverDocument

/-!
Unions are normal: flat however they were obtained, and the same however their members were grouped.
What can be obtained takes in the types of documents, operations and catalogs, so none of these
holds a union inside of a union. Grouping makes no difference to any types, since the first
occurrences among first occurrences are all of these.
-/
namespace Overload

open Operation

namespace TypeExpr

theorem firsts_firsts (ts : List TypeExpr) : firsts (firsts ts) = firsts ts :=
  foldl_addType_firsts [] ts

theorem unionOf_eq_firsts (ts : List TypeExpr) :
    unionOf ts = .union [] (firsts (ts.flatMap alternatives)) := rfl

/-- The union of some of the types can stand in their place. -/
theorem unionOf_group (before group after : List TypeExpr) :
    unionOf (before ++ unionOf group :: after) = unionOf (before ++ group ++ after) := by
  have inner : alternatives (unionOf group) = firsts (group.flatMap alternatives) := rfl
  have again := firsts_firsts (group.flatMap alternatives)
  rw [unionOf_eq_firsts (before ++ group ++ after), List.append_cons, unionOf_eq_firsts]
  simp only [List.flatMap_append, List.flatMap_singleton, inner, firsts_append_congr again]

theorem unionOf_unionOf (ts : List TypeExpr) : unionOf [unionOf ts] = unionOf ts := by
  have alone := unionOf_group [] ts []
  rwa [List.nil_append, List.nil_append, List.append_nil] at alone

theorem unionOf_append (ts us : List TypeExpr) :
    unionOf [unionOf ts, unionOf us] = unionOf (ts ++ us) := by
  calc unionOf [unionOf ts, unionOf us]
    _ = unionOf (ts ++ [unionOf us]) := unionOf_group [] ts [unionOf us]
    _ = unionOf (ts ++ us ++ []) := unionOf_group ts us []
    _ = unionOf (ts ++ us) := by rw [List.append_nil]

end TypeExpr

theorem Operation.passes_obtained {h : Hierarchy} (obtained : h.Obtained) :
    Passes h TypeExpr.Obtained where
  annotate each as := .annotate as each
  unionOf := .unionOf
  joinWithin each joined := .joined obtained each joined

open Hierarchy TypeExpr

/-- Whatever is obtained is flat, and what is made of it by documents, by building operations and by
building catalogs can be obtained, whether they succeed or fail. Uniting unions is the same as
uniting all that they were made of. -/
theorem obtained_normal :
    (∀ t : TypeExpr, t.Obtained → t.Flat) ∧
    ((∀ d, Declaration.decoder.Obtains d → ∀ t ∈ d.supertypes, t.Obtained) ∧
      (∀ a, Argument.decoder.Obtains a → a.type.Obtained) ∧
      ∀ r, Resolver.decoder.Obtains r → ∀ t ∈ typesOf r, t.Obtained) ∧
    (∀ (h : Hierarchy) (o : Options) (rs : List Resolver), h.Obtained →
      (∀ t ∈ rs.flatMap typesOf, t.Obtained) →
        (∀ op, build h o rs = .ok op → ∀ t ∈ op.types, t.Obtained) ∧
        ∀ e, build h o rs = .error e → ∀ t ∈ e.types, t.Obtained) ∧
    (∀ (h : Hierarchy) (o : Options) (qs ms : List Resolver), h.Obtained →
      (∀ t ∈ qs.flatMap typesOf, t.Obtained) → (∀ t ∈ ms.flatMap typesOf, t.Obtained) →
        (∀ c, Catalog.build h o qs ms = .ok c → ∀ t ∈ c.types, t.Obtained) ∧
        ∀ e, Catalog.build h o qs ms = .error e → ∀ t ∈ e.types, t.Obtained) ∧
    ∀ ts us, unionOf [unionOf ts, unionOf us] = unionOf (ts ++ us) ∧
      unionOf [unionOf ts] = unionOf ts := by
  have reads : ∀ t, TypeExpr.decoder.Obtains t → t.Obtained := fun _ => .read
  refine ⟨fun _ => Obtained.flat, ⟨fun d read t ht => ?_, fun a read => ?_, fun r read => ?_⟩,
    fun h o rs obtained each => ?_, fun h o qs ms obtained queries mutations => ?_,
    fun ts us => ⟨unionOf_append ts us, unionOf_unionOf ts⟩⟩
  · exact reads t (Declaration.obtains_of_obtains read t ht)
  · exact (Argument.kept_of_reads .wildcard reads read).type
  · exact (Resolver.kept_of_reads .wildcard reads read).types
  · have passes := passes_obtained obtained
    exact ⟨fun _ => passes.of_build each, fun _ => passes.of_build_error each⟩
  · have passes := passes_obtained obtained
    exact ⟨fun _ => passes.of_catalog queries mutations,
      fun _ => passes.of_catalog_error queries mutations⟩

/-- Two unions that share a member with different annotations. -/
def intOrId : TypeExpr := unionOf [.named [⟨"NonNull", []⟩] "Int" [], .named [] "ID" []]

def idOrString : TypeExpr := unionOf [.named [⟨"Size", []⟩] "ID" [], .named [] "String" []]

/-- What a document says of a resolver, and another one that has a union of unions. -/
def documented : Resolver := { name := "find", resultType := .named [] "Int" [] }

def finds (source : Bool) : List Resolver :=
  [documented,
   { name := "find", resultType := unionOf [intOrId, idOrString], unionSource := source }]

theorem obtained_normal_finds :
    Resolver.decoder.Obtains documented ∧ builtin.Obtained ∧
      (∀ source, ∀ t ∈ (finds source).flatMap typesOf, t.Obtained) ∧
      (∃ op, build builtin {} (finds true) = .ok op ∧ (∀ t ∈ op.types, t.Flat) ∧
        op.resultType =
          .union [] [.named [] "Int" [], .named [] "ID" [], .named [] "String" []]) ∧
      (∃ c, Catalog.build builtin {} (finds true) [] = .ok c ∧ ∀ t ∈ c.types, t.Flat) ∧
      (∃ e, build builtin {} (finds false) = .error e ∧ (∀ t ∈ e.types, t.Flat) ∧
        e.types.map (·.isUnion) = [false, false, true]) ∧
      unionOf [intOrId, idOrString] = .union []
        [.named [⟨"NonNull", []⟩] "Int" [], .named [] "ID" [], .named [] "String" []] := by
  obtain ⟨flat, ⟨_, _, resolvers⟩, built, listed, grouped⟩ := obtained_normal
  have obtained : builtin.Obtained := .initial .builtin
  have document : (Json.object
      [("name", .string "find"), ("resultType", .string "Int")]).Representable :=
    .object (List.forall_mem_cons.mpr ⟨.string _, List.forall_mem_singleton.mpr (.string _)⟩)
  have read : Resolver.decoder.Obtains documented := .value document rfl
  have plain (name : String) : (named [] name []).Obtained := .named name nofun
  have both {t u : TypeExpr} (left : t.Obtained) (right : u.Obtained) : (unionOf [t, u]).Obtained :=
    .unionOf (List.forall_mem_cons.mpr ⟨left, List.forall_mem_singleton.mpr right⟩)
  have first : intOrId.Obtained := both (.annotate [⟨"NonNull", []⟩] (plain "Int")) (plain "ID")
  have second : idOrString.Obtained :=
    both (.annotate [⟨"Size", []⟩] (plain "ID")) (plain "String")
  have each (source : Bool) : ∀ t ∈ (finds source).flatMap typesOf, t.Obtained :=
    List.forall_mem_append.mpr
      ⟨resolvers _ read, List.forall_mem_singleton.mpr (both first second)⟩
  obtain ⟨op, ok, result⟩ : ∃ op, build builtin {} (finds true) = .ok op ∧ op.resultType =
      .union [] [.named [] "Int" [], .named [] "ID" [], .named [] "String" []] := ⟨_, by cbv, rfl⟩
  obtain ⟨c, catalog⟩ : ∃ c, Catalog.build builtin {} (finds true) [] = .ok c := ⟨_, by cbv⟩
  obtain ⟨e, fails, unions⟩ : ∃ e, build builtin {} (finds false) = .error e ∧
      e.types.map (·.isUnion) = [false, false, true] := ⟨_, by cbv, rfl⟩
  refine ⟨read, obtained, each, ⟨op, ok, fun t ht => flat t ?_, result⟩,
    ⟨c, catalog, fun t ht => flat t ?_⟩, ⟨e, fails, fun t ht => flat t ?_, unions⟩, ?_⟩
  · exact (built builtin {} _ obtained (each true)).1 op ok t ht
  · exact (listed builtin {} _ _ obtained (each true) (List.forall_mem_nil _)).1 c catalog t ht
  · exact (built builtin {} _ obtained (each false)).2 e fails t ht
  · exact (grouped _ _).1

end Overload
