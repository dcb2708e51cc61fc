import Overload.Proofs.ResolverDocument

/-!
What survives being written and read again: arguments, declarations and resolvers whose types have
texts, and of what was read from documents all that has only such annotations as a text can hold.
-/
namespace Overload

open Document TypeExpr

/-- What can be made of arguments: new ones of built types, ones with other parts, and ones read
from documents. -/
inductive Argument.Built : Argument → Prop
  | new (name : String) {type : TypeExpr} (built : type.Built) : Built { name, type }
  | withDescription {a : Argument} (description : String) (built : Built a) :
      Built { a with description := some description }
  | withDefault {a : Argument} {default : Option Json} (stored : ∀ v, default = some v → v.Stored)
      (built : Built a) : Built { a with default }
  | withContext {a : Argument} (context : Bool) (built : Built a) : Built { a with context }
  | withMappable {a : Argument} (mappable : Bool) (built : Built a) : Built { a with mappable }
  | read {a : Argument} (obtained : decoder.Obtains a) : Built a

inductive Declaration.Built : Declaration → Prop
  | new (name : String) : Built { name }
  | withParams {d : Declaration} (params : List String) (built : Built d) : Built { d with params }
  | extending {d : Declaration} {t : TypeExpr} (built : Built d) (supertype : t.Built) :
      Built { d with supertypes := d.supertypes ++ [t] }
  | asMarker {d : Declaration} (built : Built d) : Built { d with marker := true }
  | withDescription {d : Declaration} (description : String) (built : Built d) :
      Built { d with description := some description }
  | read {d : Declaration} (obtained : decoder.Obtains d) : Built d

inductive Resolver.Built : Resolver → Prop
  | new (name : String) {resultType : TypeExpr} (built : resultType.Built) :
      Built { name, resultType }
  | withArgument {r : Resolver} {a : Argument} (built : Built r) (argument : a.Built) :
      Built { r with arguments := r.arguments ++ [a] }
  | withReceiver {r : Resolver} {t : TypeExpr} (built : Built r) (receiver : t.Built) :
      Built (r.withReceiver t)
  | withBatched {r : Resolver} (batched : Bool) (built : Built r) : Built { r with batched }
  | withUnionSource {r : Resolver} (unionSource : Bool) (built : Built r) :
      Built { r with unionSource }
  | withDescription {r : Resolver} (description : String) (built : Built r) :
      Built { r with description := some description }
  | read {r : Resolver} (obtained : decoder.Obtains r) : Built r

theorem Argument.Built.kept {a : Argument} (built : a.Built) : a.Kept Lawful := by
  induction built with
  | new _ built => exact ⟨built.lawful, nofun⟩
  | withDescription _ _ ih => exact ⟨ih.type, ih.default⟩
  | withDefault stored _ ih => exact ⟨ih.type, stored⟩
  | withContext _ _ ih => exact ⟨ih.type, ih.default⟩
  | withMappable _ _ ih => exact ⟨ih.type, ih.default⟩
  | read obtained =>
      have kept := kept_of_obtains obtained
      exact ⟨kept.type.lawful, kept.default⟩

theorem Declaration.Built.lawful {d : Declaration} (built : d.Built) :
    ∀ t ∈ d.supertypes, t.Lawful := by
  induction built with
  | new => exact nofun
  | withParams _ _ ih => exact ih
  | extending _ supertype ih =>
      exact List.forall_mem_append.mpr ⟨ih, List.forall_mem_singleton.mpr supertype.lawful⟩
  | asMarker _ ih => exact ih
  | withDescription _ _ ih => exact ih
  | read obtained => exact fun t ht => (documented_of_obtains obtained t ht).lawful

theorem Resolver.Built.kept {r : Resolver} (built : r.Built) : r.Kept Lawful := by
  induction built with
  | new _ built => exact ⟨built.lawful, nofun, nofun⟩
  | withArgument _ argument ih =>
      have arguments := List.forall_mem_append.mpr
        ⟨ih.arguments, List.forall_mem_singleton.mpr argument.kept⟩
      exact ⟨ih.resultType, arguments, ih.receivers⟩
  | @withReceiver r t _ receiver ih =>
      refine ⟨ih.resultType, ih.arguments, fun u hu => ?_⟩
      obtain old | new := @mem_or_mem_of_addTypes u [t] _ hu
      · exact ih.receivers u old
      · exact List.mem_singleton.mp new ▸ receiver.lawful
  | withBatched _ _ ih => exact ⟨ih.resultType, ih.arguments, ih.receivers⟩
  | withUnionSource _ _ ih => exact ⟨ih.resultType, ih.arguments, ih.receivers⟩
  | withDescription _ _ ih => exact ⟨ih.resultType, ih.arguments, ih.receivers⟩
  | read obtained => exact (kept_of_obtains obtained).imp fun _ _ => Documented.lawful

/-- Nothing is lost of what is built from types that have texts: not whether there is a default, nor
the order of receivers, nor an argument with the name of another. -/
theorem built_readsBack :
    (∀ a : Argument, a.Built → a.type.Printable →
      Argument.decoder.ReadsBack Argument.toJson a) ∧
    (∀ d : Declaration, d.Built → (∀ t ∈ d.supertypes, t.Printable) →
      Declaration.decoder.ReadsBack Declaration.toJson d) ∧
    ∀ r : Resolver, r.Built → (∀ t ∈ Operation.typesOf r, t.Printable) →
      Resolver.decoder.ReadsBack Resolver.toJson r :=
  ⟨fun _ built printable => Argument.readsBack_of_printable built.kept printable,
    fun _ built printable => Declaration.readsBack_of_printable built.lawful printable,
    fun _ built printable => (Resolver.readsBack_iff built.kept).mpr printable⟩

/-- A resolver without a name. One of its two arguments `x` has the default `null`, the other has
none. -/
def nameless : Resolver where
  name := ""
  resultType := .named [] "List" [.named [] "Int" []]
  arguments :=
    [{ name := "x", type := .named [] "Int" [], default := some .null },
     { name := "x", type := .wildcard [] }]
  receivers := [.named [⟨"NonNull", []⟩] "Page" [], .named [] "Int" []]
  description := some ""

theorem built_readsBack_nameless :
    nameless.Built ∧ (∀ t ∈ Operation.typesOf nameless, t.Printable) ∧
      Resolver.decoder.ReadsBack Resolver.toJson nameless := by
  have int : (named [] "Int" []).Built := .named "Int" nofun
  have list : (named [] "List" [named [] "Int" []]).Built :=
    .named "List" (List.forall_mem_singleton.mpr int)
  have page : ((named [] "Page" []).annotate [⟨"NonNull", []⟩]).Built :=
    .annotate (.named "Page" nofun) (List.forall_mem_singleton.mpr (.new "NonNull"))
  have null : Argument.Built { name := "x", type := .named [] "Int" [], default := some .null } :=
    .withDefault (fun v same => Option.some.inj same ▸ .null) (.new "x" int)
  have built : nameless.Built :=
    .withDescription "" <| .withReceiver (.withReceiver
      (.withArgument (.withArgument (.new "" list) null) (.new "x" .wildcard)) page) int
  have printableInt : (named [] "Int" []).Printable := printable_named (by decide) nofun
  have printablePage : ((named [] "Page" []).annotate [⟨"NonNull", []⟩]).Printable :=
    (printable_named (by decide) (by simp)).annotate
      (List.forall_mem_singleton.mpr (.new (by decide)))
  have printable : ∀ t ∈ Operation.typesOf nameless, t.Printable := by
    refine Resolver.forall_typesOf.mpr ⟨?_, ?_, ?_⟩
    · exact printable_named (by decide) (List.forall_mem_singleton.mpr printableInt)
    · exact List.forall_mem_cons.mpr ⟨printablePage, List.forall_mem_singleton.mpr printableInt⟩
    · exact List.forall_mem_cons.mpr
        ⟨printableInt, List.forall_mem_singleton.mpr printable_wildcard⟩
  exact ⟨built, printable, built_readsBack.2.2 nameless built printable⟩

/-- What has been read reads back when the annotations on its types, which a document can give any
name and values of any nesting, are such as a text can hold. -/
theorem obtained_readsBack_iff (t : TypeExpr) (r : Resolver) :
    (decoder.Obtains t → (decoder.ReadsBack toJson t ↔ ∀ a ∈ t.annotations, a.Printable)) ∧
    (Resolver.decoder.Obtains r → (Resolver.decoder.ReadsBack Resolver.toJson r ↔
      ∀ u ∈ Operation.typesOf r, ∀ a ∈ u.annotations, a.Printable)) := by
  refine ⟨fun obtained => ?_, fun obtained => ?_⟩
  · have documented := documented_of_obtains obtained
    exact (readsBack_iff documented.lawful).trans documented.printable_iff
  · have kept := Resolver.kept_of_obtains obtained
    rw [Resolver.readsBack_iff (kept.imp fun _ _ => Documented.lawful)]
    exact forall₂_congr fun u hu => (kept.types u hu).printable_iff

/-- A document of the type `String` with one annotation more. -/
def annotatedString (members : List (String × Json)) : Json :=
  .object [("type", .string "String"), ("annotations", .array [.object members])]

theorem representable_annotatedString {members : List (String × Json)}
    (each : ∀ m ∈ members, m.2.Representable) : (annotatedString members).Representable :=
  .object <| List.forall_mem_cons.mpr ⟨.string _, List.forall_mem_singleton.mpr <|
    .array (List.forall_mem_singleton.mpr (.object each))⟩

def sizedString : TypeExpr := .named [⟨"Size", .ofMembers [("max", .integer 32)]⟩] "String" []

def sizedDocument : Json :=
  annotatedString [("name", .string "Size"), ("values", .object [("max", .integer 32)])]

theorem obtained_readsBack_sizedString :
    decoder.Obtains sizedString ∧ decoder.ReadsBack toJson sizedString ∧
      Resolver.decoder.Obtains { name := "find", resultType := sizedString } ∧
        Resolver.decoder.ReadsBack Resolver.toJson
          { name := "find", resultType := sizedString } := by
  have values : (Json.object [("max", .integer 32)]).Representable :=
    .object (List.forall_mem_singleton.mpr (.integer (by decide) (by decide)))
  have representable : sizedDocument.Representable :=
    representable_annotatedString <| List.forall_mem_cons.mpr
      ⟨.string _, List.forall_mem_singleton.mpr values⟩
  have document : (Json.object
      [("name", .string "find"), ("resultType", sizedDocument)]).Representable :=
    .object <| List.forall_mem_cons.mpr
      ⟨.string _, List.forall_mem_singleton.mpr representable⟩
  have type : decoder.Obtains sizedString := .value representable rfl
  have resolver : Resolver.decoder.Obtains { name := "find", resultType := sizedString } :=
    .value document rfl
  have printable : ∀ a ∈ sizedString.annotations, a.Printable :=
    List.forall_mem_singleton.mpr ⟨by decide, List.forall_mem_singleton.mpr (by decide)⟩
  obtain ⟨typeBack, resolverBack⟩ :=
    obtained_readsBack_iff sizedString { name := "find", resultType := sizedString }
  exact ⟨type, (typeBack type).mpr printable, resolver,
    (resolverBack resolver).mpr (List.forall_mem_singleton.mpr printable)⟩

/-- It is not so that every type which a document says reads back: a document can give an annotation
a name that is none in the syntax of types. -/
theorem not_readsBack_of_notNull :
    ¬ ∀ t : TypeExpr, decoder.Obtains t → (∀ a ∈ t.annotations, a.values = .empty) →
      decoder.ReadsBack toJson t := by
  intro every
  have representable : (annotatedString [("name", .string "not-null")]).Representable :=
    representable_annotatedString (List.forall_mem_singleton.mpr (.string _))
  have obtained : decoder.Obtains (.named [⟨"not-null", []⟩] "String" []) :=
    .value representable rfl
  have back := every _ obtained (List.forall_mem_singleton.mpr rfl)
  have printable := (readsBack_iff (documented_of_obtains obtained).lawful).mp back
  have named := (printable_iff_annotations.mp printable).2 _ List.mem_cons_self
  exact absurd named.name (by decide)

end Overload
