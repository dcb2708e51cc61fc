import Overload.Document.Hierarchy
import Overload.Proofs.Record
import Overload.Proofs.TypeDocument

/-!
Documents of arguments, declarations and resolvers. Members that say no more than the blank record
are left out, receivers are added one by one, and every type goes through its text. What is written
reads back with each type replaced by what its text says; so nothing is lost where the texts hold
the types.
-/
namespace Overload

open Document

/-- The fields are compared pair by pair; each pair sets two different parts of the record. -/
theorem Argument.layout_lawful : Argument.layout.Lawful where
  distinct := by decide
  commute := by
    simp only [layout, List.pairwise_cons, List.forall_mem_cons, List.not_mem_nil, false_imp_iff,
      implies_true, and_true, List.Pairwise.nil]
    and_intros <;> exact Field.commute_of_set rfl rfl fun _ _ _ => rfl

theorem Declaration.layout_lawful : Declaration.layout.Lawful where
  distinct := by decide
  commute := by
    simp only [layout, List.pairwise_cons, List.forall_mem_cons, List.not_mem_nil, false_imp_iff,
      implies_true, and_true, List.Pairwise.nil]
    and_intros <;> exact Field.commute_of_set rfl rfl fun _ _ _ => rfl

theorem Resolver.layout_lawful : Resolver.layout.Lawful where
  distinct := by decide
  commute := by
    simp only [layout, List.pairwise_cons, List.forall_mem_cons, List.not_mem_nil, false_imp_iff,
      implies_true, and_true, List.Pairwise.nil, Resolver.withReceivers_eq]
    and_intros <;> exact Field.commute_of_set rfl rfl fun _ _ _ => rfl

section Members

variable {α β : Type} {key : String} {x : α}

theorem written_text {set : String → α → α} (text : String) :
    (Field.needed key .string set).Written [(key, .string text)] x (set text x) :=
  Field.written_needed rfl

theorem written_bool {set : Bool → α → α} (flag : Bool) :
    (Field.optional key .bool set).Written [(key, .bool flag)] x (set flag x) :=
  Field.written_optional rfl

theorem written_optionalMember {set : Option String → α → α} (unset : set none x = x)
    (text : Option String) :
    (Field.optional key (.option .string) set).Written (optionalMember key (text.map .string)) x
      (set text x) := by
  cases text with
  | none => exact unset.symm ▸ .absent rfl
  | some s => exact Field.written_optional rfl

theorem written_flagMember {set : Bool → α → α} (unset : set false x = x) (flag : Bool) :
    (Field.optional key .bool set).Written (flagMember key flag) x (set flag x) := by
  cases flag with
  | false => exact unset.symm ▸ .absent rfl
  | true => exact written_bool true

theorem written_listMember {d : Decoder β} {set : List β → α → α} (unset : set [] x = x)
    {items : List Json} {ys : List β}
    (read : (Decoder.list d).ofJson (Json.array items).canonical = .ok ys) :
    (Field.optional key (.list d) set).Written (Declaration.listMember key items) x (set ys x) := by
  cases items with
  | nil =>
      cases read
      exact unset.symm ▸ .absent rfl
  | cons v items => exact Field.written_optional read

theorem keys_optionalMember (value : Option Json) :
    ((optionalMember key value).map Prod.fst).Sublist [key] := by
  cases value with
  | none => exact List.nil_sublist _
  | some v => exact .refl _

theorem keys_flagMember (flag : Bool) : ((flagMember key flag).map Prod.fst).Sublist [key] := by
  cases flag with
  | false => exact List.nil_sublist _
  | true => exact .refl _

end Members

namespace Argument

/-- The argument as a program keeps it: its default is a stored value. -/
structure Kept (P : TypeExpr → Prop) (a : Argument) : Prop where
  type : P a.type
  default : ∀ v, a.default = some v → v.Stored

def mapType (f : TypeExpr → TypeExpr) (a : Argument) : Argument := { a with type := f a.type }

variable {f : TypeExpr → TypeExpr} {a : Argument}

theorem written_default (unset : a.default = none) {default : Option Json}
    (stored : ∀ v, default = some v → v.Stored) :
    (Field.optional "defaultValue" .any fun value a => { a with default := some value }).Written
      (optionalMember "defaultValue" default) a { a with default } := by
  cases default with
  | none =>
      have same : { a with default := none } = a := by rw [← unset]
      exact same.symm ▸ .absent rfl
  | some v =>
      have stored := stored v rfl
      refine Field.written_optional (congrArg Except.ok ?_)
      rw [stored.canonical_eq, stored.canonical_eq]

theorem ofJson_toJson (kept : a.Kept fun t => TypeExpr.parse t.text = .ok (f t)) :
    decoder.ofJson a.toJson.canonical = .ok (a.mapType f) := by
  have back := Written.ofJson layout_lawful <|
    .cons (written_text a.name) <|
    .cons (Field.written_needed (TypeExpr.ofJson_toJson.mpr kept.type)) <|
    .cons (written_optionalMember rfl a.description) <|
    .cons (written_default rfl kept.default) <|
    .cons (written_flagMember rfl a.context) <|
    .cons (written_flagMember rfl a.mappable) .nil
  simpa only [toJson, List.append_assoc, List.cons_append, List.nil_append, List.append_nil,
    decoder, mapType] using back

theorem exists_parse {b : Argument} (ok : decoder.ofJson a.toJson.canonical = .ok b) :
    ∃ t, TypeExpr.parse a.type.text = .ok t := by
  obtain ⟨members, same, keys, member⟩ : ∃ members, a.toJson = .object members ∧
      (members.map Prod.fst).Sublist (layout.fields.map Field.key) ∧
      ("type", a.type.toJson) ∈ members := by
    refine ⟨_, rfl, ?_, by simp⟩
    simp only [List.map_append]
    exact ((((List.Sublist.refl ["name", "type"]).append (keys_optionalMember _)).append
      (keys_optionalMember _)).append (keys_flagMember _)).append (keys_flagMember _)
  rw [same] at ok
  obtain ⟨t, read⟩ := layout_lawful.read_of_mem keys ok member (.tail _ (.head _))
  exact ⟨t, TypeExpr.ofJson_toJson.mp read⟩

theorem readsBack_of_printable (kept : a.Kept TypeExpr.Lawful) (printable : a.type.Printable) :
    decoder.ReadsBack toJson a := by
  have parsed := TypeExpr.parse_text_of_lawful kept.type printable
  exact ofJson_toJson (f := id) ⟨parsed, kept.default⟩

/-- The type of an argument from a document has whatever all types from documents have. -/
theorem kept_of_reads {P : TypeExpr → Prop} (blank : P (.wildcard []))
    (reads : ∀ t, TypeExpr.decoder.Obtains t → P t) (obtained : decoder.Obtains a) : a.Kept P := by
  refine Layout.obtains_induct (fun f hf change given a kept => ?_) ⟨blank, nofun⟩ obtained
  simp only [layout, List.mem_cons, List.not_mem_nil, or_false] at hf
  obtain rfl | rfl | rfl | rfl | rfl | rfl := hf
  all_goals obtain ⟨value, part, rfl⟩ := Decoder.Obtains.of_map given
  · exact ⟨kept.type, kept.default⟩
  · exact ⟨reads _ part, kept.default⟩
  · exact ⟨kept.type, kept.default⟩
  · exact ⟨kept.type, fun v same => Option.some.inj same ▸ part.of_any⟩
  · exact ⟨kept.type, kept.default⟩
  · exact ⟨kept.type, kept.default⟩

theorem kept_of_obtains (obtained : decoder.Obtains a) : a.Kept TypeExpr.Documented :=
  kept_of_reads TypeExpr.documented_wildcard (fun _ => TypeExpr.documented_of_obtains) obtained

end Argument

namespace Declaration

theorem ofJson_toJson {f : TypeExpr → TypeExpr} {d : Declaration}
    (each : ∀ t ∈ d.supertypes, TypeExpr.parse t.text = .ok (f t)) :
    decoder.ofJson d.toJson.canonical = .ok { d with supertypes := d.supertypes.map f } := by
  have params : (Decoder.list .string).ofJson (Json.array (d.params.map .string)).canonical =
      .ok d.params := Decoder.list_eq_ok.mpr (List.forall₂_same.mpr fun _ _ => rfl)
  have supertypes := Decoder.list_eq_ok.mpr <|
    forall₂_map_of_forall fun t ht => TypeExpr.ofJson_toJson.mpr (each t ht)
  have back := Written.ofJson layout_lawful <|
    .cons (written_text d.name) <|
    .cons (written_listMember rfl params) <|
    .cons (written_listMember rfl supertypes) <|
    .cons (written_flagMember rfl d.marker) <|
    .cons (written_optionalMember rfl d.description) .nil
  simpa only [toJson, List.append_assoc, List.cons_append, List.nil_append, List.append_nil,
    decoder] using back

theorem readsBack_of_printable {d : Declaration} (lawful : ∀ t ∈ d.supertypes, t.Lawful)
    (printable : ∀ t ∈ d.supertypes, t.Printable) : decoder.ReadsBack toJson d := by
  have back := ofJson_toJson (f := id) fun t ht =>
    TypeExpr.parse_text_of_lawful (lawful t ht) (printable t ht)
  rwa [List.map_id] at back

theorem obtains_of_obtains {d : Declaration} (obtained : decoder.Obtains d) :
    ∀ t ∈ d.supertypes, TypeExpr.decoder.Obtains t := by
  refine Layout.obtains_induct (P := fun d => ∀ t ∈ d.supertypes, TypeExpr.decoder.Obtains t)
    (fun f hf change given d kept => ?_) (List.forall_mem_nil _) obtained
  simp only [layout, List.mem_cons, List.not_mem_nil, or_false] at hf
  obtain rfl | rfl | rfl | rfl | rfl := hf
  all_goals obtain ⟨value, part, rfl⟩ := Decoder.Obtains.of_map given
  · exact kept
  · exact kept
  · exact part.of_list
  · exact kept
  · exact kept

theorem documented_of_obtains {d : Declaration} (obtained : decoder.Obtains d) :
    ∀ t ∈ d.supertypes, t.Documented := fun t ht =>
  TypeExpr.documented_of_obtains (obtains_of_obtains obtained t ht)

end Declaration

namespace Resolver

open TypeExpr

/-- The resolver as a program keeps it. -/
structure Kept (P : TypeExpr → Prop) (r : Resolver) : Prop where
  resultType : P r.resultType
  arguments : ∀ a ∈ r.arguments, a.Kept P
  receivers : ∀ t ∈ r.receivers, P t

def mapTypes (f : TypeExpr → TypeExpr) (r : Resolver) : Resolver :=
  { r with
    resultType := f r.resultType
    arguments := r.arguments.map (Argument.mapType f)
    receivers := (r.receivers.map f).foldl addType []
    distinct := distinct_foldl_addType .nil _ }

variable {f : TypeExpr → TypeExpr} {r : Resolver}

theorem forall_typesOf {P : TypeExpr → Prop} : (∀ t ∈ Operation.typesOf r, P t) ↔
    P r.resultType ∧ (∀ t ∈ r.receivers, P t) ∧ ∀ a ∈ r.arguments, P a.type := by
  rw [Operation.typesOf, List.cons_append, List.forall_mem_cons, List.forall_mem_append,
    List.forall_mem_map]

theorem Kept.types {P : TypeExpr → Prop} (kept : r.Kept P) : ∀ t ∈ Operation.typesOf r, P t :=
  forall_typesOf.mpr ⟨kept.resultType, kept.receivers, fun a ha => (kept.arguments a ha).type⟩

theorem Kept.imp {P Q : TypeExpr → Prop} (kept : r.Kept P)
    (step : ∀ t ∈ Operation.typesOf r, P t → Q t) : r.Kept Q := by
  obtain ⟨result, receivers, arguments⟩ := forall_typesOf.mp step
  exact ⟨result kept.resultType,
    fun a ha => ⟨arguments a ha (kept.arguments a ha).type, (kept.arguments a ha).default⟩,
    fun t ht => receivers t ht (kept.receivers t ht)⟩

theorem written_receivers {d : Decoder (List TypeExpr)} {v : Json} {ts : List TypeExpr}
    (read : d.ofJson v.canonical = .ok ts) :
    (Field.optional "receiverTypes" d fun ts r => r.withReceivers ts).Written
      [("receiverTypes", v)] r
      { r with
        receivers := ts.foldl addType r.receivers
        distinct := distinct_foldl_addType r.distinct ts } := by
  rw [← withReceivers_eq]
  exact Field.written_optional read

theorem ofJson_toJson (kept : r.Kept fun t => TypeExpr.parse t.text = .ok (f t)) :
    decoder.ofJson r.toJson.canonical = .ok (r.mapTypes f) := by
  have arguments := Decoder.list_eq_ok.mpr <|
    forall₂_map_of_forall fun a ha => Argument.ofJson_toJson (kept.arguments a ha)
  have receivers := Decoder.list_eq_ok.mpr <|
    forall₂_map_of_forall fun t ht => TypeExpr.ofJson_toJson.mpr (kept.receivers t ht)
  have back := Written.ofJson layout_lawful <|
    .cons (written_text r.name) <|
    .cons (Field.written_needed (TypeExpr.ofJson_toJson.mpr kept.resultType)) <|
    .cons (Field.written_optional arguments) <|
    .cons (written_receivers receivers) <|
    .cons (written_bool r.batched) <|
    .cons (written_bool r.unionSource) <|
    .cons (written_optionalMember rfl r.description) .nil
  simp only [List.cons_append, List.nil_append, List.append_nil] at back
  exact back

theorem exists_parse {s : Resolver} (ok : decoder.ofJson r.toJson.canonical = .ok s) :
    ∀ t ∈ Operation.typesOf r, ∃ u, parse t.text = .ok u := by
  obtain ⟨members, same, keys, resultType, arguments, receivers⟩ :
      ∃ members, r.toJson = .object members ∧
        (members.map Prod.fst).Sublist (layout.fields.map Field.key) ∧
        ("resultType", r.resultType.toJson) ∈ members ∧
        ("arguments", .array (r.arguments.map Argument.toJson)) ∈ members ∧
        ("receiverTypes", typesToJson r.receivers) ∈ members := by
    refine ⟨_, rfl, ?_, by simp, by simp, by simp⟩
    simp only [List.map_append]
    exact (List.Sublist.refl _).append (keys_optionalMember _)
  rw [same] at ok
  obtain ⟨result, readResult⟩ := layout_lawful.read_of_mem keys ok resultType (.tail _ (.head _))
  obtain ⟨specs, readSpecs⟩ :=
    layout_lawful.read_of_mem keys ok arguments (.tail _ (.tail _ (.head _)))
  obtain ⟨types, readTypes⟩ :=
    layout_lawful.read_of_mem keys ok receivers (.tail _ (.tail _ (.tail _ (.head _))))
  refine forall_typesOf.mpr ⟨⟨result, TypeExpr.ofJson_toJson.mp readResult⟩, ?_, ?_⟩
  · intro t ht
    obtain ⟨u, _, read⟩ := exists_of_mem_left (Decoder.list_eq_ok.mp readTypes) ht
    exact ⟨u, TypeExpr.ofJson_toJson.mp read⟩
  · intro a ha
    obtain ⟨b, _, read⟩ := exists_of_mem_left (Decoder.list_eq_ok.mp readSpecs) ha
    exact Argument.exists_parse read

theorem foldl_addType_map_eq_self {ts : List TypeExpr} (distinct : Distinct ts) :
    (ts.map f).foldl addType [] = ts ↔ ts.map f = ts := by
  constructor
  · intro same
    have sublist := foldl_addType_sublist [] (ts.map f)
    rw [same, List.nil_append] at sublist
    exact (sublist.eq_of_length (List.length_map f).symm).symm
  · intro same
    rw [same, @foldl_addType_of_distinct [] ts distinct, List.nil_append]

theorem mapTypes_eq_self : r.mapTypes f = r ↔ ∀ t ∈ Operation.typesOf r, f t = t := by
  have parts : r.mapTypes f = r ↔ f r.resultType = r.resultType ∧
      r.arguments.map (Argument.mapType f) = r.arguments ∧
      (r.receivers.map f).foldl addType [] = r.receivers := by
    cases r
    simp [mapTypes]
  have argument (a : Argument) : a.mapType f = a ↔ f a.type = a.type := by
    cases a
    simp [Argument.mapType]
  rw [parts, foldl_addType_map_eq_self r.distinct, map_eq_self_iff, map_eq_self_iff,
    forall₂_congr fun a _ => argument a, forall_typesOf]
  exact and_congr_right fun _ => and_comm

/-- A resolver reads back from what is written of it when the texts of its types can hold them. -/
theorem readsBack_iff (kept : r.Kept Lawful) :
    decoder.ReadsBack toJson r ↔ ∀ t ∈ Operation.typesOf r, t.Printable := by
  constructor
  · intro back t ht
    have : Nonempty TypeExpr := ⟨.wildcard []⟩
    choose! f parsed using exists_parse back
    have read := ofJson_toJson (kept.imp fun t ht _ => parsed t ht)
    have same : r.mapTypes f = r := Except.ok.inj (read.symm.trans back)
    have fixed := mapTypes_eq_self.mp same t ht
    have own := parsed t ht
    rw [fixed] at own
    exact (built_of_parse own).2
  · intro printable
    have parsed : r.Kept fun t => parse t.text = .ok (id t) :=
      kept.imp fun t ht lawful => parse_text_of_lawful lawful (printable t ht)
    rw [Decoder.ReadsBack, ofJson_toJson parsed]
    exact congrArg Except.ok (mapTypes_eq_self.mpr fun _ _ => rfl)

theorem kept_of_reads {P : TypeExpr → Prop} (blank : P (.wildcard []))
    (reads : ∀ t, TypeExpr.decoder.Obtains t → P t) (obtained : decoder.Obtains r) : r.Kept P := by
  refine Layout.obtains_induct (fun f hf change given r kept => ?_)
    ⟨blank, nofun, nofun⟩ obtained
  obtain ⟨result, arguments, receivers⟩ := kept
  simp only [layout, List.mem_cons, List.not_mem_nil, or_false] at hf
  obtain rfl | rfl | rfl | rfl | rfl | rfl | rfl := hf
  all_goals obtain ⟨value, part, rfl⟩ := Decoder.Obtains.of_map given
  · exact ⟨result, arguments, receivers⟩
  · exact ⟨reads _ part, arguments, receivers⟩
  · have specs : ∀ a ∈ value, a.Kept P := fun a ha =>
      Argument.kept_of_reads blank reads (part.of_list a ha)
    exact ⟨result, specs, receivers⟩
  · change (Resolver.withReceivers _ value).Kept P
    rw [withReceivers_eq]
    refine ⟨result, arguments, fun t ht => ?_⟩
    obtain old | new := mem_or_mem_of_addTypes ht
    · exact receivers t old
    · exact reads t (part.of_list t new)
  · exact ⟨result, arguments, receivers⟩
  · exact ⟨result, arguments, receivers⟩
  · exact ⟨result, arguments, receivers⟩

theorem kept_of_obtains (obtained : decoder.Obtains r) : r.Kept Documented :=
  kept_of_reads documented_wildcard (fun _ => documented_of_obtains) obtained

end Resolver

end Overload
