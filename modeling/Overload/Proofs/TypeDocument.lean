import Overload.Document.Type
import Overload.Proofs.Decoder
import Overload.Proofs.TypePrinting

/-!
Documents of types. Whatever form a type is read from, it is a text with annotations added to its
root. Only a text is ever written, so the type reads back when the text can hold those annotations.
-/
namespace Overload

open Document

namespace Annotation

/-- The values are the table of some members, whose order does not matter. -/
def Tabled (a : Annotation) : Prop :=
  ∃ members : List (String × Json), (∀ m ∈ members, m.2.Representable) ∧
    a.values = .ofMembers members

theorem tabled_of_obtains {a : Annotation} (obtained : decoder.Obtains a) : a.Tabled := by
  refine Layout.obtains_induct (fun f hf change given a tabled => ?_) ⟨[], nofun, rfl⟩ obtained
  simp only [layout, List.mem_cons, List.not_mem_nil, or_false] at hf
  obtain rfl | rfl := hf
  all_goals obtain ⟨value, part, rfl⟩ := Decoder.Obtains.of_map given
  · exact tabled
  · exact part.of_table

/-- Giving an annotation its values one by one makes their table. -/
theorem Tabled.built {a : Annotation} (tabled : a.Tabled) : a.Built := by
  obtain ⟨members, representable, table⟩ := tabled
  have built : (withValues ⟨a.name, []⟩ members).Built :=
    TypeExpr.built_withValues (fun m hm => (representable m hm).canonical) (.new a.name)
  rwa [withValues_new, ← table] at built

theorem built_of_obtains {a : Annotation} (obtained : decoder.Obtains a) : a.Built :=
  (tabled_of_obtains obtained).built

end Annotation

namespace TypeExpr

theorem annotate_nil (t : TypeExpr) : t.annotate [] = t := by cases t <;> rfl

/-- Below the annotations at its root, the type is one that a text says. -/
structure Documented (t : TypeExpr) : Prop where
  lawful : t.Lawful
  bare : t.bare.Printable

theorem documented_wildcard : (wildcard []).Documented := ⟨lawful_wildcard, printable_wildcard⟩

theorem printable_iff_annotations {t : TypeExpr} :
    t.Printable ↔ t.bare.Printable ∧ ∀ a ∈ t.annotations, a.Printable := by
  rw [printable_iff, printable_iff, bare, children_setAnnotations]
  constructor
  · intro parts
    obtain ⟨node, below⟩ := parts
    refine ⟨⟨⟨?_, ?_, ?_⟩, below⟩, node.annotations⟩
    · rw [isUnion_setAnnotations]
      exact node.single
    · rw [name?_setAnnotations]
      exact node.name
    · rw [annotations_setAnnotations]
      exact List.forall_mem_nil _
  · intro parts
    obtain ⟨⟨node, below⟩, each⟩ := parts
    have single := node.single
    have name := node.name
    rw [isUnion_setAnnotations] at single
    rw [name?_setAnnotations] at name
    exact ⟨⟨single, name, each⟩, below⟩

theorem annotations_of_obtains {t : Annotated} (obtained : Annotated.layout.decoder.Obtains t) :
    ∀ a ∈ t.annotations, a.Built := by
  refine Layout.obtains_induct (P := fun t => ∀ a ∈ t.annotations, a.Built)
    (fun f hf change given t each => ?_) nofun obtained
  simp only [Annotated.layout, List.mem_cons, List.not_mem_nil, or_false] at hf
  obtain rfl | rfl := hf
  all_goals obtain ⟨value, part, rfl⟩ := Decoder.Obtains.of_map given
  · exact each
  · exact fun a ha => Annotation.built_of_obtains (part.of_list a ha)

theorem exists_annotated_of_obtains {t : TypeExpr} (obtained : decoder.Obtains t) :
    ∃ parts : Annotated, (∀ a ∈ parts.annotations, a.Built) ∧ parts.parse = .ok t := by
  obtain ⟨v, representable, ok⟩ := obtained.of_whole
  cases v with
  | string text => exact ⟨{ text }, nofun, ok⟩
  | null | bool | integer | real | array | object =>
      simp only [ofJson] at ok
      split at ok
      · rename_i parts read
        exact ⟨parts, annotations_of_obtains (.value representable read), ok⟩
      · cases ok

theorem documented_of_obtains {t : TypeExpr} (obtained : decoder.Obtains t) : t.Documented := by
  obtain ⟨parts, each, ok⟩ := exists_annotated_of_obtains obtained
  obtain ⟨u, parsed, same⟩ := bind_eq_ok.mp ok
  cases same
  obtain ⟨built, printable⟩ := built_of_parse (mapError_eq_ok.mp parsed)
  refine ⟨built.lawful.annotate each, ?_⟩
  rw [bare_annotate]
  exact (printable_iff_annotations.mp printable).1

theorem ofJson_toJson {t u : TypeExpr} :
    decoder.ofJson t.toJson.canonical = .ok u ↔ parse t.text = .ok u := by
  change Annotated.parse { text := t.text } = .ok u ↔ _
  rw [Annotated.parse, bind_eq_ok]
  simp only [mapError_eq_ok, annotate_nil, Except.ok.injEq, exists_eq_right]

theorem readsBack_iff {t : TypeExpr} (lawful : t.Lawful) :
    decoder.ReadsBack toJson t ↔ t.Printable :=
  ofJson_toJson.trans (parse_text_iff lawful)

theorem Documented.printable_iff {t : TypeExpr} (documented : t.Documented) :
    t.Printable ↔ ∀ a ∈ t.annotations, a.Printable :=
  printable_iff_annotations.trans (and_iff_right documented.bare)

end TypeExpr

end Overload
