import Overload.Proofs.Built
import Overload.Proofs.JsonPrinting
import Overload.Proofs.TypeReading
import Overload.TypeExpr.Printer

/-!
Printing types: a type whose names are names and that contains no union is printed as a text that
reads back as the same type, with all its annotations and their values. What is read from any text
is such a type.
-/
namespace Overload

/-- What a text can hold of an annotation. -/
structure Annotation.Printable (a : Annotation) : Prop where
  name : isName a.name = true
  nesting : ∀ entry ∈ a.values.entries, entry.2.depth ≤ 127

theorem Annotation.Printable.new {name : String} (valid : isName name = true) :
    Annotation.Printable ⟨name, []⟩ := ⟨valid, nofun⟩

theorem Annotation.Printable.withValue {a : Annotation} (printable : a.Printable) (key : String)
    {value : Json} (nested : value.depth ≤ 127) : (a.withValue key value).Printable := by
  refine ⟨printable.name, fun entry h => ?_⟩
  obtain rfl | old := mem_insertSorted h
  · exact nested
  · exact printable.nesting entry old

namespace TypeExpr

open Annotation (renderKey renderEntry withValue withValues_new)

/-- The text spells out the tokens before any other tokens, unless a name goes on. -/
def Writes (cs : List Char) (ts : List Token) : Prop :=
  ∀ us rest, Spells us rest → (∀ c ∈ rest.head?, continuesName c = false) →
    Spells (ts ++ us) (cs ++ rest)

theorem Writes.nil : Writes [] [] := fun _ _ tail _ => tail

theorem Writes.append {cs ds : List Char} {ts us : List Token} (first : Writes cs ts)
    (front : ∃ c more, ds = c :: more ∧ continuesName c = false) (second : Writes ds us) :
    Writes (cs ++ ds) (ts ++ us) := by
  intro vs rest tail ends
  obtain ⟨c, more, rfl, other⟩ := front
  have here := second vs rest tail ends
  rw [List.append_assoc, List.append_assoc]
  refine first _ _ here fun d hd => ?_
  cases hd
  exact other

theorem Writes.mark (c : Char) {cs : List Char} {ts : List Token} (rest : Writes cs ts)
    (shown : Text.isBlank c = false := by rfl) : Writes (c :: cs) (.mark c shown :: ts) :=
  fun us more tail ends => .here (.mark c shown) trivial (rest us more tail ends)

theorem Writes.blank {cs : List Char} {ts : List Token} (rest : Writes cs ts) :
    Writes (' ' :: cs) ts := by
  intro us more tail ends
  have space : Blanks [' '] := by simp [Blanks]; rfl
  exact ((rest us more tail ends).blanks space : Spells (ts ++ us) ([' '] ++ (cs ++ more)))

theorem Writes.name (n : String) (valid : isName n = true) :
    Writes n.toList [.name n valid] := fun _ _ tail ends =>
  .here (.name n valid) ends tail

theorem Writes.json {text : List Char} {v : Json} (reads : Json.readChars text = .ok v) :
    Writes text [.json text v reads] := fun _ _ tail _ =>
  .here (.json text v reads) trivial tail

/-- Items with commas between them are written one by one. -/
theorem writes_listing {α : Type} {item : List Token → α → Prop} (render : α → List Char)
    {xs : List α} (each : ∀ x ∈ xs, ∃ ts, item ts x ∧ Writes (render x) ts) (some : xs ≠ []) :
    ∃ ts, Listing item ts xs ∧ Writes (Json.separated [',', ' '] (xs.map render)) ts := by
  induction xs with
  | nil => exact absurd rfl some
  | cons x xs ih =>
      obtain ⟨head, rest⟩ := List.forall_mem_cons.mp each
      obtain ⟨ts, tokens, written⟩ := head
      cases xs with
      | nil => exact ⟨ts, .one tokens, by simpa [Json.separated] using written⟩
      | cons y ys =>
          obtain ⟨us, listed, others⟩ := ih rest (List.cons_ne_nil y ys)
          refine ⟨_, .more tokens listed, ?_⟩
          have words : Json.separated [',', ' '] ((x :: y :: ys).map render) =
              render x ++ ',' :: ' ' :: Json.separated [',', ' '] ((y :: ys).map render) := by
            simp [Json.separated, List.intercalate_cons_cons]
          rw [words]
          exact written.append ⟨',', _, rfl, by decide⟩ (.mark ',' (.blank others))

theorem writes_key (key : String) :
    ∃ token, KeyToken token key ∧ Writes (renderKey key) [token] := by
  unfold renderKey
  split
  · rename_i valid
    exact ⟨.name key valid, .name valid, .name key valid⟩
  · exact ⟨_, .string _, .json (Json.readChars_quote key)⟩

theorem writes_entry {entry : String × Json} (stored : entry.2.Stored)
    (nested : entry.2.depth ≤ 127) :
    ∃ ts, EntryTokens ts entry ∧ Writes (renderEntry entry) ts := by
  obtain ⟨token, named, key⟩ := writes_key entry.1
  have reads := Json.readChars_render stored nested
  refine ⟨_, .parts named reads, ?_⟩
  have value := Writes.blank (.mark '=' (.blank (.json reads)))
  simpa [renderEntry] using key.append ⟨' ', _, rfl, by decide⟩ value

theorem writes_annotation {a : Annotation} (built : a.Built) (printable : a.Printable) :
    ∃ ts, AnnotationTokens ts a ∧ Writes a.render ts := by
  have stored := built.stored
  obtain ⟨name, entries, ascending⟩ := a
  have valid : isName name = true := printable.name
  cases entries with
  | nil => exact ⟨_, .plain valid, .mark '@' (.name name valid)⟩
  | cons entry entries =>
      obtain ⟨ts, listed, written⟩ := writes_listing renderEntry
        (fun e he => writes_entry (stored e he) (printable.nesting e he))
        (List.cons_ne_nil entry entries)
      have tokens := AnnotationTokens.values valid listed
      have table : Json.Table.ofMembers (entry :: entries) = ⟨entry :: entries, ascending⟩ :=
        Json.Table.ofMembers_entries stored
      rw [withValues_new, table] at tokens
      have shown : Annotation.render ⟨name, entry :: entries, ascending⟩ =
          '@' :: name.toList ++
            '(' :: Json.separated [',', ' '] ((entry :: entries).map renderEntry) ++ [')'] := rfl
      refine ⟨_, tokens, ?_⟩
      have list := written.append ⟨')', [], rfl, by decide⟩ (.mark ')' .nil)
      have word := (Writes.name name valid).append ⟨'(', _, rfl, by decide⟩ (.mark '(' list)
      simpa [shown] using Writes.mark '@' word

theorem writes_annotations {as : List Annotation} (built : ∀ a ∈ as, a.Built)
    (printable : ∀ a ∈ as, a.Printable) :
    ∃ ts, Sequence AnnotationTokens ts as ∧
      ∀ {cs us}, Writes cs us → Writes (renderAnnotations as ++ cs) (ts ++ us) := by
  induction as with
  | nil => exact ⟨[], .nil, id⟩
  | cons a as ih =>
      obtain ⟨first, rest⟩ := List.forall_mem_cons.mp built
      obtain ⟨first', rest'⟩ := List.forall_mem_cons.mp printable
      obtain ⟨ts, head, written⟩ := writes_annotation first first'
      obtain ⟨us, sequence, others⟩ := ih rest rest'
      refine ⟨_, .cons head sequence, fun more => ?_⟩
      have spaced := written.append ⟨' ', _, rfl, by decide⟩ (.blank (others more))
      simpa [renderAnnotations] using spaced

/-- What a text can hold of a type, at every node: names that are names, no union, and values that
are not nested too deeply. -/
structure PrintableNode (u : TypeExpr) : Prop where
  single : u.isUnion = false
  name : ∀ n ∈ u.name?, isName n = true
  annotations : ∀ a ∈ u.annotations, a.Printable

def Printable (t : TypeExpr) : Prop := ∀ u ∈ t.nodes, u.PrintableNode

theorem printable_iff {t : TypeExpr} :
    t.Printable ↔ t.PrintableNode ∧ ∀ c ∈ t.children, c.Printable := forall_nodes

theorem printable_wildcard : (wildcard []).Printable :=
  printable_iff.mpr ⟨⟨rfl, nofun, nofun⟩, nofun⟩

theorem printable_named {n : String} (valid : isName n = true) {params : List TypeExpr}
    (each : ∀ p ∈ params, p.Printable) : (named [] n params).Printable :=
  printable_iff.mpr ⟨⟨rfl, fun _ same => Option.mem_some_iff.mp same ▸ valid, nofun⟩, each⟩

theorem Printable.annotate {t : TypeExpr} (printable : t.Printable) {as : List Annotation}
    (each : ∀ a ∈ as, a.Printable) : (t.annotate as).Printable := by
  obtain ⟨node, below⟩ := printable_iff.mp printable
  refine printable_iff.mpr ⟨⟨?_, ?_, fun a ha => ?_⟩, ?_⟩
  · rw [TypeExpr.annotate, isUnion_setAnnotations]
    exact node.single
  · rw [TypeExpr.annotate, name?_setAnnotations]
    exact node.name
  · rw [TypeExpr.annotate, annotations_setAnnotations] at ha
    exact (mem_mergeAnnotations ha).elim (node.annotations a) (each a)
  · rw [TypeExpr.annotate, children_setAnnotations]
    exact below

theorem renderAll_eq_map (ts : List TypeExpr) : renderAll ts = ts.map render := by
  induction ts with
  | nil => rfl
  | cons t ts ih => rw [renderAll, ih, List.map_cons]

theorem writes_type {t : TypeExpr} (lawful : t.Lawful) (printable : t.Printable) :
    ∃ ts, TypeTokens ts t ∧ Writes t.render ts := by
  induction t using induct with
  | wildcard as =>
      obtain ⟨⟨different, each⟩, _⟩ := lawful_iff.mp lawful
      obtain ⟨node, _⟩ := printable_iff.mp printable
      obtain ⟨front, annotated, written⟩ := writes_annotations each node.annotations
      have tokens := TypeTokens.wildcard annotated
      rw [different.eraseDups_eq] at tokens
      exact ⟨_, tokens, written (.mark '?' .nil)⟩
  | named as name params ih =>
      obtain ⟨⟨different, each⟩, below⟩ := lawful_iff.mp lawful
      obtain ⟨node, below'⟩ := printable_iff.mp printable
      obtain ⟨front, annotated, written⟩ := writes_annotations each node.annotations
      have valid : isName name = true := node.name name rfl
      cases params with
      | nil =>
          have tokens := TypeTokens.named annotated valid
          rw [different.eraseDups_eq] at tokens
          exact ⟨_, tokens, written (.name name valid)⟩
      | cons p ps =>
          obtain ⟨inner, listed, params⟩ := writes_listing render
            (fun c hc => ih c hc (below c hc) (below' c hc)) (List.cons_ne_nil p ps)
          have tokens := TypeTokens.generic annotated valid listed
          rw [different.eraseDups_eq] at tokens
          refine ⟨_, tokens, ?_⟩
          have list := params.append ⟨'>', [], rfl, by decide⟩ (.mark '>' .nil)
          have word := (Writes.name name valid).append ⟨'<', _, rfl, by decide⟩ (.mark '<' list)
          simpa [render, renderAll_eq_map, TypeExpr.annotations] using written word
  | union as members _ =>
      have single := (printable_iff.mp printable).1.single
      simp [isUnion] at single

theorem parse_text_of_lawful {t : TypeExpr} (lawful : t.Lawful) (printable : t.Printable) :
    parse t.text = .ok t := by
  obtain ⟨ts, tokens, written⟩ := writes_type lawful printable
  have spells := written [] [] (.nil .nil) (by simp)
  rw [List.append_nil, List.append_nil] at spells
  rw [parse, mapError_eq_ok, text, String.toList_ofList]
  exact readText_eq_ok.mpr ⟨ts, tokens, spells⟩

theorem built_withValues {entries : List (String × Json)}
    (stored : ∀ e ∈ entries, e.2.canonical.Stored) {a : Annotation} (built : a.Built) :
    (a.withValues entries).Built :=
  List.foldlRecOn entries _ built fun _ built e he => built.withValue e.1 (stored e he)

theorem printable_withValues {entries : List (String × Json)}
    (nested : ∀ e ∈ entries, e.2.canonical.depth ≤ 127) {a : Annotation} (printable : a.Printable) :
    (a.withValues entries).Printable :=
  List.foldlRecOn entries _ printable fun _ printable e he =>
    printable.withValue e.1 (nested e he)

theorem built_of_annotationTokens {ts : List Token} {a : Annotation}
    (tokens : AnnotationTokens ts a) : a.Built ∧ a.Printable := by
  cases tokens with
  | plain valid => exact ⟨.new _, .new valid⟩
  | empty valid => exact ⟨.new _, .new valid⟩
  | @values n valid ts entries listed =>
      have each : ∀ e ∈ entries, e.2.canonical.Stored ∧ e.2.canonical.depth ≤ 127 := by
        intro e he
        obtain ⟨us, entry, _⟩ := listed.exists_item e he
        obtain ⟨named, reads⟩ := entry
        exact Json.stored_of_readChars reads
      exact ⟨built_withValues (fun e he => (each e he).1) (.new n),
        printable_withValues (fun e he => (each e he).2) (.new valid)⟩

theorem built_of_typeTokens {ts : List Token} {t : TypeExpr} (tokens : TypeTokens ts t) :
    t.Built ∧ t.Printable := by
  have annotated {front : List Token} {as : List Annotation}
      (sequence : Sequence AnnotationTokens front as) : ∀ a ∈ as, a.Built ∧ a.Printable :=
    fun a ha => (sequence.exists_item a ha).elim fun _ tokens => built_of_annotationTokens tokens
  cases tokens with
  | wildcard sequence =>
      have front := annotated sequence
      rw [← wildcard_annotate]
      exact ⟨.annotate .wildcard fun a ha => (front a ha).1,
        printable_wildcard.annotate fun a ha => (front a ha).2⟩
  | @named _ _ n sequence valid =>
      have front := annotated sequence
      rw [← named_annotate]
      exact ⟨.annotate (.named n (by simp)) fun a ha => (front a ha).1,
        (printable_named valid (by simp)).annotate fun a ha => (front a ha).2⟩
  | @generic _ inner _ n params sequence valid listed =>
      have front := annotated sequence
      have each : ∀ p ∈ params, p.Built ∧ p.Printable := fun p hp =>
        have ⟨us, inside, shorter⟩ := listed.exists_item p hp
        built_of_typeTokens inside
      rw [← named_annotate]
      exact ⟨.annotate (.named n fun p hp => (each p hp).1) fun a ha => (front a ha).1,
        (printable_named valid fun p hp => (each p hp).2).annotate fun a ha => (front a ha).2⟩
termination_by ts.length
decreasing_by
  simp only [List.length_append, List.length_cons]
  omega

theorem built_of_parse {s : String} {t : TypeExpr} (ok : parse s = .ok t) :
    t.Built ∧ t.Printable := by
  rw [parse, mapError_eq_ok] at ok
  obtain ⟨ts, tokens, _⟩ := readText_eq_ok.mp ok
  exact built_of_typeTokens tokens

theorem parse_text_iff {t : TypeExpr} (lawful : t.Lawful) :
    parse t.text = .ok t ↔ t.Printable :=
  ⟨fun ok => (built_of_parse ok).2, parse_text_of_lawful lawful⟩

/-- A type that is built from names, without a union in it, reads back from its text; and so does
every type that was read from a text. -/
theorem parse_text :
    (∀ t : TypeExpr, t.Built → t.Printable → parse t.text = .ok t) ∧
      ∀ (s : String) (t : TypeExpr), parse s = .ok t →
        t.Built ∧ t.Printable ∧ parse t.text = .ok t := by
  refine ⟨fun t built printable => parse_text_of_lawful built.lawful printable, fun s t ok => ?_⟩
  obtain ⟨built, printable⟩ := built_of_parse ok
  exact ⟨built, printable, parse_text_of_lawful built.lawful printable⟩

def sized : Annotation :=
  (withValue ⟨"Size", []⟩ "max" (.real ⟨false, 3 * 2 ^ 51, -52⟩)).withValue "at \"most\""
    (.array [.string ",)", .integer (-1)])

def sizedList : TypeExpr :=
  (named [] "List" [(named [] "Int" []).annotate [⟨"NonNull", []⟩]]).annotate [sized]

theorem parse_text_sizedList :
    sizedList.Built ∧ sizedList.Printable ∧
      sizedList.text = "@Size(\"at \\\"most\\\"\" = [\",)\",-1], max = 1.5) List<@NonNull Int>" ∧
      parse sizedList.text = .ok sizedList := by
  have real : Json.Stored (.real ⟨false, 3 * 2 ^ 51, -52⟩) :=
    .real ⟨by norm_num, by norm_num, by norm_num, .inr (by norm_num)⟩
  have array : Json.Stored (.array [.string ",)", .integer (-1)]) := by
    refine .array fun v hv => ?_
    obtain rfl | rfl := List.mem_pair.mp hv
    · exact .string _
    · exact .integer (by norm_num) (by norm_num)
  have built : sizedList.Built := by
    refine .annotate (.named "List" fun p hp => ?_) fun a ha => ?_
    · obtain rfl := List.mem_singleton.mp hp
      exact .annotate (.named "Int" (by simp)) fun a ha => List.mem_singleton.mp ha ▸ .new "NonNull"
    · obtain rfl := List.mem_singleton.mp ha
      exact .withValue _ (.withValue _ (.new "Size") real) array
  have printable : sizedList.Printable := by
    refine (printable_named (by decide) fun p hp => ?_).annotate fun a ha => ?_
    · obtain rfl := List.mem_singleton.mp hp
      refine (printable_named (by decide) (by simp)).annotate fun a ha => ?_
      exact List.mem_singleton.mp ha ▸ .new (by decide)
    · obtain rfl := List.mem_singleton.mp ha
      have plain : Annotation.Printable ⟨"Size", []⟩ := .new (by decide)
      exact (plain.withValue _ (by decide)).withValue _ (by decide)
  have back := parse_text.1 sizedList built printable
  exact ⟨built, printable, by decide +kernel, (parse_text.2 sizedList.text sizedList back).2.2⟩

end TypeExpr

end Overload
