import Overload.Document.Hierarchy
import Overload.Proofs.Extension

/-!
The order of the names of a hierarchy, for every hierarchy that can be obtained: an initial one, an
extension of another one, or one read from a document. All of them are valid. Subtyping orders the
names of those that do not declare their top type, and the only way to one that does is a document
that keeps the builtin types and chooses one of them as its top type.
-/
namespace Overload.Hierarchy

open Document

/-- Subtyping is a partial order of the contained names, and the top type's is the greatest. -/
structure NamesOrdered (h : Hierarchy) : Prop where
  topFree : h.declares h.top = false
  refl : ∀ a, h.contains a = true → h.isSubtypeName a a = true
  trans : ∀ a b c, h.contains a = true → h.contains b = true → h.contains c = true →
    h.isSubtypeName a b = true → h.isSubtypeName b c = true → h.isSubtypeName a c = true
  antisymm : ∀ a b, h.contains a = true → h.contains b = true →
    h.isSubtypeName a b = true → h.isSubtypeName b a = true → a = b
  greatest : h.contains h.top = true ∧
    ∀ a, h.contains a = true → h.isSubtypeName a h.top = true

theorem Sound.namesOrdered {h : Hierarchy} (sound : h.Sound) : h.NamesOrdered where
  topFree := sound.topFree
  refl a _ := isSubtypeName_refl h a
  trans _ _ _ _ _ _ hab hbc := sound.isSubtypeName_trans hab hbc
  antisymm _ _ _ _ hab hba := sound.isSubtypeName_antisymm hab hba
  greatest := ⟨by simp [contains], fun a _ => isSubtypeName_top h a⟩

/-- How a hierarchy is obtained. A document is a value, or stands at the front of a text. -/
inductive Obtained : Hierarchy → Prop
  | initial {h : Hierarchy} (start : h.Initial) : Obtained h
  | extended {base h : Hierarchy} {ds : List Declaration} (obtained : Obtained base)
      (ok : base.extend ds = .ok h) : Obtained h
  | value {document : Json} {h : Hierarchy} (ok : decoder.ofJson document = .ok h) : Obtained h
  | text {depth : Nat} {document rest : List Char} {h : Hierarchy}
      (ok : decoder.ofText depth document = .ok (h, rest)) : Obtained h

/-- Whatever is read from documents goes through an outline. -/
theorem exists_outline_of_ofJson {document : Json} {h : Hierarchy}
    (ok : decoder.ofJson document = .ok h) :
    ∃ outline : HierarchyOutline, outline.hierarchy = .ok h := by
  obtain ⟨outline, _, built⟩ := bind_eq_ok.mp ok
  exact ⟨outline, mapError_eq_ok.mp built⟩

theorem exists_outline_of_ofText {depth : Nat} {document rest : List Char} {h : Hierarchy}
    (ok : decoder.ofText depth document = .ok (h, rest)) :
    ∃ outline : HierarchyOutline, outline.hierarchy = .ok h := by
  obtain ⟨⟨outline, _⟩, _, refined⟩ := bind_eq_ok.mp ok
  obtain ⟨_, built, same⟩ := bind_eq_ok.mp refined
  cases same
  exact ⟨outline, mapError_eq_ok.mp built⟩

theorem declares_top_of_extend {base h : Hierarchy} {ds : List Declaration}
    (ok : base.extend ds = .ok h) :
    h.top = base.top ∧ h.declares h.top = base.declares base.top := by
  obtain ⟨names, rfl⟩ := declared_eq_ok.mp (extend_eq_ok.mp ok).1
  rw [top_including]
  exact ⟨rfl, names.declares_top⟩

/-- What holds of every hierarchy that can be obtained. -/
structure Regular (h : Hierarchy) : Prop where
  valid : h.validate = .ok ()
  top : h.declares h.top = true → h.top ∈ builtinDeclarations.map Declaration.name

theorem Regular.of_extend {base h : Hierarchy} {ds : List Declaration}
    (top : base.declares base.top = true → base.top ∈ builtinDeclarations.map Declaration.name)
    (ok : base.extend ds = .ok h) : h.Regular where
  valid := (extend_eq_ok.mp ok).2
  top := by
    obtain ⟨same, declared⟩ := declares_top_of_extend ok
    rw [same, ← same, declared, same]
    exact top

theorem declares_builtinUnder {top name : String} :
    (builtinUnder top).declares name = true ↔
      name ∈ builtinDeclarations.map Declaration.name := by
  have distinct :
      ((([] : List Declaration) ++ builtinDeclarations).map Declaration.name).Nodup := by
    decide +kernel
  have perm := foldl_insertSorted_perm distinct
  rw [declares_iff_mem, builtinUnder, declarations_including]
  exact (perm.map Declaration.name).mem_iff

theorem Regular.of_outline {outline : HierarchyOutline} {h : Hierarchy}
    (ok : outline.hierarchy = .ok h) : h.Regular := by
  simp only [HierarchyOutline.hierarchy] at ok
  split at ok
  · exact .of_extend declares_builtinUnder.mp ok
  · exact .of_extend (fun declared => by simp [declares, get?, findKey?] at declared) ok

theorem Obtained.regular {h : Hierarchy} (obtained : h.Obtained) : h.Regular := by
  induction obtained with
  | initial start =>
      have sound := start.sound
      exact ⟨sound.valid, fun declared => by simp [sound.topFree] at declared⟩
  | extended _ ok ih => exact .of_extend ih.top ok
  | value ok =>
      obtain ⟨outline, ok⟩ := exists_outline_of_ofJson ok
      exact .of_outline ok
  | text ok =>
      obtain ⟨outline, ok⟩ := exists_outline_of_ofText ok
      exact .of_outline ok

theorem namesOrdered_of_obtained {h : Hierarchy} (obtained : h.Obtained) :
    (h.NamesOrdered ↔ h.declares h.top = false) ∧
      (h.declares h.top = true → h.top ∈ builtinDeclarations.map Declaration.name) :=
  ⟨⟨NamesOrdered.topFree, fun free => (Sound.mk obtained.regular.valid free).namesOrdered⟩,
    obtained.regular.top⟩

theorem namesOrdered_of_pages :
    ∃ h : Hierarchy, h.Obtained ∧ h.declares "SortedPage" = true ∧ h.NamesOrdered ∧
      (h.declares h.top = true → h.top ∈ builtinDeclarations.map Declaration.name) := by
  have ok : ∃ h, builtin.extend pages = .ok h := exists_extend_of_accepts (by decide +kernel)
  obtain ⟨h, ok⟩ := ok
  have obtained : h.Obtained := .extended (.initial .builtin) ok
  have free : h.declares h.top = false :=
    (declares_top_of_extend ok).2.trans builtin_sound.topFree
  obtain ⟨ordered, chosen⟩ := namesOrdered_of_obtained obtained
  refine ⟨h, obtained, ?_, ordered.mpr free, chosen⟩
  rw [declares_iff_mem, ((adds_of_extend ok).perm.map Declaration.name).mem_iff]
  decide +kernel

/-- A document that keeps the builtin types and makes one of them the top type. -/
def topIsBuiltin : Json := .object [("top", .string "Int")]

theorem topIsBuiltin_accepted : decoder.ofJson topIsBuiltin = .ok (builtinUnder "Int") := by
  have valid : (builtinUnder "Int").validate = .ok () := by decide +kernel
  have built : (HierarchyOutline.hierarchy { top := some "Int" }) = .ok (builtinUnder "Int") :=
    extend_nil_of_valid valid
  exact bind_eq_ok.mpr ⟨{ top := some "Int" }, rfl, mapError_eq_ok.mpr built⟩

/-- Not every hierarchy that can be obtained has its names in order: where the top type is declared,
it is above and below its own supertypes. -/
theorem not_namesOrdered_of_topIsBuiltin :
    ¬ ∀ h : Hierarchy, h.Obtained → h.NamesOrdered := by
  intro every
  have ordered := every (builtinUnder "Int") (.value topIsBuiltin_accepted)
  have same : "Int" = "Number" := ordered.antisymm "Int" "Number" (by decide +kernel)
    (by decide +kernel) (by decide +kernel) (by decide +kernel)
  exact absurd same (by decide)

end Overload.Hierarchy
