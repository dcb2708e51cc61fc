import Overload.Proofs.BuildOutcome
import Overload.Proofs.JoinBound

/-!
What a rejection says of the results of resolvers. Only the least of their common names are looked
at, so a common name with content counts for nothing when a common marker stands below it. Results
are rejected exactly when markers hide all names with content in this way. Where markers extend only
markers, there is nothing to hide, and a rejection says that the results have nothing in common.
-/
namespace Overload

namespace Hierarchy

open Relation TypeExpr

def IsMarker (h : Hierarchy) (name : String) : Prop := ∃ d, h.get? name = some d ∧ d.marker = true

theorem isFreeName_iff {h : Hierarchy} {name : String} :
    h.isFreeName name = true ↔ name = h.top ∨ h.IsMarker name := by
  rw [isFreeName, isContentFree, Bool.or_eq_true, beq_iff_eq, IsMarker]
  cases h.get? name <;> simp

/-- The supertypes of markers are markers or the top type. -/
def MarkersOnTop (h : Hierarchy) : Prop :=
  ∀ d ∈ h.declarations, d.marker = true → ∀ n ∈ d.supertypes.filterMap name?,
    h.isFreeName n = true

instance (h : Hierarchy) : Decidable h.MarkersOnTop :=
  inferInstanceAs (Decidable (∀ d ∈ h.declarations, d.marker = true →
    ∀ n ∈ d.supertypes.filterMap name?, h.isFreeName n = true))

theorem builtin_markersOnTop : builtin.MarkersOnTop := by decide +kernel

theorem MarkersOnTop.extends {h : Hierarchy} (onTop : h.MarkersOnTop) {m n : String}
    (marker : h.IsMarker m) (up : h.Extends m n) : h.isFreeName n = true := by
  obtain ⟨d, found, t, ht, named⟩ := extends_iff.mp up
  obtain ⟨d', found', marked⟩ := marker
  cases found.symm.trans found'
  exact onTop d (mem_of_get? found) marked n (List.mem_filterMap.mpr ⟨t, ht, named⟩)

theorem MarkersOnTop.isFreeName {h : Hierarchy} (onTop : h.MarkersOnTop) (sound : h.Sound)
    {m n : String} (marker : h.IsMarker m) (sub : h.isSubtypeName m n = true) :
    h.isFreeName n = true := by
  obtain rfl | rfl | chain := isSubtypeName_iff.mp sub
  · exact isFreeName_iff.mpr (.inr marker)
  · exact isFreeName_iff.mpr (.inl rfl)
  · induction chain with
    | single up => exact onTop.extends marker up
    | tail chain up ih =>
        have between := ih (isSubtypeName_iff.mpr (.inr (.inr chain)))
        obtain rfl | marker' := isFreeName_iff.mp between
        · exact absurd up (sound.top_extends_nothing _)
        · exact onTop.extends marker' up

/-- A shared marker stands below the name. -/
def Hidden (h : Hierarchy) (types : List TypeExpr) (name : String) : Prop :=
  ∃ m, h.Shared types m ∧ h.IsMarker m ∧ h.isSubtypeName m name = true

/-- Types that stand for themselves: neither unions nor open. -/
def Nominal (types : List TypeExpr) : Prop := ∀ t ∈ types, ∃ n, t.name? = some n

theorem flattenAll_of_nominal {types : List TypeExpr} (nominal : Nominal types) :
    flattenAll types = types.map bare := by
  rw [flattenAll_eq_flatMap, ← List.flatMap_singleton' (types.map bare), List.flatMap_map]
  refine List.flatMap_congr fun t ht => ?_
  obtain ⟨n, named⟩ := nominal t ht
  obtain ⟨as, params, rfl⟩ := exists_eq_named named
  exact flatten_single rfl

theorem isWildcard_of_nominal {types : List TypeExpr} (nominal : Nominal types) :
    ∀ t ∈ types.map bare, t.isWildcard = false := by
  refine List.forall_mem_map.mpr fun t ht => ?_
  obtain ⟨n, named⟩ := nominal t ht
  obtain ⟨as, params, rfl⟩ := exists_eq_named named
  rfl

theorem shared_map_bare {h : Hierarchy} {types : List TypeExpr} {name : String} :
    h.Shared (types.map bare) name ↔ h.Shared types name := by
  simp only [Shared, List.forall_mem_map, lineage_bare]

/-- Types have nothing in common when markers hide all that says something about them. -/
theorem Sound.nothingShared_iff {h : Hierarchy} (sound : h.Sound) {types : List TypeExpr}
    (some : types ≠ []) (nominal : Nominal types) :
    h.NothingShared types ↔
      ∀ n, h.Shared types n → h.isFreeName n = true ∨ h.Hidden types n := by
  have some' : types.map bare ≠ [] := by simpa using some
  have closed : ¬ ∃ t ∈ types.map bare, t.isWildcard = true := by
    simpa using isWildcard_of_nominal nominal
  rw [NothingShared, flattenAll_of_nominal nominal, or_iff_right closed, or_iff_right some']
  constructor
  · intro free n shared
    obtain ⟨m, least, sub⟩ := sound.exists_leastShared_below some' (shared_map_bare.mpr shared)
    obtain rfl | marker := isFreeName_iff.mp (free m least)
    · exact .inl (isFreeName_iff.mpr (.inl (sound.eq_top_of_top_isSubtypeName sub)))
    · exact .inr ⟨m, shared_map_bare.mp least.1, marker, sub⟩
  · intro hidden n least
    obtain free | ⟨m, shared, marker, sub⟩ := hidden n (shared_map_bare.mp least.1)
    · exact free
    · rw [← least.2 m (shared_map_bare.mpr shared) sub]
      exact isFreeName_iff.mpr (.inr marker)

theorem check_of_mem_names {h : Hierarchy} {t : TypeExpr} {n : String} {l : List TypeExpr}
    (climb : h.lineage t = .ok l) (member : n ∈ l.map erasedName) :
    h.check (.named [] n []) = .ok () := by
  obtain ⟨e, he, rfl⟩ := List.mem_map.mp member
  obtain ⟨n, args, rfl, arity⟩ := lineage_entry climb he
  exact check_named.mpr ⟨⟨_, arity, .inl rfl⟩, by simp⟩

theorem Sound.shared_concat {h : Hierarchy} (sound : h.Sound) {types : List TypeExpr} {n : String}
    (shared : h.Shared types n) (checked : h.check (.named [] n []) = .ok ()) :
    h.Shared (types ++ [.named [] n []]) n := by
  refine List.forall_mem_append.mpr ⟨shared, List.forall_mem_singleton.mpr ?_⟩
  obtain ⟨l, climb⟩ := sound.exists_lineage (rooted_of_check checked)
  exact ⟨l, climb, (sound.mem_lineage_names rfl climb).mpr (isSubtypeName_refl h n)⟩

/-- No marker hides the name of one of the types themselves. -/
theorem Sound.not_hidden_of_mem {h : Hierarchy} (sound : h.Sound) {types : List TypeExpr}
    {n : String} (member : .named [] n [] ∈ types) (content : h.isFreeName n = false) :
    ¬ h.Hidden types n := by
  intro hidden
  obtain ⟨m, shared, marker, sub⟩ := hidden
  obtain ⟨l, climb, above⟩ := shared _ member
  have upper := (sound.mem_lineage_names rfl climb).mp above
  rw [sound.isSubtypeName_antisymm upper sub, isFreeName_iff.mpr (.inr marker)] at content
  cases content

end Hierarchy

namespace Operation

open Hierarchy TypeExpr

/-- Resolvers whose results are to be joined: they are checked, and neither unions nor open. -/
structure Joinable (h : Hierarchy) (rs : List Resolver) : Prop where
  some : rs ≠ []
  joins : ∀ r ∈ rs, r.unionSource = false
  checked : ∀ t ∈ rs.map (·.resultType), h.check t = .ok ()
  nominal : Nominal (rs.map (·.resultType))

def Rejected (h : Hierarchy) (o : Options) (name : String) (rs : List Resolver) : Prop :=
  ∃ operation types shared, unifyResults h o name rs =
    .error (.incompatibleResults operation types shared)

def Accepted (h : Hierarchy) (o : Options) (name : String) (rs : List Resolver) : Prop :=
  ∃ t, unifyResults h o name rs = .ok t

/-- No common name of the results says anything about their values. -/
def NothingCommon (h : Hierarchy) (rs : List Resolver) : Prop :=
  ∀ n, h.Shared (rs.map (·.resultType)) n → h.isFreeName n = true

variable {h : Hierarchy} {o : Options} {name : String} {rs : List Resolver}

theorem Joinable.types_ne_nil (joinable : Joinable h rs) : rs.map (·.resultType) ≠ [] := by
  simpa using joinable.some

/-- Below each common name with content of rejected results there is a common marker. -/
theorem Joinable.hidden_of_rejected (joinable : Joinable h rs) (sound : h.Sound)
    (rejected : Rejected h o name rs) : ∀ n, h.Shared (rs.map (·.resultType)) n →
      h.isFreeName n = true ∨ h.Hidden (rs.map (·.resultType)) n := by
  obtain ⟨_, _, _, fails⟩ := rejected
  rw [unifyResults_of_joins joinable.joins] at fails
  rw [← sound.nothingShared_iff joinable.types_ne_nil joinable.nominal]
  split at fails
  · cases fails
  · rename_i j joined
    refine (sound.isContentFree_iff joinable.checked joined).mp ?_
    by_contra content
    rw [if_neg content] at fails
    cases fails

/-- Accepted results have a common name with content and no common marker below it. -/
theorem Joinable.exists_of_accepted (joinable : Joinable h rs) (sound : h.Sound)
    (accepted : Accepted h o name rs) : ∃ n, h.Shared (rs.map (·.resultType)) n ∧
      h.isFreeName n = false ∧ ¬ h.Hidden (rs.map (·.resultType)) n := by
  obtain ⟨t, ok⟩ := accepted
  obtain ⟨j, _, _, shape⟩ := unifyResults_eq_ok ok
  have joins : rs.any (·.unionSource) = false := by simpa using joinable.joins
  rw [joins] at shape
  obtain ⟨_, _, content, joined⟩ := shape.resolve_left fun united => Bool.false_ne_true united.1
  by_contra hidden
  have nothing : h.NothingShared (rs.map (·.resultType)) := by
    rw [sound.nothingShared_iff joinable.types_ne_nil joinable.nominal]
    intro n shared
    by_contra visible
    rw [not_or, Bool.not_eq_true] at visible
    exact hidden ⟨n, shared, visible⟩
  rw [(sound.isContentFree_iff joinable.checked joined).mpr nothing] at content
  cases content

theorem NothingCommon.mono (nothing : NothingCommon h rs) {rs' : List Resolver} (sub : rs ⊆ rs') :
    NothingCommon h rs' := by
  intro n shared
  exact nothing n fun t ht => shared t (List.map_subset _ sub ht)

theorem NothingCommon.not_accepted (nothing : NothingCommon h rs) (joinable : Joinable h rs)
    (sound : h.Sound) : ¬ Accepted h o name rs := by
  intro accepted
  obtain ⟨n, shared, content, _⟩ := joinable.exists_of_accepted sound accepted
  rw [nothing n shared] at content
  cases content

/-- An overload whose result is the name itself, without parameters. -/
def ofName (name n : String) : Resolver := { name, resultType := .named [] n [] }

theorem Joinable.accepted (joinable : Joinable h rs) (sound : h.Sound) (nested : h.NestedArities)
    {n : String} (shared : h.Shared (rs.map (·.resultType)) n) (content : h.isFreeName n = false)
    (visible : ¬ h.Hidden (rs.map (·.resultType)) n) : Accepted h o name rs := by
  obtain ⟨j, joined, _⟩ := exists_joinWithin sound nested o.maxJoinDepth joinable.checked
  have full : ¬ h.isContentFree j = true := by
    rw [sound.isContentFree_iff joinable.checked joined,
      sound.nothingShared_iff joinable.types_ne_nil joinable.nominal]
    intro hidden
    obtain free | hides := hidden n shared
    · exact Bool.false_ne_true (content.symm.trans free)
    · exact visible hides
  rw [Accepted, unifyResults_of_joins joinable.joins, joined]
  exact ⟨_, if_neg full⟩

theorem Joinable.concat (joinable : Joinable h rs) {n : String}
    (checked : h.check (.named [] n []) = .ok ()) : Joinable h (rs ++ [ofName name n]) where
  some := by simp
  joins := List.forall_mem_append.mpr ⟨joinable.joins, List.forall_mem_singleton.mpr rfl⟩
  checked := by
    rw [List.map_append]
    exact List.forall_mem_append.mpr ⟨joinable.checked, List.forall_mem_singleton.mpr checked⟩
  nominal := by
    rw [List.map_append]
    exact List.forall_mem_append.mpr ⟨joinable.nominal, List.forall_mem_singleton.mpr ⟨n, rfl⟩⟩

/-- An overload with a common name with content for its result makes resolvers acceptable. -/
theorem Joinable.accepted_concat (joinable : Joinable h rs) (sound : h.Sound)
    (nested : h.NestedArities) {n : String} (shared : h.Shared (rs.map (·.resultType)) n)
    (content : h.isFreeName n = false) : Joinable h (rs ++ [ofName name n]) ∧
      Accepted h o name (rs ++ [ofName name n]) := by
  obtain ⟨t, ht⟩ := List.exists_mem_of_ne_nil _ joinable.types_ne_nil
  obtain ⟨l, climb, member⟩ := shared t ht
  have checked := check_of_mem_names climb member
  have types : (rs ++ [ofName name n]).map (·.resultType) =
      rs.map (·.resultType) ++ [.named [] n []] := List.map_append
  have shared' := sound.shared_concat shared checked
  have own : .named [] n [] ∈ rs.map (·.resultType) ++ [.named [] n []] := by simp
  rw [← types] at shared' own
  have joinable' : Joinable h (rs ++ [ofName name n]) := joinable.concat checked
  exact ⟨joinable', joinable'.accepted sound nested shared' content
    (sound.not_hidden_of_mem own content)⟩

/-- Resolvers are rejected only where markers hide all common names with content of their results,
and accepted only where one is not hidden. With nothing in common they stay unaccepted whatever
overloads are added, and with a common name that has content one overload suffices. Where markers
have only markers above them, a rejection does mean that there is nothing in common. -/
theorem unifyResults_verdict {base : Hierarchy} {ds : List Declaration}
    (valid : base.extend ds = .ok h) (topFree : h.declares h.top = false) (o : Options)
    (name : String) (joinable : Joinable h rs) :
    (Rejected h o name rs → ∀ n, h.Shared (rs.map (·.resultType)) n →
      h.isFreeName n = true ∨ h.Hidden (rs.map (·.resultType)) n) ∧
    (Accepted h o name rs → ∃ n, h.Shared (rs.map (·.resultType)) n ∧ h.isFreeName n = false ∧
      ¬ h.Hidden (rs.map (·.resultType)) n) ∧
    (NothingCommon h rs → ∀ rs', rs ⊆ rs' → Joinable h rs' → ¬ Accepted h o name rs') ∧
    (h.NestedArities → ∀ n, h.Shared (rs.map (·.resultType)) n → h.isFreeName n = false →
      Joinable h (rs ++ [ofName name n]) ∧ Accepted h o name (rs ++ [ofName name n])) ∧
    (h.MarkersOnTop → Rejected h o name rs → NothingCommon h rs) := by
  have sound : h.Sound := ⟨validate_of_extend valid, topFree⟩
  refine ⟨joinable.hidden_of_rejected sound, joinable.exists_of_accepted sound, ?_, ?_, ?_⟩
  · intro nothing rs' sub joinable'
    exact (nothing.mono sub).not_accepted joinable' sound
  · intro nested n shared content
    exact joinable.accepted_concat sound nested shared content
  · intro onTop rejected n shared
    obtain free | ⟨m, _, marker, sub⟩ := joinable.hidden_of_rejected sound rejected n shared
    · exact free
    · exact onTop.isFreeName sound marker sub

/-- Circles and squares are shapes, but by way of a marker only. -/
def drawings : Hierarchy where
  top := "Object"
  declarations :=
    [{ name := "Circle", supertypes := [.named [] "Portable" []] },
     { name := "Portable", supertypes := [.named [] "Shape" []], marker := true },
     { name := "Shape" },
     { name := "Square", supertypes := [.named [] "Portable" []] }]

def circleOrSquare : List Resolver :=
  [{ name := "shape", resultType := .named [] "Circle" [] },
   { name := "shape", resultType := .named [] "Square" [] }]

/-- The top type alone. -/
def topOnly : Hierarchy where
  top := "Object"

theorem drawings_valid : topOnly.extend drawings.declarations = .ok drawings := by
  have declared : drawings.declarations.foldlM declare topOnly = .ok drawings := rfl
  have valid : drawings.validate = .ok () := by decide +kernel
  exact bind_eq_ok.mpr ⟨drawings, declared, bind_eq_ok.mpr ⟨(), valid, rfl⟩⟩

theorem circleOrSquare_joinable : Joinable drawings circleOrSquare where
  some := List.cons_ne_nil _ _
  joins := by decide
  checked := by decide +kernel
  nominal := by simp [Nominal, circleOrSquare, name?]

theorem circleOrSquare_rejected : Rejected drawings {} "shape" circleOrSquare := ⟨_, _, _, by cbv⟩

theorem shape_shared : drawings.Shared (circleOrSquare.map (·.resultType)) "Shape" := by
  have circle : drawings.lineage (.named [] "Circle" []) =
      .ok (["Circle", "Portable", "Shape", "Object"].map (.named [] · [])) := by cbv
  have square : drawings.lineage (.named [] "Square" []) =
      .ok (["Square", "Portable", "Shape", "Object"].map (.named [] · [])) := by cbv
  simp only [Shared, circleOrSquare, List.map_cons, List.map_nil, List.forall_mem_cons]
  exact ⟨⟨_, circle, by decide⟩, ⟨_, square, by decide⟩, by simp⟩

theorem shape_content : drawings.isFreeName "Shape" = false := by decide +kernel

/-- The marker hides the shape from the search, and an overload for shapes brings it out. Between
numbers and texts of the builtin hierarchy no marker hides anything. -/
theorem unifyResults_verdict_shapes :
    topOnly.extend drawings.declarations = .ok drawings ∧
      drawings.declares drawings.top = false ∧ Joinable drawings circleOrSquare ∧
      Rejected drawings {} "shape" circleOrSquare ∧
      drawings.Hidden (circleOrSquare.map (·.resultType)) "Shape" ∧ drawings.NestedArities ∧
      Accepted drawings {} "shape" (circleOrSquare ++ [ofName "shape" "Shape"]) ∧
      builtin.MarkersOnTop ∧ Rejected builtin {} "find" mismatched ∧
      NothingCommon builtin mismatched := by
  have topFree : drawings.declares drawings.top = false := by decide +kernel
  have nested : drawings.NestedArities := by decide +kernel
  have joinable : Joinable builtin mismatched :=
    ⟨List.cons_ne_nil _ _, by decide, by decide +kernel, by simp [Nominal, mismatched, name?]⟩
  have rejected : Rejected builtin {} "find" mismatched := ⟨_, _, _, by cbv⟩
  obtain ⟨hides, _, _, restores, _⟩ :=
    unifyResults_verdict drawings_valid topFree {} "shape" circleOrSquare_joinable
  obtain ⟨_, _, _, _, nothing⟩ :=
    unifyResults_verdict builtin_accepted builtin_sound.topFree {} "find" joinable
  have hidden := (hides circleOrSquare_rejected "Shape" shape_shared).resolve_left
    (by rw [shape_content]; exact Bool.false_ne_true)
  exact ⟨drawings_valid, topFree, circleOrSquare_joinable, circleOrSquare_rejected, hidden, nested,
    (restores nested "Shape" shape_shared shape_content).2, builtin_markersOnTop, rejected,
    nothing builtin_markersOnTop rejected⟩

/-- A rejection does not mean that the results have nothing in common, and does not stand whatever
overloads are added. -/
theorem not_nothingCommon_of_rejected :
    (¬ ∀ (base h : Hierarchy) (ds : List Declaration) (o : Options) (name : String)
      (rs : List Resolver), base.extend ds = .ok h → h.declares h.top = false → Joinable h rs →
        Rejected h o name rs → NothingCommon h rs) ∧
    ¬ ∀ (base h : Hierarchy) (ds : List Declaration) (o : Options) (name : String)
      (rs : List Resolver) (r : Resolver), base.extend ds = .ok h → h.declares h.top = false →
        Joinable h rs → Rejected h o name rs → Joinable h (rs ++ [r]) →
          ¬ Accepted h o name (rs ++ [r]) := by
  have topFree : drawings.declares drawings.top = false := by decide +kernel
  constructor
  · intro every
    have free := every topOnly drawings drawings.declarations {} "shape" circleOrSquare
      drawings_valid topFree circleOrSquare_joinable circleOrSquare_rejected "Shape" shape_shared
    exact Bool.false_ne_true (shape_content.symm.trans free)
  · intro every
    have joinable : Joinable drawings (circleOrSquare ++ [ofName "shape" "Shape"]) :=
      circleOrSquare_joinable.concat (by decide +kernel)
    have accepted : Accepted drawings {} "shape" (circleOrSquare ++ [ofName "shape" "Shape"]) :=
      ⟨.named [] "Shape" [], by cbv⟩
    exact every topOnly drawings drawings.declarations {} "shape" circleOrSquare
      (ofName "shape" "Shape") drawings_valid topFree circleOrSquare_joinable
      circleOrSquare_rejected joinable accepted

end Operation

end Overload
