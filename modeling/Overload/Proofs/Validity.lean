import Overload.Hierarchy.Builtin
import Overload.Proofs.Acyclic
import Overload.Proofs.TypeExpr

/-!
What validation guarantees: supertypes are declared names that take the parameters they are given,
and subtyping orders the names.
-/
namespace Overload.Hierarchy

open Relation

/-- A valid hierarchy that does not declare its top type. -/
structure Sound (h : Hierarchy) : Prop where
  valid : h.validate = .ok ()
  topFree : h.declares h.top = false

theorem validate_of_extend {base h : Hierarchy} {ds : List Declaration}
    (extended : base.extend ds = .ok h) : h.validate = .ok () := by
  obtain ⟨whole, _, rest⟩ := bind_eq_ok.mp extended
  obtain ⟨_, valid, same⟩ := bind_eq_ok.mp rest
  cases same
  exact valid

theorem extend_nil_of_valid {h : Hierarchy} (valid : h.validate = .ok ()) :
    h.extend [] = .ok h := by
  simp [extend, valid, bind, Except.bind, pure, Except.pure]

theorem builtin_sound : builtin.Sound where
  valid := by decide +kernel
  topFree := by decide +kernel

theorem builtin_accepted : builtin.extend [] = .ok builtin :=
  extend_nil_of_valid builtin_sound.valid

theorem validate_eq_ok {h : Hierarchy} :
    h.validate = .ok () ↔
      (∀ d ∈ h.declarations, ∀ t ∈ d.supertypes, h.validateSupertype d t = .ok ()) ∧
        ∀ n, ¬ TransGen h.Extends n n := by
  have each : h.declarations.forM h.validateDeclaration = .ok () ↔
      ∀ d ∈ h.declarations, ∀ t ∈ d.supertypes, h.validateSupertype d t = .ok () := by
    rw [forM_eq_ok]
    exact forall₂_congr fun d _ => forM_eq_ok
  rw [validate, bind_eq_ok, ← each, ← validateAcyclic_eq_ok]
  exact ⟨fun ok => ok.elim fun _ both => both, fun both => ⟨(), both⟩⟩

theorem isSubtypeName_refl (h : Hierarchy) (n : String) : h.isSubtypeName n n = true :=
  isSubtypeName_iff.mpr (.inl rfl)

theorem isSubtypeName_top (h : Hierarchy) (n : String) : h.isSubtypeName n h.top = true :=
  isSubtypeName_iff.mpr (.inr (.inl rfl))

namespace Sound

variable {h : Hierarchy} (sound : h.Sound)
include sound

theorem top_extends_nothing (s : String) : ¬ h.Extends h.top s := fun e => by
  have declared := e.declared
  rw [sound.topFree] at declared
  exact Bool.false_ne_true declared

theorem eq_top_of_top_isSubtypeName {n : String} (sub : h.isSubtypeName h.top n = true) :
    n = h.top := by
  obtain same | same | chain := isSubtypeName_iff.mp sub
  · exact same.symm
  · exact same
  · obtain ⟨s, e, _⟩ := TransGen.head'_iff.mp chain
    exact absurd e (sound.top_extends_nothing s)

theorem isSubtypeName_trans {a b c : String} (hab : h.isSubtypeName a b = true)
    (hbc : h.isSubtypeName b c = true) : h.isSubtypeName a c = true := by
  obtain rfl | rfl | chain := isSubtypeName_iff.mp hab
  · exact hbc
  · rw [sound.eq_top_of_top_isSubtypeName hbc]
    exact isSubtypeName_top h a
  · obtain rfl | rfl | chain' := isSubtypeName_iff.mp hbc
    · exact hab
    · exact isSubtypeName_top h a
    · exact isSubtypeName_iff.mpr (.inr (.inr (chain.trans chain')))

theorem isSubtypeName_antisymm {a b : String} (hab : h.isSubtypeName a b = true)
    (hba : h.isSubtypeName b a = true) : a = b := by
  obtain same | rfl | chain := isSubtypeName_iff.mp hab
  · exact same
  · exact sound.eq_top_of_top_isSubtypeName hba
  · obtain same | rfl | chain' := isSubtypeName_iff.mp hba
    · exact same.symm
    · exact (sound.eq_top_of_top_isSubtypeName hab).symm
    · exact absurd (chain.trans chain') ((validate_eq_ok.mp sound.valid).2 a)

end Sound

theorem validateParams_eq_forM (h : Hierarchy) (d : Declaration) (ts : List TypeExpr) :
    h.validateParams d ts = ts.forM (h.validateParam d) := by
  induction ts with
  | nil => rfl
  | cons t ts ih => rw [validateParams, ih, List.forM]

theorem arity_top (h : Hierarchy) : h.arity h.top = .ok 0 := if_pos rfl

theorem arity_of_get? {h : Hierarchy} {name : String} {d : Declaration}
    (found : h.get? name = some d) (other : name ≠ h.top) :
    h.arity name = .ok d.params.length := by
  simp [arity, other, declaration, found, bind, Except.bind, pure, Except.pure]

/-- A supertype of a valid declaration is a declared name, not one of the variables, and takes the
parameters it is given. -/
structure SupertypeOf (h : Hierarchy) (d : Declaration) (as : List Annotation) (name : String)
    (params : List TypeExpr) : Prop where
  notVariable : params = [] → name ∉ d.params
  contained : h.contains name = true
  arity : params = [] ∨ h.arity name = .ok params.length
  params : ∀ p ∈ params, h.validateParam d p = .ok ()

theorem length_eq_expected {h : Hierarchy} (free : h.declares h.top = false) {name : String}
    (contained : h.contains name = true) {count : Nat} :
    count = ((h.get? name).map (·.params.length)).getD 0 ↔ h.arity name = .ok count := by
  by_cases top : name = h.top
  · subst top
    rw [get?_eq_none_iff.mpr free, arity_top, Except.ok.injEq]
    exact eq_comm
  · have declared : h.declares name = true := by simpa [contains, top] using contained
    obtain ⟨d, found⟩ := declares_iff_get?.mp declared
    rw [found, arity_of_get? found top, Except.ok.injEq]
    exact eq_comm

theorem validateSupertype_eq_ok {h : Hierarchy} (free : h.declares h.top = false)
    {d : Declaration} {t : TypeExpr} :
    h.validateSupertype d t = .ok () ↔
      ∃ as name params, t = .named as name params ∧ h.SupertypeOf d as name params := by
  cases t with
  | wildcard as => simp [validateSupertype]
  | union as members => simp [validateSupertype]
  | named as name params =>
      simp only [validateSupertype]
      constructor
      · intro ok
        refine ⟨as, name, params, rfl, ?_⟩
        split at ok
        · simp at ok
        · rename_i notVariable
          split at ok
          · rename_i contained
            split at ok
            · simp at ok
            · rename_i fits
              rw [validateParams_eq_forM, forM_eq_ok] at ok
              refine ⟨fun raw member => notVariable ⟨raw, member⟩, contained, ?_, ok⟩
              refine or_iff_not_imp_left.mpr fun given => ?_
              rw [← length_eq_expected free contained]
              exact not_not.mp fun differ => fits ⟨given, differ⟩
          · simp at ok
      · intro ok
        obtain ⟨as', name', params', same, notVariable, contained, arity, valid⟩ := ok
        cases same
        rw [if_neg fun both => notVariable both.1 both.2, if_pos contained, if_neg]
        · rw [validateParams_eq_forM, forM_eq_ok]
          exact valid
        · intro differ
          exact differ.2 ((length_eq_expected free contained).mpr (arity.resolve_left differ.1))

theorem Sound.supertype {h : Hierarchy} (sound : h.Sound) {n : String} {d : Declaration}
    (found : h.get? n = some d) {t : TypeExpr} (ht : t ∈ d.supertypes) :
    ∃ as name params, t = .named as name params ∧ h.SupertypeOf d as name params :=
  (validateSupertype_eq_ok sound.topFree).mp
    ((validate_eq_ok.mp sound.valid).1 d (mem_of_get? found) t ht)

end Overload.Hierarchy
