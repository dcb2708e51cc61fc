import Mathlib.Data.List.Nodup
import Overload.Proofs.CheckedJoin
import Overload.Proofs.Grouping

/-!
Extending a hierarchy. Declarations are taken exactly when their names are new, their supertypes are
known types that take the parameters they are given, and no name is below itself. What stands inside
of a supertype need only be known: how many parameters it takes is asked at the root alone.
-/
namespace Overload.Hierarchy

open Relation TypeExpr

theorem contains_eq_false {h : Hierarchy} {name : String} :
    h.contains name = false ↔ name ≠ h.top ∧ name ∉ h.declarations.map Declaration.name := by
  rw [contains, Bool.or_eq_false_iff, beq_eq_false_iff_ne, ← declares_iff_mem, Bool.not_eq_true]

theorem contains_top (h : Hierarchy) : h.contains h.top = true := by simp [contains]

theorem nodup_names (h : Hierarchy) : (h.declarations.map Declaration.name).Nodup :=
  h.ascending.nodup

theorem get?_insert_of_ne {h : Hierarchy} {d : Declaration} {name : String}
    (other : d.name ≠ name) : (h.insert d).get? name = h.get? name :=
  findKey?_insertSorted other h.declarations

theorem contains_insert {h : Hierarchy} {d : Declaration} {name : String}
    (other : d.name ≠ name) : (h.insert d).contains name = h.contains name := by
  rw [contains, contains, declares, declares, get?_insert_of_ne other]
  rfl

theorem contains_insert_self (h : Hierarchy) (d : Declaration) :
    (h.insert d).contains d.name = true := by
  have found : (h.insert d).get? d.name = some d := findKey?_insertSorted_self d h.declarations
  rw [contains, declares, found, Option.isSome_some, Bool.or_true]

theorem top_including (h : Hierarchy) (ds : List Declaration) : (h.including ds).top = h.top := by
  induction ds generalizing h with
  | nil => rfl
  | cons d ds ih => exact ih (h.insert d)

theorem declarations_including (h : Hierarchy) (ds : List Declaration) :
    (h.including ds).declarations =
      ds.foldl (fun table d => insertSorted Declaration.name d table) h.declarations := by
  induction ds generalizing h with
  | nil => rfl
  | cons d ds ih => exact ih (h.insert d)

/-- No two declarations have one name, and none has the name of a type that is there already. -/
structure NewNames (base : Hierarchy) (ds : List Declaration) : Prop where
  undeclared : ∀ d ∈ ds, base.contains d.name = false
  distinct : (ds.map Declaration.name).Nodup

theorem newNames_cons {base : Hierarchy} {d : Declaration} {ds : List Declaration} :
    NewNames base (d :: ds) ↔ base.contains d.name = false ∧ NewNames (base.insert d) ds := by
  constructor
  · intro names
    obtain ⟨fresh, distinct⟩ := List.nodup_cons.mp names.distinct
    obtain ⟨new, others⟩ := List.forall_mem_cons.mp names.undeclared
    refine ⟨new, fun e he => ?_, distinct⟩
    rw [contains_insert fun same => fresh (same ▸ List.mem_map_of_mem he)]
    exact others e he
  · intro both
    obtain ⟨new, names⟩ := both
    have other : ∀ e ∈ ds, d.name ≠ e.name := by
      intro e he same
      have absent := names.undeclared e he
      rw [← same, contains_insert_self] at absent
      cases absent
    refine ⟨List.forall_mem_cons.mpr ⟨new, fun e he => ?_⟩,
      List.nodup_cons.mpr ⟨fun again => ?_, names.distinct⟩⟩
    · rw [← contains_insert (other e he)]
      exact names.undeclared e he
    · obtain ⟨e, he, same⟩ := List.mem_map.mp again
      exact other e he same.symm

theorem declare_eq_ok {h h' : Hierarchy} {d : Declaration} :
    h.declare d = .ok h' ↔ h.contains d.name = false ∧ h.insert d = h' := by
  rw [declare]
  cases h.contains d.name <;> simp

theorem declared_eq_ok {base h : Hierarchy} {ds : List Declaration} :
    ds.foldlM declare base = .ok h ↔ NewNames base ds ∧ base.including ds = h := by
  induction ds generalizing base with
  | nil =>
      refine ⟨fun ok => ⟨⟨nofun, List.nodup_nil⟩, Except.ok.inj ok⟩, fun both => ?_⟩
      exact congrArg Except.ok both.2
  | cons d ds ih =>
      rw [List.foldlM_cons, bind_eq_ok, newNames_cons, and_assoc]
      constructor
      · intro ok
        obtain ⟨next, first, rest⟩ := ok
        obtain ⟨new, rfl⟩ := declare_eq_ok.mp first
        exact ⟨new, ih.mp rest⟩
      · intro all
        exact ⟨base.insert d, declare_eq_ok.mpr ⟨all.1, rfl⟩, ih.mpr all.2⟩

/-- The declarations are those of another hierarchy and further ones. -/
structure Adds (base : Hierarchy) (ds : List Declaration) (h : Hierarchy) : Prop where
  top : h.top = base.top
  perm : h.declarations.Perm (base.declarations ++ ds)

theorem Adds.unique {base h h' : Hierarchy} {ds : List Declaration} (adds : Adds base ds h)
    (adds' : Adds base ds h') : h = h' :=
  Hierarchy.ext (adds.top.trans adds'.top.symm)
    (h.ascending.eq_of_perm h'.ascending (adds.perm.trans adds'.perm.symm))

namespace NewNames

variable {base : Hierarchy} {ds : List Declaration} (names : NewNames base ds)
include names

theorem get?_including {name : String} (known : base.contains name = true) :
    (base.including ds).get? name = base.get? name := by
  induction ds generalizing base with
  | nil => rfl
  | cons d ds ih =>
      obtain ⟨new, rest⟩ := newNames_cons.mp names
      have other : d.name ≠ name := by
        rintro rfl
        rw [new] at known
        cases known
      refine (ih rest ?_).trans (get?_insert_of_ne other)
      rwa [contains_insert other]

theorem adds : Adds base ds (base.including ds) := by
  refine ⟨top_including base ds, ?_⟩
  rw [declarations_including]
  refine foldl_insertSorted_perm ?_
  rw [List.map_append, List.nodup_append']
  refine ⟨base.nodup_names, names.distinct, fun n old added => ?_⟩
  obtain ⟨d, hd, rfl⟩ := List.mem_map.mp added
  exact (contains_eq_false.mp (names.undeclared d hd)).2 old

theorem declares_top : (base.including ds).declares base.top = base.declares base.top := by
  rw [declares, names.get?_including base.contains_top, declares]

end NewNames

theorem extend_eq_ok {base h : Hierarchy} {ds : List Declaration} :
    base.extend ds = .ok h ↔ ds.foldlM declare base = .ok h ∧ h.validate = .ok () := by
  rw [extend, bind_eq_ok]
  constructor
  · intro ok
    obtain ⟨whole, added, rest⟩ := ok
    obtain ⟨_, valid, same⟩ := bind_eq_ok.mp rest
    cases same
    exact ⟨added, valid⟩
  · intro ok
    exact ⟨h, ok.1, by rw [ok.2]; rfl⟩

/-- A variable of the declaration, which takes no parameters. -/
def IsVariable (d : Declaration) : TypeExpr → Prop
  | .named _ name params => params = [] ∧ name ∈ d.params
  | _ => False

/-- An open parameter, or a name that is the top type's or declared. A union is not known. -/
def Known (h : Hierarchy) : TypeExpr → Prop
  | .named _ name _ => h.contains name = true
  | .wildcard _ => True
  | .union _ _ => False

/-- What a declaration can extend: a known nominal type that takes the parameters it is given, with
variables of the declaration and known types inside of it. -/
structure Extendable (h : Hierarchy) (d : Declaration) (t : TypeExpr) : Prop where
  nominal : ∃ name, t.name? = some name
  notVariable : ¬ IsVariable d t
  known : h.Known t
  fits : h.Fits t
  inside : ∀ p ∈ t.params, ∀ u ∈ p.nodes, IsVariable d u ∨ h.Known u

theorem validateParam_eq_ok {h : Hierarchy} {d : Declaration} {t : TypeExpr} :
    h.validateParam d t = .ok () ↔ ∀ u ∈ t.nodes, IsVariable d u ∨ h.Known u := by
  induction t using induct with
  | wildcard as => simp [validateParam, nodes, Known]
  | union as members ih => simp [validateParam, nodes, IsVariable, Known]
  | named as name params ih =>
      have below : h.validateParams d params = .ok () ↔
          ∀ u ∈ nodesAll params, IsVariable d u ∨ h.Known u := by
        rw [validateParams_eq_forM, forM_eq_ok, forall₂_congr ih]
        constructor
        · intro each u hu
          obtain ⟨p, hp, hu⟩ := mem_nodesAll.mp hu
          exact each p hp u hu
        · intro each p hp u hu
          exact each u (mem_nodesAll.mpr ⟨p, hp, hu⟩)
      rw [validateParam, nodes, List.forall_mem_cons, ← below]
      split
      · rename_i bound
        refine iff_of_true rfl ⟨.inl bound, ?_⟩
        rw [bound.1]
        rfl
      · rename_i free
        have self : IsVariable d (.named as name params) ∨ h.Known (.named as name params) ↔
            h.contains name = true := or_iff_right free
        rw [self]
        split
        · rename_i contained
          exact (and_iff_right contained).symm
        · rename_i unknown
          exact iff_of_false (by simp) fun both => unknown both.1

theorem validateSupertype_iff {h : Hierarchy} (free : h.declares h.top = false) {d : Declaration}
    {t : TypeExpr} : h.validateSupertype d t = .ok () ↔ h.Extendable d t := by
  rw [validateSupertype_eq_ok free]
  constructor
  · intro ok
    obtain ⟨as, name, params, rfl, notVariable, contained, arity, valid⟩ := ok
    exact ⟨⟨name, rfl⟩, fun both => notVariable both.1 both.2, contained, arity,
      fun p hp => validateParam_eq_ok.mp (valid p hp)⟩
  · intro ok
    obtain ⟨⟨n, nominal⟩, notVariable, known, fits, inside⟩ := ok
    cases t with
    | wildcard as => simp [name?] at nominal
    | union as members => simp [name?] at nominal
    | named as name params =>
        exact ⟨as, name, params, rfl, fun raw member => notVariable ⟨raw, member⟩, known, fits,
          fun p hp => validateParam_eq_ok.mpr (inside p hp)⟩

theorem Known.including {base : Hierarchy} {ds : List Declaration} (names : NewNames base ds)
    {t : TypeExpr} (known : base.Known t) : (base.including ds).Known t := by
  cases t with
  | wildcard as => trivial
  | union as members => exact known
  | named as name params =>
      rw [Known, contains, declares, names.get?_including known, top_including]
      exact known

theorem Fits.including {base : Hierarchy} {ds : List Declaration} (names : NewNames base ds)
    {t : TypeExpr} (known : base.Known t) (fits : base.Fits t) : (base.including ds).Fits t := by
  cases t with
  | wildcard as => trivial
  | union as members => trivial
  | named as name params =>
      rw [Fits, arity, declaration, names.get?_including known, top_including]
      exact fits

theorem Extendable.including {base : Hierarchy} {ds : List Declaration}
    (names : NewNames base ds) {d : Declaration} {t : TypeExpr} (ok : base.Extendable d t) :
    (base.including ds).Extendable d t where
  nominal := ok.nominal
  notVariable := ok.notVariable
  known := ok.known.including names
  fits := ok.fits.including names ok.known
  inside p hp u hu := (ok.inside p hp u hu).imp_right (·.including names)

/-- Declarations with new names, with supertypes that can be extended, and without cycles. -/
structure Declarable (base : Hierarchy) (ds : List Declaration) : Prop where
  names : NewNames base ds
  supertypes : ∀ h, Adds base ds h → ∀ d ∈ ds, ∀ t ∈ d.supertypes, h.Extendable d t
  acyclic : ∀ h, Adds base ds h → ∀ n, ¬ TransGen h.Extends n n

theorem NewNames.declarable_iff {base : Hierarchy} {ds : List Declaration}
    (names : NewNames base ds) : Declarable base ds ↔
      (∀ d ∈ ds, ∀ t ∈ d.supertypes, (base.including ds).Extendable d t) ∧
        ∀ n, ¬ TransGen (base.including ds).Extends n n := by
  constructor
  · intro ok
    exact ⟨ok.supertypes _ names.adds, ok.acyclic _ names.adds⟩
  · intro both
    refine ⟨names, fun h adds => ?_, fun h adds => ?_⟩
    · rw [adds.unique names.adds]
      exact both.1
    · rw [adds.unique names.adds]
      exact both.2

theorem adds_of_extend {base h : Hierarchy} {ds : List Declaration}
    (ok : base.extend ds = .ok h) : Adds base ds h := by
  obtain ⟨names, rfl⟩ := declared_eq_ok.mp (extend_eq_ok.mp ok).1
  exact names.adds

theorem NewNames.validate_including {base : Hierarchy} {ds : List Declaration}
    (names : NewNames base ds) (sound : base.Sound) :
    (base.including ds).validate = .ok () ↔ Declarable base ds := by
  have topFree : (base.including ds).declares (base.including ds).top = false := by
    rw [top_including, names.declares_top]
    exact sound.topFree
  have old : ∀ d ∈ base.declarations, ∀ t ∈ d.supertypes,
      (base.including ds).Extendable d t := fun d hd t ht =>
    ((validateSupertype_iff sound.topFree).mp
      ((validate_eq_ok.mp sound.valid).1 d hd t ht)).including names
  rw [validate_eq_ok, names.declarable_iff]
  refine and_congr_left fun _ => ⟨fun each d hd t ht => ?_, fun new d hd t ht => ?_⟩
  · have added := names.adds.perm.mem_iff.mpr (List.mem_append_right _ hd)
    exact (validateSupertype_iff topFree).mp (each d added t ht)
  · have either := List.mem_append.mp (names.adds.perm.mem_iff.mp hd)
    exact (validateSupertype_iff topFree).mpr
      (either.elim (fun there => old d there t ht) (fun added => new d added t ht))

theorem Sound.exists_extend {base : Hierarchy} (sound : base.Sound) (ds : List Declaration) :
    (∃ h, base.extend ds = .ok h) ↔ Declarable base ds := by
  constructor
  · intro ok
    obtain ⟨h, ok⟩ := ok
    obtain ⟨added, valid⟩ := extend_eq_ok.mp ok
    obtain ⟨names, rfl⟩ := declared_eq_ok.mp added
    exact (names.validate_including sound).mp valid
  · intro ok
    have valid := (ok.names.validate_including sound).mpr ok
    exact ⟨base.including ds, extend_eq_ok.mpr ⟨declared_eq_ok.mpr ⟨ok.names, rfl⟩, valid⟩⟩

/-- A hierarchy to start from: one without declarations, or the builtin one. -/
inductive Initial : Hierarchy → Prop
  | empty (top : String) : Initial { top }
  | builtin : Initial builtin

theorem Initial.sound {base : Hierarchy} (initial : base.Initial) : base.Sound := by
  cases initial with
  | empty top => exact ⟨rfl, rfl⟩
  | builtin => exact builtin_sound

/-- A hierarchy takes the declarations that it can be extended by, and has no others then. -/
theorem extend_accepts_iff {base : Hierarchy} (initial : base.Initial) (ds : List Declaration) :
    ((∃ h, base.extend ds = .ok h) ↔ Declarable base ds) ∧
      ∀ h, base.extend ds = .ok h → Adds base ds h :=
  ⟨initial.sound.exists_extend ds, fun _ ok => adds_of_extend ok⟩

def accepts (base : Hierarchy) (ds : List Declaration) : Bool :=
  match base.extend ds with
  | .ok _ => true
  | .error _ => false

theorem exists_extend_of_accepts {base : Hierarchy} {ds : List Declaration}
    (ok : base.accepts ds = true) : ∃ h, base.extend ds = .ok h := by
  unfold accepts at ok
  split at ok
  · rename_i h found
    exact ⟨h, found⟩
  · simp at ok

/-- Pages are lists, and pages of a kind are pages. -/
def pages : List Declaration :=
  [collection "Page" ["List"] ["Serializable"], collection "SortedPage" ["Page", "Iterable"] []]

theorem extend_accepts_pages : builtin.Initial ∧ Declarable builtin pages ∧
    ∃ h, builtin.extend pages = .ok h ∧ Adds builtin pages h := by
  have ok : ∃ h, builtin.extend pages = .ok h := exists_extend_of_accepts (by decide +kernel)
  obtain ⟨accepts, adds⟩ := extend_accepts_iff .builtin pages
  obtain ⟨h, extended⟩ := ok
  exact ⟨.builtin, accepts.mp ⟨h, extended⟩, h, extended, adds h extended⟩

/-- A box of maps, where the maps have one parameter and should have two. -/
def boxOfMaps : Declaration :=
  { name := "Box", params := ["T"]
    supertypes := [.named [] "List" [.named [] "Map" [.named [] "T" []]]] }

/-- It is not so that the names inside of a supertype must take the parameters they are given. -/
theorem not_extend_iff_fits_inside :
    ¬ ∀ (base : Hierarchy) (ds : List Declaration), base.Initial →
      ((∃ h, base.extend ds = .ok h) ↔ Declarable base ds ∧
        ∀ h, Adds base ds h → ∀ d ∈ ds, ∀ t ∈ d.supertypes, ∀ p ∈ t.params, ∀ u ∈ p.nodes,
          h.Fits u) := by
  intro every
  have ok : ∃ h, builtin.extend [boxOfMaps] = .ok h := exists_extend_of_accepts (by decide +kernel)
  obtain ⟨declarable, fits⟩ := (every builtin [boxOfMaps] .builtin).mp ok
  exact absurd (fits _ declarable.names.adds) (by decide +kernel)

end Overload.Hierarchy
