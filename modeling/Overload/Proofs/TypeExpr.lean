import Mathlib.Data.List.Forall2
import Overload.Hierarchy.Join

/-!
Type expressions by induction on their nodes. The functions on lists of types apply those on types
to each member, and two expressions are the same type when they have one plain form.
-/
namespace Overload.TypeExpr

/-- Induction on a type, with the hypothesis for each parameter of a name and each member of a
union. -/
@[elab_as_elim]
theorem induct {motive : TypeExpr → Prop}
    (named : ∀ as name params, (∀ p ∈ params, motive p) → motive (.named as name params))
    (wildcard : ∀ as, motive (.wildcard as))
    (union : ∀ as members, (∀ m ∈ members, motive m) → motive (.union as members))
    (t : TypeExpr) : motive t :=
  @TypeExpr.rec motive (fun ts => ∀ t ∈ ts, motive t)
    named wildcard union (fun _ h => absurd h List.not_mem_nil)
    (fun _ _ head tail u hu => (List.mem_cons.mp hu).elim (fun h => h ▸ head) (tail u)) t

mutual

/-- The type and all types inside it. -/
def nodes : TypeExpr → List TypeExpr
  | named as name params => named as name params :: nodesAll params
  | wildcard as => [wildcard as]
  | union as members => union as members :: nodesAll members

def nodesAll : List TypeExpr → List TypeExpr
  | [] => []
  | t :: ts => nodes t ++ nodesAll ts

end

theorem mem_nodesAll {u : TypeExpr} {ts : List TypeExpr} :
    u ∈ nodesAll ts ↔ ∃ t ∈ ts, u ∈ nodes t := by
  induction ts with
  | nil => simp [nodesAll]
  | cons t ts ih => simp [nodesAll, ih]

theorem mem_nodes_self (t : TypeExpr) : t ∈ t.nodes := by
  cases t <;> simp [nodes]

/-- The types right below a type. -/
def children : TypeExpr → List TypeExpr
  | named _ _ params => params
  | wildcard _ => []
  | union _ members => members

theorem mem_children_of_mem_params {p t : TypeExpr} (hp : p ∈ t.params) : p ∈ t.children := by
  cases t with
  | named as name params => exact hp
  | wildcard as => exact absurd hp List.not_mem_nil
  | union as members => exact absurd hp List.not_mem_nil

theorem eq_or_mem_children {t u : TypeExpr} (h : u ∈ t.alternatives) : u = t ∨ u ∈ t.children := by
  cases t with
  | named as name params => exact .inl (List.mem_singleton.mp h)
  | wildcard as => exact .inl (List.mem_singleton.mp h)
  | union as members => exact .inr h

theorem forall_nodes {P : TypeExpr → Prop} {t : TypeExpr} :
    (∀ u ∈ t.nodes, P u) ↔ P t ∧ ∀ c ∈ t.children, ∀ u ∈ c.nodes, P u := by
  cases t with
  | wildcard => simp [nodes, children]
  | named as n params =>
      simp only [nodes, children, List.forall_mem_cons, mem_nodesAll]
      exact and_congr_right fun _ => ⟨fun h c hc u hu => h u ⟨c, hc, hu⟩,
        fun h u hu => hu.elim fun c hc => h c hc.1 u hc.2⟩
  | union as members =>
      simp only [nodes, children, List.forall_mem_cons, mem_nodesAll]
      exact and_congr_right fun _ => ⟨fun h c hc u hu => h u ⟨c, hc, hu⟩,
        fun h u hu => hu.elim fun c hc => h c hc.1 u hc.2⟩

@[simp]
theorem children_setAnnotations (as : List Annotation) (t : TypeExpr) :
    (t.setAnnotations as).children = t.children := by
  cases t <;> rfl

theorem isUnion_setAnnotations (as : List Annotation) (t : TypeExpr) :
    (t.setAnnotations as).isUnion = t.isUnion := by
  cases t <;> rfl

theorem name?_setAnnotations (as : List Annotation) (t : TypeExpr) :
    (t.setAnnotations as).name? = t.name? := by
  cases t <;> rfl

/-- The argument for a variable is one of those given, or an open parameter. -/
theorem argument_of_forall {P : TypeExpr → Prop} (opened : P (wildcard [])) {args : List TypeExpr}
    (given : ∀ a ∈ args, P a) (i : Nat) : P (args[i]?.getD (wildcard [])) := by
  cases found : args[i]? with
  | none => exact opened
  | some a => exact given a (List.mem_of_getElem? found)

mutual

/-- The type without annotations at any level. -/
def plain : TypeExpr → TypeExpr
  | named _ name params => named [] name (plainAll params)
  | wildcard _ => wildcard []
  | union _ members => union [] (plainAll members)

def plainAll : List TypeExpr → List TypeExpr
  | [] => []
  | t :: ts => plain t :: plainAll ts

end

theorem plainAll_eq_map (ts : List TypeExpr) : plainAll ts = ts.map plain := by
  induction ts with
  | nil => rfl
  | cons t ts ih => simp only [plainAll, ih, List.map_cons]

theorem params_plain (t : TypeExpr) : t.plain.params = t.params.map plain := by
  cases t <;> simp [plain, params, plainAll_eq_map]

private theorem sameTypes_iff_map {ps : List TypeExpr}
    (h : ∀ p ∈ ps, ∀ q, p.sameType q = true ↔ p.plain = q.plain) (qs : List TypeExpr) :
    sameTypes ps qs = true ↔ ps.map plain = qs.map plain := by
  induction ps generalizing qs with
  | nil => cases qs <;> simp [sameTypes]
  | cons p ps ih =>
      cases qs with
      | nil => simp [sameTypes]
      | cons q qs =>
          have head := h p List.mem_cons_self q
          have tail := ih (fun r hr => h r (List.mem_cons_of_mem p hr)) qs
          simp only [sameTypes, Bool.and_eq_true, head, tail, List.map_cons, List.cons.injEq]

theorem sameType_iff {a b : TypeExpr} : a.sameType b = true ↔ a.plain = b.plain := by
  induction a using induct generalizing b with
  | named as name params ih =>
      cases b <;>
        simp [sameType, plain, plainAll_eq_map, sameTypes_iff_map ih]
  | wildcard as => cases b <;> simp [sameType, plain]
  | union as members ih =>
      cases b <;>
        simp [sameType, plain, plainAll_eq_map, sameTypes_iff_map ih]

@[simp]
theorem sameType_refl (a : TypeExpr) : a.sameType a = true :=
  sameType_iff.mpr rfl

theorem sameType_comm (a b : TypeExpr) : a.sameType b = b.sameType a := by
  rw [Bool.eq_iff_iff, sameType_iff, sameType_iff]
  exact eq_comm

theorem sameType_trans {a b c : TypeExpr} (hab : a.sameType b = true)
    (hbc : b.sameType c = true) : a.sameType c = true :=
  sameType_iff.mpr ((sameType_iff.mp hab).trans (sameType_iff.mp hbc))

theorem sameType_bare (a t : TypeExpr) : a.sameType t.bare = a.sameType t := by
  rw [Bool.eq_iff_iff, sameType_iff, sameType_iff]
  cases t <;> simp [bare, setAnnotations, plain]

theorem name?_of_sameType {a b : TypeExpr} (h : a.sameType b = true) : a.name? = b.name? := by
  cases a <;> cases b <;> simp_all [sameType, name?]

theorem isWildcard_of_sameType {a b : TypeExpr} (h : a.sameType b = true) :
    a.isWildcard = b.isWildcard := by
  cases a <;> cases b <;> simp_all [sameType, isWildcard]

@[simp]
theorem annotations_setAnnotations (as : List Annotation) (t : TypeExpr) :
    (t.setAnnotations as).annotations = as := by
  cases t <;> rfl

@[simp]
theorem name?_bare (t : TypeExpr) : t.bare.name? = t.name? := by cases t <;> rfl

theorem bare_annotate (t : TypeExpr) (as : List Annotation) : (t.annotate as).bare = t.bare := by
  cases t <;> rfl

theorem bare_of_plain {t : TypeExpr} (plain : t.annotations = []) : t.bare = t := by
  cases t <;> cases plain <;> rfl

theorem exists_eq_named {t : TypeExpr} {n : String} (named : t.name? = some n) :
    ∃ as params, t = .named as n params := by
  cases t with
  | named as name params =>
      cases named
      exact ⟨as, params, rfl⟩
  | wildcard as => cases named
  | union as members => cases named

theorem flattenAll_eq_flatMap (ts : List TypeExpr) : flattenAll ts = ts.flatMap flatten := by
  induction ts with
  | nil => rfl
  | cons t ts ih => simp only [flattenAll, ih, List.flatMap_cons]

theorem flattenAll_append (ts us : List TypeExpr) :
    flattenAll (ts ++ us) = flattenAll ts ++ flattenAll us := by
  simp only [flattenAll_eq_flatMap, List.flatMap_append]

theorem flattenAll_perm {ts us : List TypeExpr} (perm : ts.Perm us) :
    (flattenAll ts).Perm (flattenAll us) := by
  rw [flattenAll_eq_flatMap, flattenAll_eq_flatMap]
  exact perm.flatMap_right _

theorem flatten_single {t : TypeExpr} (single : t.isUnion = false) : flatten t = [t.bare] := by
  cases t with
  | named as name params => rfl
  | wildcard as => rfl
  | union as members => cases single

theorem mem_flattenAll {t : TypeExpr} {ts : List TypeExpr} :
    t ∈ flattenAll ts ↔ ∃ u ∈ ts, t ∈ flatten u := by
  rw [flattenAll_eq_flatMap, List.mem_flatMap]

theorem mem_flattenAll_of_mem {t u : TypeExpr} {ts : List TypeExpr} (hu : u ∈ ts)
    (ht : t ∈ flatten u) : t ∈ flattenAll ts :=
  mem_flattenAll.mpr ⟨u, hu, ht⟩

/-- What passes from a type to its bare form and to its children passes to all that it is flattened
to. -/
theorem forall_flattenAll {P : TypeExpr → Prop} (bare : ∀ t, P t → P t.bare)
    (below : ∀ t, P t → ∀ c ∈ t.children, P c) {ts : List TypeExpr} (each : ∀ t ∈ ts, P t) :
    ∀ t ∈ flattenAll ts, P t := by
  have flat (u : TypeExpr) (start : P u) : ∀ t ∈ flatten u, P t := by
    induction u using induct with
    | named as name params _ => exact List.forall_mem_singleton.mpr (bare _ start)
    | wildcard as => exact List.forall_mem_singleton.mpr (bare _ start)
    | union as members ih =>
        intro t ht
        obtain ⟨m, hm, ht⟩ := mem_flattenAll.mp ht
        exact ih m hm (below _ start m hm) t ht
  intro t ht
  obtain ⟨u, hu, ht⟩ := mem_flattenAll.mp ht
  exact flat u (each u hu) t ht

/-- What is left after flattening are names and open parameters without annotations. -/
theorem flatten_normal {t u : TypeExpr} (h : t ∈ flatten u) :
    t.isUnion = false ∧ t.annotations = [] := by
  induction u using induct with
  | named as name params _ =>
      simp only [flatten, List.mem_singleton] at h
      subst h
      exact ⟨rfl, rfl⟩
  | wildcard as =>
      simp only [flatten, List.mem_singleton] at h
      subst h
      exact ⟨rfl, rfl⟩
  | union as members ih =>
      obtain ⟨m, hm, ht⟩ := mem_flattenAll.mp h
      exact ih m hm ht

theorem exists_name_of_flattenAll {t : TypeExpr} {ts : List TypeExpr} (h : t ∈ flattenAll ts)
    (closed : t.isWildcard = false) : ∃ n, t.name? = some n := by
  obtain ⟨u, _, ht⟩ := mem_flattenAll.mp h
  have single := (flatten_normal ht).1
  cases t with
  | named as name params => exact ⟨name, rfl⟩
  | wildcard as => simp [isWildcard] at closed
  | union as members => simp [isUnion] at single

theorem agreed?_eq_some {ts : List TypeExpr} {t : TypeExpr} :
    agreed? ts = some t ↔ ts.head? = some t ∧ ∀ u ∈ ts, t.sameType u = true := by
  cases ts with
  | nil => simp [agreed?]
  | cons first rest =>
      have all : rest.all (·.sameType first) = true ↔
          ∀ u ∈ first :: rest, first.sameType u = true := by
        simp only [List.all_eq_true, List.forall_mem_cons, sameType_refl, true_and,
          sameType_comm first]
      simp only [agreed?, List.head?_cons, Option.some.injEq, Option.ite_none_right_eq_some, all]
      constructor
      · intro agree
        obtain ⟨h, rfl⟩ := agree
        exact ⟨rfl, h⟩
      · intro agree
        obtain ⟨rfl, h⟩ := agree
        exact ⟨h, rfl⟩

end Overload.TypeExpr
