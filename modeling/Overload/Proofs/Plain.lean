import Overload.Proofs.Lineage

/-!
Annotations have no part in lineages. Deleting them at every level commutes with substitution, so a
search goes through the same names, and fails in the same way, from types that differ in annotations
only, and its entries differ in annotations only.
-/
namespace Overload

namespace TypeExpr

@[simp]
theorem name?_plain (t : TypeExpr) : t.plain.name? = t.name? := by
  cases t <;> rfl

theorem plain_plain (t : TypeExpr) : t.plain.plain = t.plain := by
  induction t using induct with
  | wildcard as => rfl
  | named as name params ih =>
      simp only [plain, plainAll_eq_map, List.map_map]
      exact congrArg (named [] name) (List.map_congr_left ih)
  | union as members ih =>
      simp only [plain, plainAll_eq_map, List.map_map]
      exact congrArg (union []) (List.map_congr_left ih)

theorem map_plain_plain (ts : List TypeExpr) : (ts.map plain).map plain = ts.map plain := by
  rw [List.map_map]
  exact List.map_congr_left fun t _ => plain_plain t

theorem plain_bare (t : TypeExpr) : t.bare.plain = t.plain := by
  cases t <;> rfl

theorem name?_of_plain {a b : TypeExpr} (same : a.plain = b.plain) : a.name? = b.name? := by
  rw [← name?_plain a, same, name?_plain]

@[simp]
theorem erasedName_plain (t : TypeExpr) : t.plain.erasedName = t.erasedName := by
  rw [erasedName, name?_plain, erasedName]

theorem map_erasedName_of_plain {as bs : List TypeExpr} (same : as.map plain = bs.map plain) :
    as.map erasedName = bs.map erasedName := by
  have erased : erasedName ∘ plain = erasedName := funext erasedName_plain
  rw [← erased, ← List.map_map, same, List.map_map]

/-- A variable gives way to its argument with or without annotations on it. -/
theorem plain_substitute (vars : List String) (args : List TypeExpr) (t : TypeExpr) :
    (t.substitute vars args).plain = t.plain.substitute vars (args.map plain) := by
  induction t using induct with
  | wildcard as => rfl
  | union as members ih =>
      simp only [substitute, plain, substituteAll_eq_map, plainAll_eq_map, List.map_map]
      exact congrArg (union []) (List.map_congr_left ih)
  | named as name params ih =>
      obtain free | ⟨rfl, i, index⟩ := stays_or_bound vars name params
      · have free' : params.map plain = [] → name ∉ vars := fun raw =>
          free (List.map_eq_nil_iff.mp raw)
        rw [substitute_named free, plain, plain, plainAll_eq_map, plainAll_eq_map,
          substitute_named free', List.map_map, List.map_map]
        exact congrArg (named [] name) (List.map_congr_left ih)
      · rw [plain, plainAll, substitute_variable index, substitute_variable index,
          List.getElem?_map]
        cases args[i]? <;> rfl

end TypeExpr

open TypeExpr

theorem Declaration.instantiate_plain (d : Declaration) (params : List TypeExpr) :
    d.instantiate (params.map plain) = (d.instantiate params).map (List.map plain) := by
  simp only [instantiate, List.map_eq_nil_iff, List.length_map]
  split
  · simp only [Except.map, List.map_map]
    rfl
  · split <;> rfl

theorem Declaration.plain_supertypesAt (d : Declaration) {args args' : List TypeExpr}
    (same : args.map plain = args'.map plain) :
    (d.supertypesAt args).map plain = (d.supertypesAt args').map plain := by
  simp only [supertypesAt, List.map_map]
  refine List.map_congr_left fun t _ => ?_
  simp only [Function.comp_apply, plain_substitute, same]

namespace Hierarchy

/-- What is left of a queue does not depend on its annotations. -/
theorem dropWhile_plain (h : Hierarchy) (seen : List String) (queue : List TypeExpr) :
    (queue.map plain).dropWhile (h.passesOver seen) =
      (queue.dropWhile (h.passesOver seen)).map plain := by
  have passes : h.passesOver seen ∘ plain = h.passesOver seen := by
    funext t
    rw [Function.comp_apply, passesOver, name?_plain, passesOver]
  rw [List.dropWhile_map, passes]

theorem lineageOf_plain (h : Hierarchy) (rounds : Nat) (seen : List String)
    (queue : List TypeExpr) :
    (h.lineageOf rounds seen (queue.map plain)).map (List.map plain) =
      (h.lineageOf rounds seen queue).map (List.map plain) := by
  induction rounds generalizing seen queue with
  | zero => rfl
  | succ rounds ih =>
      rw [lineageOf, lineageOf, dropWhile_plain]
      cases queue.dropWhile (h.passesOver seen) with
      | nil => rfl
      | cons t waiting =>
          cases t with
          | wildcard as => rfl
          | union as members => rfl
          | named as name params =>
              simp only [List.map_cons, plain, plainAll_eq_map]
              cases h.declaration name with
              | error e => rfl
              | ok d =>
                  simp only [bind, Except.bind, d.instantiate_plain]
                  cases d.instantiate params with
                  | error e => rfl
                  | ok args =>
                      have again :
                          (waiting.map plain ++ d.supertypesAt (args.map plain)).map plain =
                            (waiting ++ d.supertypesAt args).map plain := by
                        simp only [List.map_append, map_plain_plain,
                          d.plain_supertypesAt (map_plain_plain args)]
                      have searched :
                          (h.lineageOf rounds (name :: seen)
                            (waiting.map plain ++ d.supertypesAt (args.map plain))).map
                              (List.map plain) =
                          (h.lineageOf rounds (name :: seen)
                            (waiting ++ d.supertypesAt args)).map (List.map plain) := by
                        rw [← ih, again, ih]
                      refine map_bind_congr searched fun later later' rest => ?_
                      simp only [List.map_cons, plain, plainAll_eq_map, map_plain_plain, rest]

/-- Types that are the same have lineages that are the same, or none for the same reason. -/
theorem lineage_of_plain (h : Hierarchy) {a b : TypeExpr} (same : a.plain = b.plain) :
    (h.lineage a).map (List.map plain) = (h.lineage b).map (List.map plain) := by
  have fronts : [a.bare].map plain = [b.bare].map plain := by
    simp only [List.map_cons, List.map_nil, plain_bare, same]
  rw [lineage, lineage, name?_of_plain same]
  cases b.name? with
  | none => rfl
  | some n =>
      have searched : (h.lineageOf (h.declarations.length + 1) [] [a.bare]).map (List.map plain) =
          (h.lineageOf (h.declarations.length + 1) [] [b.bare]).map (List.map plain) := by
        rw [← lineageOf_plain, fronts, lineageOf_plain]
      refine map_bind_congr searched fun entries entries' rest => ?_
      simp only [List.map_append, rest]

theorem exists_lineage_of_plain {h : Hierarchy} {a b : TypeExpr} (same : a.plain = b.plain)
    {l : List TypeExpr} (climbs : h.lineage a = .ok l) :
    ∃ l', h.lineage b = .ok l' ∧ l.map plain = l'.map plain := by
  have lineages := h.lineage_of_plain same
  rw [climbs] at lineages
  cases result : h.lineage b with
  | error e =>
      rw [result] at lineages
      cases lineages
  | ok l' =>
      rw [result] at lineages
      exact ⟨l', rfl, Except.ok.inj lineages⟩

theorem lineage_fails_of_plain {h : Hierarchy} {a b : TypeExpr} (same : a.plain = b.plain)
    {e : HierarchyError} (fails : h.lineage a = .error e) : h.lineage b = .error e := by
  have lineages := h.lineage_of_plain same
  rw [fails] at lineages
  cases result : h.lineage b with
  | ok l =>
      rw [result] at lineages
      cases lineages
  | error e' =>
      rw [result] at lineages
      exact congrArg Except.error (Except.error.inj lineages).symm

end Hierarchy

end Overload
