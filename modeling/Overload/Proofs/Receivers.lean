import Overload.Proofs.BuildOrder

/-!
The receivers that resolvers agree on. They are compared with those of the first resolver only, by
their number and by looking for each of them among the others. That is equality of sets since no
resolver has a receiver twice.
-/
namespace Overload.Operation

open TypeExpr

/-- The first of the resolvers whose receivers are another set than these, and its place. -/
structure FirstDiffering (receivers : List TypeExpr) (rs : List Resolver) (i : Nat)
    (r : Resolver) : Prop where
  stands : rs[i]? = some r
  differs : ¬ SameTypes receivers r.receivers
  least : ∀ j s, j < i → rs[j]? = some s → SameTypes receivers s.receivers

theorem FirstDiffering.mem {receivers : List TypeExpr} {rs : List Resolver} {i : Nat}
    {r : Resolver} (first : FirstDiffering receivers rs i r) : r ∈ rs :=
  List.mem_of_getElem? first.stands

theorem FirstDiffering.unique {receivers : List TypeExpr} {rs : List Resolver} {i j : Nat}
    {r s : Resolver} (left : FirstDiffering receivers rs i r)
    (right : FirstDiffering receivers rs j s) : i = j ∧ r = s := by
  have place : i = j := by
    rcases Nat.lt_trichotomy i j with before | same | after
    · exact absurd (right.least i r before left.stands) left.differs
    · exact same
    · exact absurd (left.least j s after right.stands) right.differs
  subst place
  exact ⟨rfl, Option.some.inj (left.stands.symm.trans right.stands)⟩

theorem firstDiffering_of_split {receivers : List TypeExpr} {before after : List Resolver}
    {r : Resolver} (agree : ∀ s ∈ before, SameTypes receivers s.receivers)
    (differs : ¬ SameTypes receivers r.receivers) :
    FirstDiffering receivers (before ++ r :: after) before.length r where
  stands := by simp
  differs := differs
  least j s less found := by
    rw [List.getElem?_append_left less] at found
    exact agree s (List.mem_of_getElem? found)

/-- The first resolver itself is not the one that differs from it. -/
theorem FirstDiffering.pos {first : Resolver} {others : List Resolver} {i : Nat} {r : Resolver}
    (differing : FirstDiffering first.receivers (first :: others) i r) : 1 ≤ i := by
  refine Nat.one_le_iff_ne_zero.mpr fun zero => ?_
  have stands := differing.stands
  rw [zero] at stands
  cases stands
  exact differing.differs (.refl _)

section

variable {first : Resolver} {others : List Resolver} (operation : String)

theorem agreeOnReceivers_eq_ok {ts : List TypeExpr} :
    agreeOnReceivers operation (first :: others) = .ok ts ↔
      ts = first.receivers ∧ Agreeing (first :: others) := by
  rw [agreeing_iff]
  obtain ⟨before, r, after, order, agree, differs, fails⟩ | ⟨agree, agreed⟩ :=
    agreeOnReceivers_cases operation first others
  · rw [fails]
    refine iff_of_false (by simp) fun all => differs (all.2 r ?_)
    rw [order]
    exact List.mem_append_right before List.mem_cons_self
  · rw [agreed, Except.ok.injEq, and_iff_left agree]
    exact eq_comm

theorem agreeOnReceivers_eq_error {e : OperationError} :
    agreeOnReceivers operation (first :: others) = .error e ↔
      ∃ i r, FirstDiffering first.receivers (first :: others) i r ∧
        e = .differentReceivers operation first.receivers i r.receivers := by
  obtain ⟨before, r, after, order, agree, differs, fails⟩ | ⟨agree, agreed⟩ :=
    agreeOnReceivers_cases operation first others
  · have here : FirstDiffering first.receivers (first :: others) before.length r :=
      order ▸ firstDiffering_of_split agree differs
    rw [fails, Except.error.injEq]
    constructor
    · rintro rfl
      exact ⟨_, _, here, rfl⟩
    · rintro ⟨i, s, there, rfl⟩
      obtain ⟨rfl, rfl⟩ := here.unique there
      rfl
  · rw [agreed]
    refine iff_of_false (by simp) ?_
    rintro ⟨i, r, differing, -⟩
    exact differing.differs (agree r differing.mem)

end

theorem exists_agreeOnReceivers (operation : String) (rs : List Resolver) :
    (∃ ts, agreeOnReceivers operation rs = .ok ts) ↔ Agreeing rs := by
  cases rs with
  | nil => exact iff_of_true ⟨[], rfl⟩ nofun
  | cons first others =>
      simp only [agreeOnReceivers_eq_ok, exists_eq_left]

/-- Resolvers agree exactly when each has the receivers of every other one, whatever the order and
the annotations in which they were added. The first one's are then the receivers of all; otherwise
the first resolver that differs from it is reported. Which resolver comes first does not decide
whether they agree. -/
theorem agreeOnReceivers_exact (first : Resolver) (others : List Resolver)
    (operation : String) :
    (∀ ts, agreeOnReceivers operation (first :: others) = .ok ts ↔
      ts = first.receivers ∧ ∀ r ∈ first :: others, ∀ s ∈ first :: others,
        SameTypes r.receivers s.receivers) ∧
    (∀ e, agreeOnReceivers operation (first :: others) = .error e ↔
      ∃ i r, 1 ≤ i ∧ FirstDiffering first.receivers (first :: others) i r ∧
        e = .differentReceivers operation first.receivers i r.receivers) ∧
    ∀ rs, rs.Perm (first :: others) → ∀ operation',
      ((∃ ts, agreeOnReceivers operation' rs = .ok ts) ↔
        ∃ ts, agreeOnReceivers operation (first :: others) = .ok ts) := by
  refine ⟨fun ts => agreeOnReceivers_eq_ok operation, fun e => ?_,
    fun rs perm operation' => ?_⟩
  · rw [agreeOnReceivers_eq_error]
    refine exists_congr fun i => exists_congr fun r => ?_
    exact ⟨fun both => ⟨both.1.pos, both⟩, And.right⟩
  · rw [exists_agreeOnReceivers, exists_agreeOnReceivers]
    simp only [Agreeing, perm.mem_iff]

/-- A resolver of `find` with receivers added one by one. -/
def onReceivers (receivers : List TypeExpr) : Resolver :=
  Resolver.withReceivers { name := "find", resultType := .named [] "Int" [] } receivers

def page : TypeExpr := .named [] "Page" []

def site : TypeExpr := .named [] "Site" []

/-- Two resolvers with the same receivers, in another order, with one of them again and another with
an annotation. -/
def onPages : List Resolver :=
  [onReceivers [page, site, page], onReceivers [site, page.annotate [⟨"NonNull", []⟩]]]

/-- A resolver with one receiver more. -/
def onAll : Resolver := onReceivers [page, site, .wildcard []]

theorem agreeOnReceivers_exact_pages :
    agreeOnReceivers "find" onPages = .ok [page, site] ∧
      agreeOnReceivers "find" (onPages ++ [onAll]) =
        .error (.differentReceivers "find" [page, site] 2 [page, site, .wildcard []]) := by
  have agree : ∀ r ∈ onPages, ∀ s ∈ onPages, SameTypes r.receivers s.receivers := by
    unfold SameTypes
    decide
  have differs : ¬ SameTypes [page, site] onAll.receivers := by
    unfold SameTypes
    decide
  have third : FirstDiffering [page, site] (onPages ++ [onAll]) 2 onAll :=
    firstDiffering_of_split (agree _ List.mem_cons_self) differs
  exact ⟨((agreeOnReceivers_exact _ _ "find").1 _).mpr ⟨rfl, agree⟩,
    ((agreeOnReceivers_exact _ _ "find").2.1 _).mpr ⟨2, onAll, by decide, third, rfl⟩⟩

end Overload.Operation
