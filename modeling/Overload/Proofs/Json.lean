import Overload.Json.Basic

/-!
Equality of JSON values. Two values are equal when they have one plain form, in which every zero is
the positive one; so equality is an equivalence.
-/
namespace Overload

/-- The number, with the positive zero for both zeros. -/
def Binary64.plain (x : Binary64) : Binary64 :=
  if x.significand = 0 then zero false else x

theorem Binary64.beq_iff {x y : Binary64} : (x == y) = true ↔ x.plain = y.plain := by
  have unfolded : (x == y) = true ↔ (x.significand = 0 ∧ y.significand = 0) ∨ x = y := by
    simp [BEq.beq]
  rw [unfolded, plain, plain]
  by_cases hx : x.significand = 0 <;> by_cases hy : y.significand = 0
  · simp [hx, hy]
  · rw [if_pos hx, if_neg hy]
    constructor
    · intro same
      obtain same | rfl := same
      · exact absurd same.2 hy
      · exact absurd hx hy
    · intro same
      exact absurd (same ▸ rfl) hy
  · rw [if_neg hx, if_pos hy]
    constructor
    · intro same
      obtain same | rfl := same
      · exact absurd same.1 hx
      · exact absurd hy hx
    · intro same
      exact absurd (same ▸ rfl) hx
  · simp [hx, hy]

namespace Json

/-- Induction on a value, with the hypothesis for each item and each member. -/
@[elab_as_elim]
theorem induct {motive : Json → Prop} (null : motive .null) (bool : ∀ b, motive (.bool b))
    (integer : ∀ n, motive (.integer n)) (real : ∀ x, motive (.real x))
    (string : ∀ s, motive (.string s))
    (array : ∀ items, (∀ v ∈ items, motive v) → motive (.array items))
    (object : ∀ members, (∀ m ∈ members, motive m.2) → motive (.object members)) (v : Json) :
    motive v :=
  @Json.rec motive (fun items => ∀ v ∈ items, motive v) (fun members => ∀ m ∈ members, motive m.2)
    (fun m => motive m.2) null bool integer real string array object
    (fun _ h => absurd h List.not_mem_nil)
    (fun _ _ head tail u hu => (List.mem_cons.mp hu).elim (fun h => h ▸ head) (tail u))
    (fun _ h => absurd h List.not_mem_nil)
    (fun _ _ head tail u hu => (List.mem_cons.mp hu).elim (fun h => h ▸ head) (tail u))
    (fun _ _ head => head) v

mutual

/-- The value with plain numbers. -/
def plain : Json → Json
  | .real x => .real x.plain
  | .array items => .array (plainItems items)
  | .object members => .object (plainMembers members)
  | v => v

def plainItems : List Json → List Json
  | [] => []
  | v :: items => plain v :: plainItems items

def plainMembers : List (String × Json) → List (String × Json)
  | [] => []
  | (key, v) :: members => (key, plain v) :: plainMembers members

end

theorem sameItems_iff {as : List Json}
    (each : ∀ a ∈ as, ∀ b, same a b = true ↔ a.plain = b.plain) (bs : List Json) :
    sameItems as bs = true ↔ plainItems as = plainItems bs := by
  induction as generalizing bs with
  | nil => cases bs <;> simp [sameItems, plainItems]
  | cons a as ih =>
      cases bs with
      | nil => simp [sameItems, plainItems]
      | cons b bs =>
          obtain ⟨head, rest⟩ := List.forall_mem_cons.mp each
          simp only [sameItems, plainItems, Bool.and_eq_true, head b, ih rest bs, List.cons.injEq]

theorem sameMembers_iff_of {as : List (String × Json)}
    (each : ∀ a ∈ as, ∀ b, same a.2 b = true ↔ a.2.plain = b.plain)
    (bs : List (String × Json)) :
    sameMembers as bs = true ↔ plainMembers as = plainMembers bs := by
  induction as generalizing bs with
  | nil => cases bs <;> simp [sameMembers, plainMembers]
  | cons a as ih =>
      cases bs with
      | nil => simp [sameMembers, plainMembers]
      | cons b bs =>
          obtain ⟨head, rest⟩ := List.forall_mem_cons.mp each
          simp only [sameMembers, plainMembers, Bool.and_eq_true, beq_iff_eq, head b.2,
            ih rest bs, List.cons.injEq, Prod.mk.injEq]

theorem same_iff {a b : Json} : same a b = true ↔ a.plain = b.plain := by
  induction a using induct generalizing b with
  | null => cases b <;> simp [same, plain]
  | bool x => cases b <;> simp [same, plain]
  | integer n => cases b <;> simp [same, plain]
  | real x => cases b <;> simp [same, plain, Binary64.beq_iff]
  | string s => cases b <;> simp [same, plain]
  | array items ih => cases b <;> simp [same, plain, sameItems_iff fun v hv b => ih v hv]
  | object members ih => cases b <;> simp [same, plain, sameMembers_iff_of fun m hm b => ih m hm]

theorem sameMembers_iff {as bs : List (String × Json)} :
    sameMembers as bs = true ↔ plainMembers as = plainMembers bs :=
  sameMembers_iff_of (fun _ _ _ => same_iff) bs

end Json

end Overload
