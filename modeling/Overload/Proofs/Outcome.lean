import Mathlib.Data.List.Forall2

/-!
Computations that can fail: a sequence of steps succeeds when each step does, and fails with the
error of the first that does not.
-/
namespace Overload

variable {ε α β : Type}

theorem bind_eq_ok {x : Except ε α} {f : α → Except ε β} {b : β} :
    (x >>= f) = .ok b ↔ ∃ a, x = .ok a ∧ f a = .ok b := by
  cases x with
  | error e => simp [bind, Except.bind]
  | ok a => simp [bind, Except.bind]

/-- Two computations with results that look the same still do so after a step that keeps it so. -/
theorem map_bind_congr {γ δ : Type} {x y : Except ε α} {see : α → β} {next next' : α → γ}
    {see' : γ → δ} (same : x.map see = y.map see)
    (step : ∀ a b, see a = see b → see' (next a) = see' (next' b)) :
    (x >>= fun a => .ok (next a)).map see' = (y >>= fun a => .ok (next' a)).map see' := by
  cases x with
  | error e =>
      cases y with
      | error e' =>
          cases same
          rfl
      | ok b => cases same
  | ok a =>
      cases y with
      | error e => cases same
      | ok b => exact congrArg Except.ok (step a b (Except.ok.inj same))

theorem mapError_eq_ok {ε' : Type} {f : ε → ε'} {x : Except ε α} {a : α} :
    x.mapError f = .ok a ↔ x = .ok a := by
  cases x <;> simp [Except.mapError]

theorem mapError_eq_error {ε' : Type} {f : ε → ε'} {x : Except ε α} {e : ε'} :
    x.mapError f = .error e ↔ ∃ cause, x = .error cause ∧ e = f cause := by
  cases x <;> simp [Except.mapError, eq_comm]

theorem mapM_eq_ok {f : α → Except ε β} {xs : List α} {ys : List β} :
    xs.mapM f = .ok ys ↔ List.Forall₂ (fun x y => f x = .ok y) xs ys := by
  induction xs generalizing ys with
  | nil =>
      simp only [List.mapM_nil, List.forall₂_nil_left_iff, pure, Except.pure, Except.ok.injEq]
      exact eq_comm
  | cons x xs ih =>
      simp only [List.mapM_cons, bind_eq_ok, List.forall₂_cons_left_iff, ih, pure, Except.pure,
        Except.ok.injEq]
      constructor
      · intro steps
        obtain ⟨y, hy, zs, hzs, rfl⟩ := steps
        exact ⟨y, zs, hy, hzs, rfl⟩
      · intro steps
        obtain ⟨y, zs, hy, hzs, rfl⟩ := steps
        exact ⟨y, hy, zs, hzs, rfl⟩

theorem mapM_congr {f g : α → Except ε β} {xs : List α}
    (same : ∀ x ∈ xs, f x = g x) : xs.mapM f = xs.mapM g := by
  induction xs with
  | nil => rfl
  | cons x xs ih =>
      obtain ⟨head, rest⟩ := List.forall_mem_cons.mp same
      rw [List.mapM_cons, List.mapM_cons, head, ih rest]

theorem exists_mapM_eq_ok {f : α → Except ε β} {xs : List α}
    (h : ∀ x ∈ xs, ∃ y, f x = .ok y) : ∃ ys, xs.mapM f = .ok ys := by
  induction xs with
  | nil => exact ⟨[], rfl⟩
  | cons x xs ih =>
      obtain ⟨y, hy⟩ := h x List.mem_cons_self
      obtain ⟨ys, hys⟩ := ih fun z hz => h z (List.mem_cons_of_mem x hz)
      exact ⟨y :: ys, mapM_eq_ok.mpr (.cons hy (mapM_eq_ok.mp hys))⟩

theorem exists_foldlM_eq_ok {f : β → α → Except ε β} {xs : List α}
    (h : ∀ x ∈ xs, ∀ b, ∃ c, f b x = .ok c) (b : β) : ∃ c, xs.foldlM f b = .ok c := by
  induction xs generalizing b with
  | nil => exact ⟨b, rfl⟩
  | cons x xs ih =>
      obtain ⟨c, first⟩ := h x List.mem_cons_self b
      obtain ⟨d, rest⟩ := ih (fun y hy => h y (List.mem_cons_of_mem x hy)) c
      exact ⟨d, by rw [List.foldlM_cons, bind_eq_ok]; exact ⟨c, first, rest⟩⟩

theorem exists_of_foldlM_eq_error {f : β → α → Except ε β} {xs : List α} {b : β} {e : ε}
    (fails : xs.foldlM f b = .error e) : ∃ x ∈ xs, ∃ c, f c x = .error e := by
  induction xs generalizing b with
  | nil => cases fails
  | cons x xs ih =>
      rw [List.foldlM_cons] at fails
      cases first : f b x with
      | error e' =>
          rw [first] at fails
          cases fails
          exact ⟨x, List.mem_cons_self, b, first⟩
      | ok c =>
          rw [first] at fails
          obtain ⟨y, hy, d, later⟩ := ih fails
          exact ⟨y, List.mem_cons_of_mem x hy, d, later⟩

theorem forM_eq_ok {f : α → Except ε Unit} {xs : List α} :
    xs.forM f = .ok () ↔ ∀ x ∈ xs, f x = .ok () := by
  induction xs with
  | nil => simp [pure, Except.pure]
  | cons x xs ih =>
      rw [List.forM, bind_eq_ok, List.forall_mem_cons, ih]
      constructor
      · intro steps
        obtain ⟨_, first, rest⟩ := steps
        exact ⟨first, rest⟩
      · intro steps
        exact ⟨(), steps.1, steps.2⟩

theorem bind_eq_error {x : Except ε α} {f : α → Except ε β} {e : ε} :
    (x >>= f) = .error e ↔ x = .error e ∨ ∃ a, x = .ok a ∧ f a = .error e := by
  cases x with
  | error e' => simp [bind, Except.bind]
  | ok a => simp [bind, Except.bind]

/-- The first element on which a computation fails, and its error. -/
def FirstFault (f : α → Except ε β) (xs : List α) (e : ε) : Prop :=
  ∃ before x after, xs = before ++ x :: after ∧ (∀ y ∈ before, ∃ z, f y = .ok z) ∧ f x = .error e

theorem firstFault_nil {f : α → Except ε β} {e : ε} : ¬ FirstFault f [] e := by
  intro fault
  obtain ⟨before, x, after, split, _⟩ := fault
  cases before <;> cases split

theorem firstFault_cons {f : α → Except ε β} {x : α} {xs : List α} {e : ε} :
    FirstFault f (x :: xs) e ↔ f x = .error e ∨ (∃ y, f x = .ok y) ∧ FirstFault f xs e := by
  constructor
  · intro fault
    obtain ⟨before, y, after, split, passed, fails⟩ := fault
    cases before with
    | nil =>
        cases split
        exact .inl fails
    | cons z before =>
        cases split
        obtain ⟨first, passed⟩ := List.forall_mem_cons.mp passed
        exact .inr ⟨first, before, y, after, rfl, passed, fails⟩
  · intro fault
    obtain fails | ⟨first, before, y, after, rfl, passed, fails⟩ := fault
    · exact ⟨[], x, xs, rfl, by simp, fails⟩
    · exact ⟨x :: before, y, after, rfl, List.forall_mem_cons.mpr ⟨first, passed⟩, fails⟩

theorem firstFault_append {f : α → Except ε β} {xs ys : List α} {e : ε} :
    FirstFault f (xs ++ ys) e ↔
      FirstFault f xs e ∨ (∀ x ∈ xs, ∃ y, f x = .ok y) ∧ FirstFault f ys e := by
  induction xs with
  | nil => simp [firstFault_nil]
  | cons x xs ih =>
      rw [List.cons_append, firstFault_cons, firstFault_cons, ih, List.forall_mem_cons, and_or_left,
        and_assoc, or_assoc]

theorem mapM_eq_error {f : α → Except ε β} {xs : List α} {e : ε} :
    xs.mapM f = .error e ↔ FirstFault f xs e := by
  induction xs with
  | nil => simp [pure, Except.pure, firstFault_nil]
  | cons x xs ih =>
      rw [List.mapM_cons, bind_eq_error, firstFault_cons, ← ih]
      simp [bind_eq_error, pure, Except.pure]

theorem exists_unit_eq_ok {x : Except ε Unit} : (∃ u, x = .ok u) ↔ x = .ok () := by
  cases x <;> simp

theorem forM_eq_error {f : α → Except ε Unit} {xs : List α} {e : ε} :
    xs.forM f = .error e ↔
      ∃ before x after, xs = before ++ x :: after ∧ (∀ y ∈ before, f y = .ok ()) ∧
        f x = .error e := by
  have first : xs.forM f = .error e ↔ FirstFault f xs e := by
    induction xs with
    | nil => simp [pure, Except.pure, firstFault_nil]
    | cons x xs ih =>
        rw [List.forM, bind_eq_error, firstFault_cons, ← ih]
        simp
  simpa only [FirstFault, exists_unit_eq_ok] using first

end Overload
