import Overload.Json.Printer
import Overload.Proofs.JsonText
import Overload.Proofs.Shortest

/-!
Printing numbers: the text of an integer reads as that integer, and the text of a real has the value
of its shortest decimal, so it reads as that real.
-/
namespace Overload.Json

theorem natDigits_digits (n : Nat) : Digits (natDigits n) :=
  ⟨List.ne_nil_of_length_pos Nat.length_toDigits_pos,
    fun _ hc => Nat.isDigit_of_mem_toDigits (by decide) (by decide) hc⟩

theorem natOfDigits_natDigits (n : Nat) : natOfDigits (natDigits n) = n :=
  Nat.ofDigitChars_toDigits (by decide) (by decide)

/-- Only zero is written with a zero in front. -/
theorem natDigits_front {n : Nat} (positive : 0 < n) : ∀ c ∈ (natDigits n).head?, c ≠ '0' := by
  induction n using Nat.strongRecOn with
  | ind n ih =>
      intro c hc
      rcases Nat.lt_or_ge n 10 with small | large
      · rw [natDigits, Nat.toDigits_of_lt_base small] at hc
        cases hc
        have each : ∀ m < 10, 0 < m → Nat.digitChar m ≠ '0' := by decide
        exact each n small positive
      · rw [natDigits, Nat.toDigits_of_base_le (by decide) large, ← natDigits,
          List.head?_append_of_ne_nil _ (natDigits_digits _).1] at hc
        exact ih (n / 10) (by omega) (by omega) c hc

theorem natDigits_whole (n : Nat) : Whole (natDigits n) := by
  refine ⟨natDigits_digits n, fun more same => ?_⟩
  rcases Nat.eq_zero_or_pos n with rfl | positive
  · rw [natDigits, Nat.toDigits_zero] at same
    exact (List.cons.inj same).2.symm
  · exact absurd rfl (natDigits_front positive '0' (by rw [same]; rfl))

theorem scalarText_intText {n : Int} (low : -2 ^ 63 ≤ n) (high : n < 2 ^ 64) :
    ScalarText (intText n) (.integer n) := by
  have parts (negative : Bool) {m : Nat} (stays : staysInteger negative m = true) :
      NumberText negative (natDigits m) (.integer (signed negative m)) := by
    have value : number negative (natDigits m) none none = .ok (.integer (signed negative m)) := by
      simp [number, natOfDigits_natDigits, stays]
    simpa [fractionText] using
      NumberText.parts (natDigits_whole m) (by simp) ExponentText.absent value
  cases n with
  | ofNat m =>
      refine .positive (parts false ?_)
      simp only [staysInteger, Bool.false_eq_true, if_false, decide_eq_true_eq]
      have bound : (m : Int) < 2 ^ 64 := high
      exact_mod_cast bound
  | negSucc m =>
      refine .negative (@parts true (m + 1) ?_)
      simp only [staysInteger, if_true, Bool.and_eq_true, decide_eq_true_eq]
      have bound : m + 1 ≤ 2 ^ 63 := by omega
      exact ⟨Nat.succ_pos m, bound⟩

theorem natOfDigits_zeros (n : Nat) (ds : List Char) :
    natOfDigits (List.replicate n '0' ++ ds) = natOfDigits ds := by
  induction n with
  | zero => rfl
  | succ n ih => rw [← ih]; rfl

theorem natOfDigits_append_zeros (ds : List Char) (n : Nat) :
    natOfDigits (ds ++ List.replicate n '0') = natOfDigits ds * 10 ^ n := by
  induction n with
  | zero => simp
  | succ n ih =>
      rw [List.replicate_succ', ← List.append_assoc, natOfDigits, List.foldl_append, ← natOfDigits,
        ih, pow_succ, List.foldl_cons, List.foldl_nil]
      have zero : digitValue '0' = 0 := rfl
      rw [zero]
      ring

theorem isDigit_zeros (n : Nat) : ∀ c ∈ List.replicate n '0', c.isDigit = true := by
  intro c hc
  rw [(List.mem_replicate.mp hc).2]
  rfl

theorem Digits.whole {ds : List Char} (digits : Digits ds) (front : ∀ c ∈ ds.head?, c ≠ '0') :
    Whole ds := by
  refine ⟨digits, fun more same => ?_⟩
  rw [same] at front
  exact absurd rfl (front '0' rfl)

theorem whole_zero : Whole ['0'] :=
  ⟨⟨by simp, by simp⟩, fun _ same => (List.cons.inj same).2.symm⟩

/-- An exponent is written with its sign, zero as a positive one. -/
theorem exponentText_signed (point : Int) :
    ExponentText (some (point - 1))
      ('e' :: (if 0 < point then '+' :: intText (point - 1) else intText (point - 1))) := by
  have letter : 'e' = 'e' ∨ 'e' = 'E' := .inl rfl
  cases size : point - 1 with
  | ofNat m =>
      have written := ExponentText.present letter .plus (natDigits_digits m)
      have nonneg : 0 ≤ Int.ofNat m := Int.natCast_nonneg m
      rw [natOfDigits_natDigits] at written
      rw [if_pos (by omega)]
      exact written
  | negSucc m =>
      have written := ExponentText.present letter .minus (natDigits_digits (m + 1))
      have negative := Int.negSucc_lt_zero m
      rw [natOfDigits_natDigits] at written
      rw [if_neg (by omega)]
      exact written

/-- A number with a fraction or an exponent reads as the real in whose interval it lies. -/
theorem numberText_real {x : Binary64} (wellFormed : x.WellFormed) (positive : 0 < x.significand)
    (whole : List Char) (fraction : Option (List Char)) (exponent : Option Int) {text : List Char}
    (digits : Whole whole) (places : ∀ ds ∈ fraction, Digits ds)
    (scale : ExponentText exponent text) (point : fraction.isSome ∨ exponent.isSome)
    (holds : x.Holds (natOfDigits (whole ++ fraction.getD []) *
      10 ^ (exponent.getD 0 - (fraction.getD []).length))) :
    NumberText x.negative (whole ++ (fractionText fraction ++ text)) (.real x) := by
  refine .parts digits places scale ?_
  have noInteger : (fraction.isNone && exponent.isNone) = false := by
    cases fraction <;> cases exponent <;> simp_all
  simp only [number, noInteger, Bool.false_and, Bool.false_eq_true, if_false,
    Binary64.nearest?_of_holds wellFormed positive holds]

section

variable {x : Binary64} {ds : List Char} {e : Int}

/-- All digits stand after the point. -/
theorem numberText_after (wellFormed : x.WellFormed) (positive : 0 < x.significand)
    (digits : Digits ds) (holds : x.Holds (natOfDigits ds * 10 ^ e)) {n : Nat}
    (zeros : (n : Int) = -(ds.length + e)) :
    NumberText x.negative ('0' :: '.' :: (List.replicate n '0' ++ ds)) (.real x) := by
  have places : Digits (List.replicate n '0' ++ ds) :=
    ⟨by simp [digits.1], List.forall_mem_append.mpr ⟨isDigit_zeros n, digits.2⟩⟩
  have value : natOfDigits ('0' :: (List.replicate n '0' ++ ds)) = natOfDigits ds :=
    natOfDigits_zeros (n + 1) ds
  have scale : 0 - ((List.replicate n '0' ++ ds).length : Int) = e := by
    rw [List.length_append, List.length_replicate]
    omega
  have written := numberText_real wellFormed positive ['0'] (some (List.replicate n '0' ++ ds)) none
    whole_zero (by simpa using places) .absent (.inl rfl) (by
      simpa only [Option.getD_some, Option.getD_none, List.singleton_append, value, scale]
        using holds)
  simpa [fractionText] using written

/-- All digits stand before the point. -/
theorem numberText_before (wellFormed : x.WellFormed) (positive : 0 < x.significand)
    (digits : Digits ds) (front : ∀ c ∈ ds.head?, c ≠ '0')
    (holds : x.Holds (natOfDigits ds * 10 ^ e)) {n : Nat} (zeros : (n : Int) = e) :
    NumberText x.negative (ds ++ List.replicate n '0' ++ ['.', '0']) (.real x) := by
  have whole : Digits (ds ++ List.replicate n '0') :=
    ⟨by simp [digits.1], List.forall_mem_append.mpr ⟨digits.2, isDigit_zeros n⟩⟩
  have front' : ∀ c ∈ (ds ++ List.replicate n '0').head?, c ≠ '0' := by
    rw [List.head?_append_of_ne_nil _ digits.1]
    exact front
  have value : natOfDigits (ds ++ List.replicate n '0' ++ ['0']) =
      natOfDigits ds * 10 ^ (n + 1) := by
    rw [List.append_assoc, ← natOfDigits_append_zeros, List.replicate_succ']
  have scale : ((natOfDigits ds * 10 ^ (n + 1) : ℕ) : ℚ) * 10 ^ (0 - (['0'].length : Int)) =
      natOfDigits ds * 10 ^ e := by
    rw [← zeros, zpow_natCast, pow_succ]
    norm_num [zpow_neg]
    ring
  have written := numberText_real wellFormed positive (ds ++ List.replicate n '0') (some ['0']) none
    (whole.whole front') (by simp [Digits]) .absent (.inl rfl) (by
      simpa only [Option.getD_some, Option.getD_none, value, scale] using holds)
  simpa [fractionText] using written

/-- The point stands between two digits. -/
theorem numberText_between (wellFormed : x.WellFormed) (positive : 0 < x.significand)
    (digits : Digits ds) (front : ∀ c ∈ ds.head?, c ≠ '0')
    (holds : x.Holds (natOfDigits ds * 10 ^ e)) {n : Nat} (some : 0 < n)
    (point : (n : Int) = ds.length + e) (inside : e < 0) :
    NumberText x.negative (ds.take n ++ '.' :: ds.drop n) (.real x) := by
  have whole : Digits (ds.take n) :=
    ⟨by simp [digits.1, some.ne'], fun c hc => digits.2 c (List.mem_of_mem_take hc)⟩
  have front' : ∀ c ∈ (ds.take n).head?, c ≠ '0' := by
    rw [List.head?_take, if_neg some.ne']
    exact front
  have places : Digits (ds.drop n) :=
    ⟨by rw [ne_eq, List.drop_eq_nil_iff]; omega, fun c hc => digits.2 c (List.mem_of_mem_drop hc)⟩
  have scale : 0 - ((ds.drop n).length : Int) = e := by
    rw [List.length_drop]
    omega
  have written := numberText_real wellFormed positive (ds.take n) (Option.some (ds.drop n)) none
    (whole.whole front') (by simpa using places) .absent (.inl rfl) (by
      simpa only [Option.getD_some, Option.getD_none, List.take_append_drop, scale] using holds)
  simpa [fractionText] using written

/-- One digit stands before the point, and an exponent behind the digits. -/
theorem numberText_scientific (wellFormed : x.WellFormed) (positive : 0 < x.significand)
    {c : Char} (digits : Digits (c :: ds)) (front : c ≠ '0')
    (holds : x.Holds (natOfDigits (c :: ds) * 10 ^ e)) {n : Int} (point : n = ds.length + e)
    {text : List Char} (scale : ExponentText (some n) text) :
    NumberText x.negative (c :: (fractionText (if ds = [] then none else some ds) ++ text))
      (.real x) := by
  have whole : Whole [c] := by
    refine Digits.whole ⟨by simp, by simpa using digits.2 c List.mem_cons_self⟩ ?_
    simpa using front
  cases ds with
  | nil =>
      have exponent : n - (([] : List Char).length : Int) = e := by simp [point]
      have written := numberText_real wellFormed positive [c] none (some n) whole (by simp) scale
        (.inr rfl) (by
          simpa only [Option.getD_some, Option.getD_none, List.append_nil, exponent] using holds)
      simpa [fractionText] using written
  | cons d ds =>
      have places : Digits (d :: ds) :=
        ⟨by simp, fun b hb => digits.2 b (List.mem_cons_of_mem c hb)⟩
      have exponent : n - ((d :: ds).length : Int) = e := by omega
      have written := numberText_real wellFormed positive [c] (some (d :: ds)) (some n) whole
        (by simpa using places) scale (.inl rfl) (by
          simpa only [Option.getD_some, List.singleton_append, exponent] using holds)
      simpa [fractionText] using written

end

theorem numberText_decimalText {x : Binary64} (wellFormed : x.WellFormed)
    (positive : 0 < x.significand) {d : Decimal} (holds : x.Holds d.value) :
    NumberText x.negative (decimalText d) (.real x) := by
  have written : 0 < d.digits := holds.digits_pos wellFormed positive
  have digits := natDigits_digits d.digits
  have front := natDigits_front written
  rw [Decimal.value, ← natOfDigits_natDigits d.digits] at holds
  unfold decimalText
  simp only
  generalize natDigits d.digits = ds at *
  split
  · split
    · rw [List.cons_append, List.cons_append]
      exact numberText_after wellFormed positive digits holds (by omega)
    · split
      · exact numberText_before wellFormed positive digits front holds (by omega)
      · exact numberText_between wellFormed positive digits front holds (by omega) (by omega)
          (by omega)
  · obtain ⟨c, more, rfl⟩ := List.exists_cons_of_ne_nil digits.1
    have point : ((c :: more).length : Int) + d.exponent - 1 = more.length + d.exponent := by
      rw [List.length_cons]
      omega
    have scale := exponentText_signed ((c :: more).length + d.exponent)
    have written := numberText_scientific wellFormed positive digits (front c rfl) holds point scale
    cases more <;> simpa [fractionText] using written

theorem scalarText_realText {x : Binary64} (wellFormed : x.WellFormed) :
    ScalarText (realText x) (.real x) := by
  have magnitude : NumberText x.negative
      (if x.significand = 0 then ['0', '.', '0'] else decimalText x.shortest) (.real x) := by
    split
    · rename_i nothing
      have value : number x.negative ['0'] (some ['0']) none = .ok (.real x) := by
        rw [wellFormed.eq_zero nothing]
        rfl
      exact .parts whole_zero (by simp [Digits]) .absent value
    · rename_i something
      have positive := Nat.pos_of_ne_zero something
      exact numberText_decimalText wellFormed positive (Binary64.holds_shortest positive)
  unfold realText
  simp only
  generalize (if x.significand = 0 then ['0', '.', '0'] else decimalText x.shortest) = text at *
  split
  · rename_i negative
    exact .negative (negative ▸ magnitude)
  · rename_i negative
    rw [Bool.not_eq_true] at negative
    exact .positive (negative ▸ magnitude)

end Overload.Json
