import Overload.Proofs.Rounding

/-!
The shortest decimal of a binary number lies in the interval of that number, so it reads back.
-/
namespace Overload

theorem compare_div {a b c d : ℕ} (hb : 0 < b) (hd : 0 < d) :
    compare (a * d) (c * b) = compare ((a : ℚ) / b) (c / d) := by
  have hb' : (0 : ℚ) < b := by exact_mod_cast hb
  have hd' : (0 : ℚ) < d := by exact_mod_cast hd
  obtain less | same | more := lt_trichotomy (a * d) (c * b)
  · rw [compare_lt_iff_lt.mpr less, eq_comm, compare_lt_iff_lt, div_lt_div_iff₀ hb' hd']
    exact_mod_cast less
  · rw [compare_eq_iff_eq.mpr same, eq_comm, compare_eq_iff_eq, div_eq_div_iff hb'.ne' hd'.ne']
    exact_mod_cast same
  · rw [compare_gt_iff_gt.mpr more, eq_comm, compare_gt_iff_gt, div_lt_div_iff₀ hd' hb']
    exact_mod_cast more

namespace Decimal

def value (d : Decimal) : ℚ := d.digits * 10 ^ d.exponent

/-- The sizes are compared over a common denominator. -/
theorem compareBinary_eq (d : Decimal) (n : ℕ) (k : ℤ) :
    d.compareBinary n k = compare d.value (n * 2 ^ k) := by
  have parts (b m : ℕ) (e : ℤ) : (m : ℚ) * (b : ℚ) ^ e =
      (m * b ^ e.toNat : ℕ) / (b ^ (-e).toNat : ℕ) := by
    rw [zpow_eq_div]
    push_cast
    rw [mul_div_assoc]
  have left := parts 10 d.digits d.exponent
  have right := parts 2 n k
  push_cast at left right
  rw [value, left, right, compareBinary]
  exact_mod_cast compare_div (Nat.pow_pos (by norm_num)) (Nat.pow_pos (by norm_num))

theorem value_stripZeros (count : ℕ) (d : Decimal) : (stripZeros count d).value = d.value := by
  induction count generalizing d with
  | zero => rfl
  | succ count ih =>
      rw [stripZeros]
      split
      · rename_i ends
        rw [ih, value, value, zpow_add_one₀ (by norm_num)]
        have split : (d.digits : ℚ) = 10 * (d.digits / 10 : ℕ) := by
          exact_mod_cast (Nat.mul_div_cancel' (Nat.dvd_of_mod_eq_zero ends)).symm
        rw [split]
        ring
      · rfl

end Decimal

namespace Binary64

variable {x : Binary64} {d : Decimal}

theorem low_eq (positive : 0 < x.significand) :
    ((4 * x.significand - if x.narrowBelow then 1 else 2 : ℕ) : ℚ) * 2 ^ (x.exponent - 2) =
      (x.significand - x.reachBelow) * 2 ^ x.exponent := by
  rw [zpow_sub₀ two_ne_zero, reachBelow]
  split
  · rw [Nat.cast_sub (by omega)]
    push_cast
    ring
  · rw [Nat.cast_sub (by omega)]
    push_cast
    ring

theorem high_eq (x : Binary64) :
    ((4 * x.significand + 2 : ℕ) : ℚ) * 2 ^ (x.exponent - 2) =
      (x.significand + 1 / 2) * 2 ^ x.exponent := by
  rw [zpow_sub₀ two_ne_zero]
  push_cast
  ring

theorem holds_of_readsBack (positive : 0 < x.significand) (h : x.readsBack d = true) :
    x.Holds d.value := by
  unfold readsBack at h
  simp only [Decimal.compareBinary_eq, low_eq positive, high_eq, Bool.and_eq_true, Bool.or_eq_true,
    beq_iff_eq, compare_gt_iff_gt, compare_lt_iff_lt, compare_eq_iff_eq] at h
  obtain ⟨low, high⟩ := h
  exact ⟨low.imp_right fun tie => ⟨tie.1, tie.2.symm⟩, high⟩

theorem holds_of_onGrid? {grid : ℤ} (positive : 0 < x.significand)
    (found : x.onGrid? grid = some d) : x.Holds d.value := by
  refine holds_of_readsBack positive ?_
  unfold onGrid? at found
  simp only at found
  split at found
  · cases found
  · rename_i below _
    cases found
    exact below
  · rename_i above
    cases found
    exact above
  · rename_i below above
    split at found
    · cases found
      exact above
    · cases found
      exact below
    · cases found
      split
      · exact below
      · exact above

theorem value_exactDecimal (x : Binary64) : x.exactDecimal.value = x.magnitude := by
  rw [Decimal.value, exactDecimal, magnitude]
  simp only [Nat.pow_eq]
  rcases le_total 0 x.exponent with whole | fractional
  · obtain ⟨n, same⟩ := Int.eq_ofNat_of_zero_le whole
    simp [same]
  · obtain ⟨n, same⟩ := Int.eq_ofNat_of_zero_le (neg_nonneg.mpr fractional)
    have negative : x.exponent = -(n : ℤ) := by omega
    have ten : (10 : ℚ) ^ n = 5 ^ n * 2 ^ n := by rw [← mul_pow]; norm_num
    simp only [negative, neg_neg, Int.toNat_natCast, Int.toNat_neg_natCast, pow_zero, mul_one,
      min_eq_left (neg_nonpos.mpr (Int.natCast_nonneg n)), zpow_neg, zpow_natCast, ten]
    push_cast
    field_simp

theorem holds_magnitude (x : Binary64) : x.Holds x.magnitude := by
  have unit : (0 : ℚ) < 2 ^ x.exponent := by positivity
  have reach : 0 < x.reachBelow := by
    unfold reachBelow
    split <;> norm_num
  refine ⟨.inl ?_, .inl ?_⟩
  · exact mul_lt_mul_of_pos_right (by linarith) unit
  · exact mul_lt_mul_of_pos_right (by linarith) unit

theorem holds_shortest (positive : 0 < x.significand) : x.Holds x.shortest.value := by
  rw [shortest, if_neg positive.ne', Decimal.value_stripZeros]
  cases found : (List.range 17).findSome? fun n => x.onGrid? (x.decimalScale - (n + 1 : ℕ)) with
  | none =>
      rw [Option.getD_none, value_exactDecimal]
      exact x.holds_magnitude
  | some d =>
      obtain ⟨n, _, grid⟩ := List.exists_of_findSome?_eq_some found
      exact holds_of_onGrid? positive grid

end Binary64

end Overload
