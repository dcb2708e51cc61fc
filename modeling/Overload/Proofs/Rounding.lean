import Mathlib.Algebra.Order.Field.Power
import Mathlib.Data.Rat.Cast.Order
import Mathlib.Tactic.FieldSimp
import Mathlib.Tactic.Linarith
import Mathlib.Tactic.NormNum
import Mathlib.Tactic.Positivity
import Mathlib.Tactic.Ring
import Overload.Binary64.Shortest

/-!
Rounding to binary numbers. A fraction rounds to a number when it lies in the interval of the reals
that are nearest to it; of two equally near numbers the one with an even significand takes the
fraction.
-/
namespace Overload

/-- A power with an exponent of either sign, by powers with natural exponents. -/
theorem zpow_eq_div (b : ℚ) (k : ℤ) : b ^ k = b ^ k.toNat / b ^ (-k).toNat := by
  obtain ⟨n, rfl | rfl⟩ := k.eq_nat_or_neg
  · simp
  · simp [zpow_neg]

theorem two_pow_lt_ten_pow {m n : ℕ} (small : m ≤ 3 * n) (positive : n ≠ 0) :
    (2 : ℚ) ^ m < 10 ^ n := by
  calc (2 : ℚ) ^ m ≤ 2 ^ (3 * n) := pow_le_pow_right₀ one_le_two small
    _ = (2 ^ 3) ^ n := pow_mul 2 3 n
    _ < 10 ^ n := pow_lt_pow_left₀ (by norm_num) (by norm_num) positive

/-- The number is nearest to the fraction, and even if it is one of two that are. -/
structure Nearest (r : ℚ) (m : ℕ) : Prop where
  low : m - 1 / 2 < r ∨ m % 2 = 0 ∧ (m : ℚ) - 1 / 2 = r
  high : r < m + 1 / 2 ∨ m % 2 = 0 ∧ r = m + 1 / 2

theorem Nearest.low_le {r : ℚ} {m : ℕ} (h : Nearest r m) : m - 1 / 2 ≤ r :=
  h.low.elim le_of_lt fun tie => le_of_eq tie.2

theorem Nearest.le_high {r : ℚ} {m : ℕ} (h : Nearest r m) : r ≤ m + 1 / 2 :=
  h.high.elim le_of_lt fun tie => le_of_eq tie.2

theorem Nearest.le {r : ℚ} {m n : ℕ} (hm : Nearest r m) (hn : Nearest r n) : m ≤ n := by
  by_contra more
  have next : (n : ℚ) + 1 ≤ m := by exact_mod_cast Nat.lt_of_not_le more
  have below := hm.low_le
  have above := hn.le_high
  obtain strict | ⟨even, _⟩ := hm.low
  · linarith
  · obtain strict | ⟨even', _⟩ := hn.high
    · linarith
    · have same : (m : ℚ) = n + 1 := by linarith
      have same' : m = n + 1 := by exact_mod_cast same
      omega

theorem Nearest.unique {r : ℚ} {m n : ℕ} (hm : Nearest r m) (hn : Nearest r n) : m = n :=
  Nat.le_antisymm (hm.le hn) (hn.le hm)

namespace Binary64

theorem nearest_roundHalfEven (a : ℕ) {b : ℕ} (positive : 0 < b) :
    Nearest (a / b) (roundHalfEven a b) := by
  have hb : (0 : ℚ) < b := by exact_mod_cast positive
  have split : (a : ℚ) = b * (a / b : ℕ) + (a % b : ℕ) := by
    exact_mod_cast (Nat.div_add_mod a b).symm
  have small : ((a % b : ℕ) : ℚ) < b := by exact_mod_cast Nat.mod_lt a positive
  have ratio : (a : ℚ) / b = (a / b : ℕ) + (a % b : ℕ) / b := by
    rw [split]
    field_simp
  have nonneg : (0 : ℚ) ≤ (a % b : ℕ) / b := by positivity
  have below : ((a % b : ℕ) : ℚ) / b < 1 := (div_lt_one hb).mpr small
  unfold roundHalfEven
  simp only
  rw [ratio]
  generalize a / b = q at *
  split
  · rename_i down
    obtain less | ⟨tie, even⟩ := down
    · have half : ((a % b : ℕ) : ℚ) / b < 1 / 2 := by
        rw [div_lt_div_iff₀ hb two_pos]
        exact_mod_cast (by omega : a % b * 2 < 1 * b)
      exact ⟨.inl (by linarith), .inl (by linarith)⟩
    · have half : ((a % b : ℕ) : ℚ) / b = 1 / 2 := by
        rw [div_eq_div_iff hb.ne' two_ne_zero]
        exact_mod_cast (by omega : a % b * 2 = 1 * b)
      exact ⟨.inl (by linarith), .inr ⟨even, by rw [half]⟩⟩
  · rename_i up
    obtain ⟨notLess, notTie⟩ := not_or.mp up
    have half : 1 / 2 ≤ ((a % b : ℕ) : ℚ) / b := by
      rw [div_le_div_iff₀ two_pos hb]
      exact_mod_cast (by omega : 1 * b ≤ a % b * 2)
    refine ⟨?_, .inl (by push_cast; linarith)⟩
    obtain tie | more := half.eq_or_lt
    · refine .inr ⟨?_, by push_cast; linarith⟩
      rw [div_eq_div_iff two_ne_zero hb.ne'] at tie
      have twice : 1 * b = a % b * 2 := by exact_mod_cast tie
      have odd : ¬q % 2 = 0 := fun even => notTie ⟨by omega, even⟩
      omega
    · exact .inl (by push_cast; linarith)

theorem lt_two_zpow_iff {a b : ℕ} (hb : 0 < b) (k : ℤ) :
    (a : ℚ) / b < 2 ^ k ↔ a * Nat.pow 2 (-k).toNat < b * Nat.pow 2 k.toNat := by
  have hb' : (0 : ℚ) < b := by exact_mod_cast hb
  rw [zpow_eq_div, div_lt_div_iff₀ hb' (by positivity), mul_comm ((2 : ℚ) ^ k.toNat)]
  simp only [Nat.pow_eq]
  exact_mod_cast Iff.rfl

theorem log2Ratio_bounds {a b : ℕ} (ha : 0 < a) (hb : 0 < b) :
    (2 : ℚ) ^ log2Ratio a b ≤ a / b ∧ (a : ℚ) / b < 2 ^ (log2Ratio a b + 1) := by
  have hb' : (0 : ℚ) < b := by exact_mod_cast hb
  have bounds {n : ℕ} (hn : 0 < n) :
      (2 : ℚ) ^ (n.log2 : ℤ) ≤ n ∧ (n : ℚ) < 2 ^ ((n.log2 : ℤ) + 1) := by
    have below : 2 ^ n.log2 ≤ n := Nat.log2_self_le hn.ne'
    have above : n < 2 ^ (n.log2 + 1) := Nat.lt_log2_self
    exact ⟨by exact_mod_cast below, by exact_mod_cast above⟩
  obtain ⟨lowA, highA⟩ := bounds ha
  obtain ⟨lowB, highB⟩ := bounds hb
  have low : (2 : ℚ) ^ ((a.log2 : ℤ) - b.log2 - 1) ≤ a / b := by
    rw [le_div_iff₀ hb']
    calc (2 : ℚ) ^ ((a.log2 : ℤ) - b.log2 - 1) * b
        ≤ 2 ^ ((a.log2 : ℤ) - b.log2 - 1) * 2 ^ ((b.log2 : ℤ) + 1) :=
          mul_le_mul_of_nonneg_left highB.le (by positivity)
      _ = 2 ^ (a.log2 : ℤ) := by rw [← zpow_add₀ two_ne_zero]; ring_nf
      _ ≤ a := lowA
  have high : (a : ℚ) / b < 2 ^ ((a.log2 : ℤ) - b.log2 + 1) := by
    rw [div_lt_iff₀ hb']
    calc (a : ℚ) < 2 ^ ((a.log2 : ℤ) + 1) := highA
      _ = 2 ^ ((a.log2 : ℤ) - b.log2 + 1) * 2 ^ (b.log2 : ℤ) := by
          rw [← zpow_add₀ two_ne_zero]; ring_nf
      _ ≤ 2 ^ ((a.log2 : ℤ) - b.log2 + 1) * b :=
          mul_le_mul_of_nonneg_left lowB (by positivity)
  unfold log2Ratio
  simp only [← lt_two_zpow_iff hb]
  split
  · rename_i less
    exact ⟨low, by rwa [sub_add_cancel]⟩
  · rename_i more
    exact ⟨not_lt.mp more, high⟩

theorem log2Ratio_lt {a b : ℕ} (ha : 0 < a) (hb : 0 < b) {k : ℤ} :
    log2Ratio a b < k ↔ (a : ℚ) / b < 2 ^ k := by
  obtain ⟨low, high⟩ := log2Ratio_bounds ha hb
  constructor
  · intro less
    exact high.trans_le (zpow_le_zpow_right₀ one_le_two (by omega))
  · intro less
    exact (zpow_lt_zpow_iff_right₀ one_lt_two).mp (low.trans_lt less)

/-- What a number of this format satisfies. -/
structure WellFormed (x : Binary64) : Prop where
  significand : x.significand < 2 ^ 53
  low : -1074 ≤ x.exponent
  high : x.exponent ≤ 971
  normal : x.exponent = -1074 ∨ 2 ^ 52 ≤ x.significand

/-- The number with a rounded significand, which may have grown to a power of two. -/
def ofRounded? (negative : Bool) (significand : ℕ) (exponent : ℤ) : Option Binary64 :=
  let rounded : Binary64 :=
    if significand = 2 ^ 53 then ⟨negative, 2 ^ 52, exponent + 1⟩
    else ⟨negative, significand, exponent⟩
  if rounded.exponent ≤ 971 then some rounded else none

theorem nearestRatio?_eq (negative : Bool) {a b : ℕ} (hb : 0 < b) :
    ∃ m, Nearest (a / b * 2 ^ (-max (-1074) (log2Ratio a b - 52))) m ∧
      nearestRatio? negative a b = ofRounded? negative m (max (-1074) (log2Ratio a b - 52)) := by
  generalize scale : max (-1074) (log2Ratio a b - 52) = q
  have positive : 0 < b * Nat.pow 2 q.toNat := Nat.mul_pos hb (Nat.pow_pos two_pos)
  refine ⟨_, ?_, by rw [nearestRatio?, scale]; rfl⟩
  have nearest := nearest_roundHalfEven (a * Nat.pow 2 (-q).toNat) positive
  have ratio : ((a * Nat.pow 2 (-q).toNat : ℕ) : ℚ) / (b * Nat.pow 2 q.toNat : ℕ) =
      a / b * 2 ^ (-q) := by
    rw [zpow_eq_div, neg_neg]
    simp only [Nat.pow_eq]
    push_cast
    rw [mul_div_mul_comm]
  rwa [ratio] at nearest

theorem ofRounded?_eq_some {negative : Bool} {m : ℕ} {q : ℤ} {x : Binary64}
    (found : ofRounded? negative m q = some x) (least : -1074 ≤ q) (most : m ≤ 2 ^ 53)
    (normal : q = -1074 ∨ 2 ^ 52 ≤ m) : x.WellFormed := by
  unfold ofRounded? at found
  simp only [Option.ite_none_right_eq_some, Option.some.injEq] at found
  obtain ⟨bound, rfl⟩ := found
  split at bound
  · rename_i grown
    rw [if_pos grown]
    exact ⟨by norm_num, by simp only; omega, bound, .inr le_rfl⟩
  · rename_i grown
    rw [if_neg grown]
    exact ⟨lt_of_le_of_ne most grown, least, bound, normal⟩

/-- A fraction in units of 52 places below its leading bit has at most 53 bits. -/
theorem scaled_lt {a b : ℕ} (ha : 0 < a) (hb : 0 < b) {q : ℤ} (coarse : log2Ratio a b - 52 ≤ q) :
    (a : ℚ) / b * 2 ^ (-q) < 2 ^ 53 := by
  calc (a : ℚ) / b * 2 ^ (-q) < 2 ^ (log2Ratio a b + 1) * 2 ^ (-q) := by
        gcongr
        exact (log2Ratio_bounds ha hb).2
    _ = 2 ^ (log2Ratio a b + 1 + -q) := (zpow_add₀ two_ne_zero _ _).symm
    _ ≤ 2 ^ (53 : ℤ) := zpow_le_zpow_right₀ one_le_two (by omega)
    _ = 2 ^ 53 := zpow_natCast _ _

theorem le_scaled {a b : ℕ} (ha : 0 < a) (hb : 0 < b) {q : ℤ} (fine : q ≤ log2Ratio a b - 52) :
    (2 : ℚ) ^ 52 ≤ a / b * 2 ^ (-q) := by
  calc (2 : ℚ) ^ 52 = 2 ^ (52 : ℤ) := (zpow_natCast _ _).symm
    _ ≤ 2 ^ (log2Ratio a b + -q) := zpow_le_zpow_right₀ one_le_two (by omega)
    _ = 2 ^ log2Ratio a b * 2 ^ (-q) := zpow_add₀ two_ne_zero _ _
    _ ≤ a / b * 2 ^ (-q) := by
        gcongr
        exact (log2Ratio_bounds ha hb).1

theorem wellFormed_of_nearestRatio? {negative : Bool} {a b : ℕ} (ha : 0 < a) (hb : 0 < b)
    {x : Binary64} (found : nearestRatio? negative a b = some x) : x.WellFormed := by
  obtain ⟨m, nearest, result⟩ := nearestRatio?_eq negative (a := a) hb
  rw [result] at found
  generalize scale : max (-1074) (log2Ratio a b - 52) = q at nearest found
  have least : -1074 ≤ q := scale ▸ le_max_left _ _
  have coarse : log2Ratio a b - 52 ≤ q := scale ▸ le_max_right _ _
  have most : m < 2 ^ 53 + 1 := by
    have near : (m : ℚ) < 2 ^ 53 + 1 := by linarith [nearest.low_le, scaled_lt ha hb coarse]
    exact_mod_cast near
  refine ofRounded?_eq_some found least (Nat.le_of_lt_succ most) ?_
  rcases least.eq_or_lt with denormal | more
  · exact .inl denormal.symm
  · have near : (2 : ℚ) ^ 52 < m + 1 := by
      linarith [nearest.le_high, le_scaled ha hb (q := q) (by omega)]
    have normal : 2 ^ 52 < m + 1 := by exact_mod_cast near
    exact .inr (Nat.le_of_lt_succ normal)

theorem wellFormed_of_nearest? {negative : Bool} {digits : ℕ} {exponent : ℤ} {x : Binary64}
    (found : nearest? negative digits exponent = some x) : x.WellFormed := by
  unfold nearest? at found
  split at found
  · cases found
    exact ⟨by norm_num [zero], le_rfl, by norm_num [zero], .inl rfl⟩
  · rename_i inside
    split at found
    · cases found
    · have positive : 0 < digits := Nat.pos_of_ne_zero (not_or.mp inside).1
      exact wellFormed_of_nearestRatio? (Nat.mul_pos positive (Nat.pow_pos (by norm_num)))
        (Nat.pow_pos (by norm_num)) found

def magnitude (x : Binary64) : ℚ := x.significand * 2 ^ x.exponent

/-- How far the interval reaches below the number, in units of its last place. -/
def reachBelow (x : Binary64) : ℚ := if x.narrowBelow then 1 / 4 else 1 / 2

/-- The real lies among those that round to the magnitude of the number. -/
structure Holds (x : Binary64) (r : ℚ) : Prop where
  low : (x.significand - x.reachBelow) * 2 ^ x.exponent < r ∨
    x.significand % 2 = 0 ∧ (x.significand - x.reachBelow) * 2 ^ x.exponent = r
  high : r < (x.significand + 1 / 2) * 2 ^ x.exponent ∨
    x.significand % 2 = 0 ∧ r = (x.significand + 1 / 2) * 2 ^ x.exponent

theorem reachBelow_le (x : Binary64) : x.reachBelow ≤ 1 / 2 := by
  unfold reachBelow
  split <;> norm_num

variable {x : Binary64} {r : ℚ}

theorem Holds.low_le (h : x.Holds r) : (x.significand - x.reachBelow) * 2 ^ x.exponent ≤ r :=
  h.low.elim le_of_lt fun tie => le_of_eq tie.2

theorem Holds.le_high (h : x.Holds r) : r ≤ (x.significand + 1 / 2) * 2 ^ x.exponent :=
  h.high.elim le_of_lt fun tie => le_of_eq tie.2

theorem Holds.lt_top (h : x.Holds r) (wellFormed : x.WellFormed) :
    r < 2 ^ (x.exponent + 53) := by
  have most : (x.significand : ℚ) + 1 ≤ 2 ^ 53 := by exact_mod_cast wellFormed.significand
  calc r ≤ (x.significand + 1 / 2) * 2 ^ x.exponent := h.le_high
    _ < 2 ^ 53 * 2 ^ x.exponent := by gcongr; linarith
    _ = 2 ^ (x.exponent + 53) := by
        rw [zpow_add₀ two_ne_zero, mul_comm]
        norm_num

theorem narrowBelow_iff :
    x.narrowBelow = true ↔ x.significand = 2 ^ 52 ∧ x.exponent ≠ -1074 := by
  simp [narrowBelow]

theorem two_zpow_add (e : ℤ) (n : ℕ) : (2 : ℚ) ^ (e + n) = 2 ^ n * 2 ^ e := by
  rw [zpow_add₀ two_ne_zero, zpow_natCast, mul_comm]

/-- In units of the last place, what the interval holds is nearest to the significand. Below a power
of two this is so only where the places do not get finer. -/
theorem Holds.nearest (h : x.Holds r)
    (coarse : x.exponent = -1074 ∨ 2 ^ (x.exponent + 52) ≤ r) :
    Nearest (r * 2 ^ (-x.exponent)) x.significand := by
  have unit : (0 : ℚ) < 2 ^ x.exponent := by positivity
  have cancel : r * 2 ^ (-x.exponent) = r / 2 ^ x.exponent := by rw [zpow_neg, div_eq_mul_inv]
  rw [cancel]
  refine ⟨?_, ?_⟩
  · rw [lt_div_iff₀ unit, eq_div_iff unit.ne']
    by_cases narrow : x.narrowBelow = true
    · obtain ⟨power, regular⟩ := narrowBelow_iff.mp narrow
      refine .inl ?_
      calc ((x.significand : ℚ) - 1 / 2) * 2 ^ x.exponent < 2 ^ 52 * 2 ^ x.exponent := by
            gcongr
            rw [power]
            norm_num
        _ = 2 ^ (x.exponent + 52) := (two_zpow_add x.exponent 52).symm
        _ ≤ r := coarse.resolve_left regular
    · have wide : x.reachBelow = 1 / 2 := if_neg narrow
      simpa only [wide] using h.low
  · rw [div_lt_iff₀ unit, div_eq_iff unit.ne']
    exact h.high

/-- Below a number that is not the least of its places the interval holds no smaller ones. -/
theorem Holds.narrowBelow (h : x.Holds r) (wellFormed : x.WellFormed) (regular : x.exponent ≠ -1074)
    (below : r < 2 ^ (x.exponent + 52)) : x.narrowBelow = true := by
  by_contra wide
  have other : x.significand ≠ 2 ^ 52 := fun same => wide (narrowBelow_iff.mpr ⟨same, regular⟩)
  have above : 2 ^ 52 + 1 ≤ x.significand := by
    have normal := wellFormed.normal.resolve_left regular
    omega
  have above' : (2 : ℚ) ^ 52 + 1 ≤ x.significand := by exact_mod_cast above
  have unit : (0 : ℚ) < 2 ^ x.exponent := by positivity
  have inside : (2 : ℚ) ^ 52 * 2 ^ x.exponent < r := by
    calc (2 : ℚ) ^ 52 * 2 ^ x.exponent < (x.significand - x.reachBelow) * 2 ^ x.exponent := by
          gcongr
          linarith [x.reachBelow_le]
      _ ≤ r := h.low_le
  exact absurd below (not_lt.mpr ((two_zpow_add x.exponent 52).trans_lt inside).le)

/-- The interval does not reach down to half of the number. -/
theorem Holds.half_le (h : x.Holds r) (wellFormed : x.WellFormed) (regular : x.exponent ≠ -1074) :
    2 ^ (x.exponent + 51) ≤ r := by
  have normal : (2 : ℚ) ^ 52 ≤ x.significand := by
    exact_mod_cast wellFormed.normal.resolve_left regular
  calc (2 : ℚ) ^ (x.exponent + 51) = 2 ^ 51 * 2 ^ x.exponent := two_zpow_add x.exponent 51
    _ ≤ (x.significand - x.reachBelow) * 2 ^ x.exponent := by
        gcongr
        linarith [x.reachBelow_le]
    _ ≤ r := h.low_le

/-- Below a power of two the places are finer. What the interval holds there is nearest to that
power in the finer units as well. -/
theorem Holds.nearest_finer (h : x.Holds r) (wellFormed : x.WellFormed)
    (regular : x.exponent ≠ -1074) (below : r < 2 ^ (x.exponent + 52)) :
    Nearest (r * 2 ^ (-(x.exponent - 1))) (2 ^ 53) ∧ x.significand = 2 ^ 52 := by
  have unit : (0 : ℚ) < 2 ^ x.exponent := by positivity
  have narrow := h.narrowBelow wellFormed regular below
  have power := (narrowBelow_iff.mp narrow).1
  have reach : x.reachBelow = 1 / 4 := if_pos narrow
  have low := h.low
  rw [power, reach] at low
  have twice : r * 2 ^ (-(x.exponent - 1)) = 2 * r / 2 ^ x.exponent := by
    rw [neg_sub, zpow_sub₀ two_ne_zero, zpow_one]
    ring
  rw [twice]
  refine ⟨⟨?_, .inl ?_⟩, power⟩
  · rw [lt_div_iff₀ unit, eq_div_iff unit.ne']
    refine low.imp (fun strict => ?_) fun tie => ⟨by norm_num, ?_⟩
    · push_cast at strict ⊢
      linarith
    · push_cast at tie ⊢
      linarith [tie.2]
  · rw [div_lt_iff₀ unit]
    have less := below.trans_eq (two_zpow_add x.exponent 52)
    push_cast
    linarith

theorem nearestRatio?_of_holds (wellFormed : x.WellFormed) {a b : ℕ} (ha : 0 < a) (hb : 0 < b)
    (h : x.Holds (a / b)) : nearestRatio? x.negative a b = some x := by
  obtain ⟨m, nearest, result⟩ := nearestRatio?_eq x.negative (a := a) hb
  have top : log2Ratio a b < x.exponent + 53 :=
    (log2Ratio_lt ha hb).mpr (h.lt_top wellFormed)
  have least := wellFormed.low
  rw [result]
  by_cases coarse : x.exponent = -1074 ∨ x.exponent + 52 ≤ log2Ratio a b
  · -- the fraction is rounded to the places of the number
    have scale : max (-1074) (log2Ratio a b - 52) = x.exponent := by omega
    rw [scale] at nearest ⊢
    have reached : x.exponent = -1074 ∨ (2 : ℚ) ^ (x.exponent + 52) ≤ a / b :=
      coarse.imp_right fun enough =>
        not_lt.mp fun less => not_lt.mpr enough ((log2Ratio_lt ha hb).mpr less)
    obtain rfl := nearest.unique (h.nearest reached)
    simp only [ofRounded?, if_neg wellFormed.significand.ne]
    rw [if_pos wellFormed.high]
  · -- the number is a power of two, and the fraction grows to it when it is rounded
    obtain ⟨regular, below⟩ := not_or.mp coarse
    obtain ⟨grown, power⟩ :=
      h.nearest_finer wellFormed regular ((log2Ratio_lt ha hb).mp (not_le.mp below))
    have notFiner : ¬log2Ratio a b < x.exponent + 51 := fun less =>
      not_lt.mpr (h.half_le wellFormed regular) ((log2Ratio_lt ha hb).mp less)
    have scale : max (-1074) (log2Ratio a b - 52) = x.exponent - 1 := by omega
    rw [scale] at nearest ⊢
    obtain rfl := nearest.unique grown
    have back : x.exponent - 1 + 1 = x.exponent := sub_add_cancel _ _
    simp only [ofRounded?, if_true, back]
    rw [if_pos wellFormed.high, ← power]

theorem Holds.least_le (h : x.Holds r) (wellFormed : x.WellFormed) (positive : 0 < x.significand) :
    (2 : ℚ) ^ (-(1075 : ℕ) : ℤ) ≤ r := by
  have one : (1 : ℚ) ≤ x.significand := by exact_mod_cast positive
  have places : (2 : ℚ) ^ (-1074 : ℤ) ≤ 2 ^ x.exponent :=
    zpow_le_zpow_right₀ one_le_two wellFormed.low
  have half : 2 ^ (-1 : ℤ) ≤ (x.significand : ℚ) - x.reachBelow := by
    rw [zpow_neg_one]
    linarith [x.reachBelow_le]
  calc (2 : ℚ) ^ (-(1075 : ℕ) : ℤ) = 2 ^ (-1 : ℤ) * 2 ^ (-1074 : ℤ) := by
        rw [← zpow_add₀ two_ne_zero]
        rfl
    _ ≤ (x.significand - x.reachBelow) * 2 ^ x.exponent :=
        mul_le_mul half places (by positivity) ((by positivity : (0 : ℚ) ≤ 2 ^ (-1 : ℤ)).trans half)
    _ ≤ r := h.low_le

theorem Holds.digits_pos {digits : ℕ} {exponent : ℤ} (h : x.Holds (digits * 10 ^ exponent))
    (wellFormed : x.WellFormed) (positive : 0 < x.significand) : 0 < digits := by
  refine Nat.pos_of_ne_zero fun none => ?_
  have least := h.least_le wellFormed positive
  rw [none, Nat.cast_zero, zero_mul] at least
  exact absurd least (not_le.mpr (by positivity))

theorem Holds.exponent_ge {digits : ℕ} {exponent : ℤ} (h : x.Holds (digits * 10 ^ exponent))
    (wellFormed : x.WellFormed) (positive : 0 < x.significand) :
    -(400 + digits.log2 : ℤ) ≤ exponent := by
  by_contra less
  have size : (digits : ℚ) < 10 ^ ((digits.log2 : ℤ) + 1) := by
    have bound : digits < 2 ^ (digits.log2 + 1) := Nat.lt_log2_self
    calc (digits : ℚ) < 2 ^ (digits.log2 + 1) := by exact_mod_cast bound
      _ ≤ 10 ^ (digits.log2 + 1) := by gcongr; norm_num
      _ = 10 ^ ((digits.log2 : ℤ) + 1) := by exact_mod_cast rfl
  have small : (digits : ℚ) * 10 ^ exponent < 10 ^ (-(400 : ℕ) : ℤ) := by
    calc (digits : ℚ) * 10 ^ exponent < 10 ^ ((digits.log2 : ℤ) + 1) * 10 ^ exponent := by gcongr
      _ = 10 ^ ((digits.log2 : ℤ) + 1 + exponent) := (zpow_add₀ (by norm_num) _ _).symm
      _ ≤ 10 ^ (-(400 : ℕ) : ℤ) := zpow_le_zpow_right₀ (by norm_num) (by omega)
  have gap : (10 : ℚ) ^ (-(400 : ℕ) : ℤ) < 2 ^ (-(1075 : ℕ) : ℤ) := by
    rw [zpow_neg, zpow_neg, zpow_natCast, zpow_natCast]
    exact inv_strictAnti₀ (by positivity) (two_pow_lt_ten_pow (by norm_num) (by norm_num))
  exact lt_irrefl _ ((h.least_le wellFormed positive).trans_lt (small.trans gap))

theorem Holds.exponent_le {digits : ℕ} {exponent : ℤ} (h : x.Holds (digits * 10 ^ exponent))
    (wellFormed : x.WellFormed) (positive : 0 < x.significand) : exponent ≤ 400 := by
  by_contra more
  have large : (10 : ℚ) ^ ((401 : ℕ) : ℤ) ≤ digits * 10 ^ exponent := by
    have one : (1 : ℚ) ≤ digits := by exact_mod_cast h.digits_pos wellFormed positive
    calc (10 : ℚ) ^ ((401 : ℕ) : ℤ) ≤ 10 ^ exponent :=
          zpow_le_zpow_right₀ (by norm_num) (by omega)
      _ ≤ digits * 10 ^ exponent := le_mul_of_one_le_left (by positivity) one
  have top : (digits : ℚ) * 10 ^ exponent < 2 ^ ((1024 : ℕ) : ℤ) :=
    (h.lt_top wellFormed).trans_le
      (zpow_le_zpow_right₀ one_le_two (by have := wellFormed.high; omega))
  have gap : (2 : ℚ) ^ ((1024 : ℕ) : ℤ) < 10 ^ ((401 : ℕ) : ℤ) := by
    rw [zpow_natCast, zpow_natCast]
    exact two_pow_lt_ten_pow (by norm_num) (by norm_num)
  exact lt_irrefl _ (large.trans_lt (top.trans gap))

/-- Every decimal in the interval of a number reads as that number. -/
theorem nearest?_of_holds (wellFormed : x.WellFormed) (positive : 0 < x.significand)
    {digits : ℕ} {exponent : ℤ} (h : x.Holds (digits * 10 ^ exponent)) :
    nearest? x.negative digits exponent = some x := by
  have written := h.digits_pos wellFormed positive
  have inside : ¬(digits = 0 ∨ exponent < -(400 + digits.log2 : ℤ)) :=
    not_or.mpr ⟨written.ne', not_lt.mpr (h.exponent_ge wellFormed positive)⟩
  rw [nearest?, if_neg inside, if_neg (not_lt.mpr (h.exponent_le wellFormed positive))]
  refine nearestRatio?_of_holds wellFormed (Nat.mul_pos written (Nat.pow_pos (by norm_num)))
    (Nat.pow_pos (by norm_num)) ?_
  rw [zpow_eq_div, ← mul_div_assoc] at h
  simp only [Nat.pow_eq]
  exact_mod_cast h

theorem WellFormed.eq_zero (wellFormed : x.WellFormed) (nothing : x.significand = 0) :
    x = zero x.negative := by
  have least : x.exponent = -1074 := wellFormed.normal.resolve_right (by omega)
  cases x
  simp only at nothing least
  rw [nothing, least]
  rfl

end Binary64

end Overload
