import Overload.Binary64.Basic

/-!
The shortest decimal that reads back as a given binary number. A decimal reads back when it lies
in the interval of the reals that round to the number; among the shortest such decimals the
nearest is taken, and of two equally near ones the one with an even last digit.
-/
namespace Overload

/-- The number `digits · 10 ^ exponent`. -/
structure Decimal where
  digits : Nat
  exponent : Int
deriving DecidableEq

namespace Decimal

/-- Compares with `n · 2 ^ k`. -/
def compareBinary (d : Decimal) (n : Nat) (k : Int) : Ordering :=
  compare (d.digits * Nat.pow 10 d.exponent.toNat * Nat.pow 2 (-k).toNat)
    (n * Nat.pow 2 k.toNat * Nat.pow 10 (-d.exponent).toNat)

/-- The same number with `digits` not divisible by ten, moving at most `count` zeros. -/
def stripZeros : Nat → Decimal → Decimal
  | 0, d => d
  | count + 1, d =>
      if d.digits % 10 = 0 then stripZeros count ⟨d.digits / 10, d.exponent + 1⟩ else d

end Decimal

namespace Binary64

/-- The gap to the number below a power of two is half the gap to the number above. -/
def narrowBelow (x : Binary64) : Bool := x.significand == Nat.pow 2 52 && x.exponent != -1074

/-- Whether a decimal lies among the reals that round to the magnitude of the number.
The ends of the interval belong to it exactly when the significand is even. -/
def readsBack (x : Binary64) (d : Decimal) : Bool :=
  let low := d.compareBinary (4 * x.significand - if x.narrowBelow then 1 else 2) (x.exponent - 2)
  let high := d.compareBinary (4 * x.significand + 2) (x.exponent - 2)
  let even := x.significand % 2 == 0
  (low == .gt || even && low == .eq) && (high == .lt || even && high == .eq)

/-- The least `k` with `|x| < 10 ^ k`. The estimate by the binary logarithm is never too great and
is short by at most two. -/
def decimalScale (x : Binary64) : Int :=
  let estimate := Int.fdiv ((x.significand.log2 + x.exponent) * 30103) 100000
  let below (k : Int) := (Decimal.mk 1 k).compareBinary x.significand x.exponent == .gt
  if below estimate then estimate
  else if below (estimate + 1) then estimate + 1
  else estimate + 2

/-- The best decimal on the grid `10 ^ grid`: only the two neighbours of the number can be it,
the nearer one or, from the middle between them, the even one. -/
def onGrid? (x : Binary64) (grid : Int) : Option Decimal :=
  let floor :=
    x.significand * Nat.pow 2 x.exponent.toNat * Nat.pow 10 (-grid).toNat /
      (Nat.pow 2 (-x.exponent).toNat * Nat.pow 10 grid.toNat)
  let below : Decimal := ⟨floor, grid⟩
  let above : Decimal := ⟨floor + 1, grid⟩
  match x.readsBack below, x.readsBack above with
  | false, false => none
  | true, false => some below
  | false, true => some above
  | true, true =>
      match (Decimal.mk (2 * floor + 1) grid).compareBinary (2 * x.significand) x.exponent with
      | .lt => some above
      | .gt => some below
      | .eq => some (if floor % 2 = 0 then below else above)

def exactDecimal (x : Binary64) : Decimal :=
  { digits := x.significand * Nat.pow 2 x.exponent.toNat * Nat.pow 5 (-x.exponent).toNat
    exponent := min x.exponent 0 }

/-- The magnitude as the shortest decimal that reads back. Seventeen digits always suffice. -/
def shortest (x : Binary64) : Decimal :=
  if x.significand = 0 then ⟨0, 0⟩
  else
    let scale := x.decimalScale
    let found := (List.range 17).findSome? fun n => x.onGrid? (scale - (n + 1 : Nat))
    (found.getD x.exactDecimal).stripZeros 17

end Binary64

end Overload
