import HunterFi.State

/-!
# Splitting an amount into orders

`get_split_order_count` and `split_amount` of the self-hedging strategy. Every order but the
last gets the minimum and a pseudo-random share of what is left above the minimum for the
orders after it, and the last one gets the rest. The `u128` arithmetic of a release build
wraps.

`sum_splitAmount` : the orders add up to the amount if that has one unit for each order but
the last. If it has not they add up to more.
-/

set_option linter.unusedSectionVars false

namespace HunterFi

/-! ## Arithmetic -/

/-- `a + b` on `u128`. -/
def wrappingAdd (a b : ℕ) : ℕ :=
  (a + b) % 2 ^ 128

/-- `a * b` on `u128`. -/
def wrappingMul (a b : ℕ) : ℕ :=
  a * b % 2 ^ 128

/-- `iter().sum()` on `u128`. -/
def wrappingSum (xs : List ℕ) : ℕ :=
  xs.foldl wrappingAdd 0

theorem wrappingAdd_of_lt {a b : ℕ} (h : a + b < 2 ^ 128) : wrappingAdd a b = a + b :=
  Nat.mod_eq_of_lt h

theorem wrappingMul_of_lt {a b : ℕ} (h : a * b < 2 ^ 128) : wrappingMul a b = a * b :=
  Nat.mod_eq_of_lt h

theorem wrappingMul_le (a b : ℕ) : wrappingMul a b ≤ a * b :=
  Nat.mod_le _ _

theorem foldl_wrappingAdd (xs : List ℕ) :
    ∀ a, xs.foldl wrappingAdd (a % 2 ^ 128) = (a + xs.sum) % 2 ^ 128 := by
  induction xs with
  | nil => simp
  | cons x xs ih =>
    intro a
    rw [List.foldl_cons, List.sum_cons, ← Nat.add_assoc, ← ih]
    congr 1
    exact Nat.mod_add_mod a (2 ^ 128) x

theorem wrappingSum_eq (xs : List ℕ) : wrappingSum xs = xs.sum % 2 ^ 128 := by
  simpa [wrappingSum] using foldl_wrappingAdd xs 0

/-! ## The split -/

/-- `get_split_order_count` : from 3 to 10. -/
def getSplitOrderCount (env : Env) : ℕ :=
  env.time % 8 + 3

theorem getSplitOrderCount_le (env : Env) : getSplitOrderCount env ≤ 10 := by
  unfold getSplitOrderCount
  omega

/-- The minimum of an order, as a percentage of the average. -/
def minPercent : ℕ :=
  10

/-- What the `i`-th order gets of `remaining`, when `splits` orders are left. -/
def orderAmount (seed minAmount i splits remaining : ℕ) : ℕ :=
  let maxForCurrent := remaining - wrappingMul minAmount (splits - 1)
  if maxForCurrent ≤ minAmount then minAmount
  else
    let randomFactor := wrappingAdd (wrappingAdd seed (wrappingMul i 7919))
      (wrappingMul (seed % (i + 1)) 104729) % 101
    let randomRange := maxForCurrent - minAmount
    wrappingAdd minAmount (wrappingMul randomFactor randomRange / 100)

/-- The orders from the `i`-th on, of which the last one gets what the `rounds` before it
leave. -/
def splitLoop (seed minAmount : ℕ) : ℕ → ℕ → ℕ → List ℕ
  | 0, _, remaining => [remaining]
  | rounds + 1, i, remaining =>
    let amount := orderAmount seed minAmount i (rounds + 2) remaining
    amount :: splitLoop seed minAmount rounds (i + 1) (remaining - amount)

/-- The minimum of an order of `split_amount`. -/
def minOrder (totalAmount splitCount : ℕ) : ℕ :=
  max 1 (wrappingMul (totalAmount / splitCount) minPercent / 100)

/-- `split_amount`. -/
def splitAmount (env : Env) (totalAmount splitCount : ℕ) : List ℕ :=
  if splitCount ≤ 1 ∨ totalAmount = 0 then [totalAmount]
  else splitLoop env.time (minOrder totalAmount splitCount) (splitCount - 1) 0 totalAmount

/-! ## The sum -/

variable {seed minAmount i rounds remaining : ℕ}

/-- An order leaves the minimum for the orders after it. -/
theorem orderAmount_add_le (hlt : remaining < 2 ^ 128)
    (h : (rounds + 1) * minAmount ≤ remaining) :
    orderAmount seed minAmount i (rounds + 2) remaining + rounds * minAmount ≤ remaining := by
  have hreserve : wrappingMul minAmount (rounds + 1) = (rounds + 1) * minAmount := by
    rw [wrappingMul_of_lt, Nat.mul_comm]
    rw [Nat.mul_comm]
    omega
  have hsucc : (rounds + 1) * minAmount = rounds * minAmount + minAmount := Nat.succ_mul _ _
  unfold orderAmount
  simp only [Nat.add_succ_sub_one, hreserve]
  split_ifs with hmax
  · omega
  · generalize hfactor : wrappingAdd (wrappingAdd seed (wrappingMul i 7919))
      (wrappingMul (seed % (i + 1)) 104729) % 101 = factor
    generalize hrange : remaining - (rounds + 1) * minAmount - minAmount = range
    have hle : factor ≤ 100 := by
      rw [← hfactor]
      exact Nat.le_of_lt_succ (Nat.mod_lt _ (by decide))
    have hshare : wrappingMul factor range / 100 ≤ range := by
      refine Nat.div_le_of_le_mul ((wrappingMul_le _ _).trans ?_)
      exact Nat.mul_le_mul_right _ hle
    rw [wrappingAdd_of_lt] <;> omega

/-- The orders add up to what was there, or to the minimum for all but the last, if that is
more. -/
theorem sum_splitLoop (hlt : remaining < 2 ^ 128) (hmin : rounds * minAmount < 2 ^ 128) :
    (splitLoop seed minAmount rounds i remaining).sum = max remaining (rounds * minAmount) := by
  induction rounds generalizing i remaining with
  | zero => simp [splitLoop]
  | succ rounds ih =>
    have hsucc : (rounds + 1) * minAmount = rounds * minAmount + minAmount := Nat.succ_mul _ _
    simp only [splitLoop, List.sum_cons]
    rcases Nat.lt_or_ge remaining ((rounds + 1) * minAmount) with hless | hle
    · have hreserve : wrappingMul minAmount (rounds + 1) = (rounds + 1) * minAmount := by
        rw [wrappingMul_of_lt] <;> rw [Nat.mul_comm]
        exact hmin
      have horder : orderAmount seed minAmount i (rounds + 2) remaining = minAmount := by
        unfold orderAmount
        simp only [Nat.add_succ_sub_one, hreserve]
        rw [if_pos (by omega)]
      rw [horder, ih] <;> omega
    · have horder : orderAmount seed minAmount i (rounds + 2) remaining + rounds * minAmount ≤
          remaining := orderAmount_add_le hlt hle
      rw [ih] <;> omega

/-- The minimum of an order is at most the average, or one. -/
theorem minOrder_le (totalAmount splitCount : ℕ) :
    minOrder totalAmount splitCount ≤ max 1 (totalAmount / splitCount) := by
  have h := wrappingMul_le (totalAmount / splitCount) minPercent
  simp only [minOrder, minPercent] at h ⊢
  omega

/-- The amount has the minimum for all orders but the last exactly if it has one unit for each
of them. -/
theorem mul_minOrder_le_iff (totalAmount : ℕ) {splitCount : ℕ} (hn : 1 < splitCount) :
    (splitCount - 1) * minOrder totalAmount splitCount ≤ totalAmount ↔
      splitCount - 1 ≤ totalAmount := by
  have hone : 1 ≤ minOrder totalAmount splitCount := Nat.le_max_left _ _
  have hmin := minOrder_le totalAmount splitCount
  have havg : splitCount * (totalAmount / splitCount) ≤ totalAmount := Nat.mul_div_le _ _
  constructor
  · intro h
    exact (Nat.le_mul_of_pos_right _ hone).trans h
  · intro h
    rcases Nat.le_total (totalAmount / splitCount) 1 with hsmall | hlarge
    · have heq : minOrder totalAmount splitCount = 1 := by omega
      rwa [heq, Nat.mul_one]
    · calc (splitCount - 1) * minOrder totalAmount splitCount
          ≤ splitCount * (totalAmount / splitCount) :=
            Nat.mul_le_mul (Nat.sub_le _ _) (by omega)
        _ ≤ totalAmount := havg

/-- The orders add up to the amount, or to one unit for all but the last, if that is more. -/
theorem sum_splitAmount (env : Env) {totalAmount splitCount : ℕ} (hpos : 0 < totalAmount)
    (htotal : totalAmount < 2 ^ 128) (hcount : splitCount < 2 ^ 64) :
    (splitAmount env totalAmount splitCount).sum = max totalAmount (splitCount - 1) := by
  unfold splitAmount
  split_ifs with h
  · rw [List.sum_singleton]
    omega
  · push Not at h
    have hiff := mul_minOrder_le_iff totalAmount h.1
    rcases Nat.lt_or_ge totalAmount (splitCount - 1) with hless | hle
    · have hmin : minOrder totalAmount splitCount = 1 := by
        have hzero : totalAmount / splitCount = 0 := Nat.div_eq_of_lt (by omega)
        simp [minOrder, hzero, wrappingMul]
      rw [sum_splitLoop htotal] <;> rw [hmin]
      · omega
      · omega
    · have hmin := hiff.2 hle
      rw [sum_splitLoop htotal] <;> omega

/-- The orders add up to the amount exactly if there is a unit for each of them but the last,
or nothing to split. -/
theorem sum_splitAmount_iff (env : Env) {totalAmount splitCount : ℕ}
    (htotal : totalAmount < 2 ^ 128) (hcount : splitCount < 2 ^ 64) :
    (splitAmount env totalAmount splitCount).sum = totalAmount ↔
      totalAmount = 0 ∨ splitCount ≤ totalAmount + 1 := by
  rcases Nat.eq_zero_or_pos totalAmount with rfl | hpos
  · simp [splitAmount]
  · rw [sum_splitAmount env hpos htotal hcount]
    omega

end HunterFi
