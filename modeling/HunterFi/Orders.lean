import HunterFi.BuyBack

/-!
# The orders of a split

`splitsExactly_iff` : the orders of a split add up to the amount, and the stages submit it,
exactly if the amount is zero or has a unit for each order but the last. The assertion of
`split_amount` that they do is not in a release build.

`Reserved` is the invariant of the loop : the minimum is left for each order that is still to
come and has been taken for each order before. With it every order is between the minimum and
what the minimum of the others leaves, and `splitAmountChecked`, the same computation with
arithmetic that fails instead of wrapping or saturating, never fails.
-/

set_option linter.unusedSectionVars false

namespace HunterFi

/-! ## Exact splits -/

/-- What a handler sells in the turn `t`. -/
def SelfHedging.soldIn {α : Type} (t : Async.Turn Env Memory Reply) (p : Handler α) : ℕ :=
  sold (Async.batches [t] p).flatten

/-- The orders of a split add up to the amount, and it is what either stage submits for it. -/
structure SplitsExactly (env : Env) (totalAmount splitCount : ℕ) : Prop where
  sum : (splitAmount env totalAmount splitCount).sum = totalAmount
  stageOne : ∀ (params : TradeParams) (pool : PoolInfo) (split : Bool)
    (t : Async.Turn Env Memory Reply), SelfHedging.soldIn t
      (SelfHedging.stageOne params pool split (splitAmount env totalAmount splitCount)) =
        totalAmount
  stageTwo : splitCount = getSplitOrderCount env → ∀ (params : TradeParams)
    (pool : PoolInfo) (volume : ℕ) (t : Async.Turn Env Memory Reply), t.env = env →
      SelfHedging.soldIn t (SelfHedging.stageTwo params pool true totalAmount volume) =
        totalAmount

namespace SelfHedging

open Icpswap

variable {params : TradeParams} {pool : PoolInfo} {t : Async.Turn Env Memory Reply}

theorem soldIn_ret {α : Type} (a : α) : soldIn t (.ret a : Handler α) = 0 :=
  rfl

/-- The orders of a list sell what its amounts add up to. -/
theorem soldIn_joinAll {α : Type} (amounts : List ℕ)
    (q : List (Except ExchangeError TradeResult) → Handler α) :
    soldIn t ((Async.joinAll (trades params pool (orders amounts)) : Handler _).bind q) =
      amounts.sum := by
  rw [← sold_trades params pool amounts, soldIn, Async.joinAll, Async.bind, Async.batches_call,
    Async.batches_nil]
  simp

/-- Without orders the amounts add up to nothing. -/
theorem sum_of_orders_isEmpty {amounts : List ℕ} (h : (orders amounts).isEmpty) :
    amounts.sum = 0 := by
  rw [← sold_trades default default amounts, List.isEmpty_iff.1 h]
  rfl

/-- A stage 1 sells what its amounts add up to. -/
theorem soldIn_stageOne (split : Bool) {amounts : List ℕ} (hlt : amounts.sum < 2 ^ 128) :
    soldIn t (stageOne params pool split amounts) = amounts.sum := by
  simp only [stageOne, wrappingSum_eq, Nat.mod_eq_of_lt hlt]
  split_ifs with hsplit hos hpos
  · rw [sum_of_orders_isEmpty hos, soldIn_ret]
  · exact soldIn_joinAll amounts _
  · rw [Async.bind_eq, Async.run_mapError_bind]
    simp [soldIn, sold, sold_trade]
  · rw [soldIn_ret]
    omega

/-- A stage 2 that is split sells what the orders add up to. -/
theorem soldIn_stageTwo (total volume : ℕ) :
    soldIn t (stageTwo params pool true total volume) =
      (splitAmount t.env total (getSplitOrderCount t.env)).sum := by
  simp only [stageTwo, if_true, Async.bind_eq, soldIn, Async.batches_env_bind]
  split_ifs with hos
  · rw [sum_of_orders_isEmpty hos, Async.batches_ret]
    rfl
  · exact soldIn_joinAll _ _

end SelfHedging

/-- A split is exact exactly if there is nothing to split, or a unit for each order but the
last. -/
theorem splitsExactly_iff (env : Env) {totalAmount splitCount : ℕ}
    (htotal : totalAmount < 2 ^ 128) (hcount : splitCount < 2 ^ 64) :
    SplitsExactly env totalAmount splitCount ↔ totalAmount = 0 ∨ splitCount ≤ totalAmount + 1 := by
  rw [← sum_splitAmount_iff env htotal hcount]
  refine ⟨SplitsExactly.sum, fun hsum => ⟨hsum, fun params pool split t => ?_, ?_⟩⟩
  · rw [SelfHedging.soldIn_stageOne split (hsum.symm ▸ htotal), hsum]
  · rintro rfl params pool volume t rfl
    rw [SelfHedging.soldIn_stageTwo, hsum]

/-- Three orders of 10. -/
theorem splitsExactly_iff_ten : SplitsExactly default 10 3 :=
  (splitsExactly_iff default (by decide) (by decide)).2 (Or.inr (by decide))

/-- Three orders of 1 are two of 1 and an empty one. -/
theorem not_splitsExactly_one :
    splitAmount default 1 3 = [1, 1, 0] ∧ ¬SplitsExactly default 1 3 := by
  refine ⟨by decide, fun h => ?_⟩
  have := h.sum
  revert this
  decide

/-! ## The computation without overflow -/

/-- `a + b`, if it fits in a `u128`. -/
def checkedAdd (a b : ℕ) : Option ℕ :=
  if a + b < 2 ^ 128 then some (a + b) else none

/-- `a * b`, if it fits in a `u128`. -/
def checkedMul (a b : ℕ) : Option ℕ :=
  if a * b < 2 ^ 128 then some (a * b) else none

/-- `a - b`, if it is not below zero. -/
def checkedSub (a b : ℕ) : Option ℕ :=
  if b ≤ a then some (a - b) else none

/-- `orderAmount` with arithmetic that fails. -/
def orderAmountChecked (seed minAmount i splits remaining : ℕ) : Option ℕ := do
  let maxForCurrent ← checkedSub remaining (← checkedMul minAmount (← checkedSub splits 1))
  if maxForCurrent ≤ minAmount then return minAmount
  else
    let mixed ← checkedAdd (← checkedAdd seed (← checkedMul i 7919))
      (← checkedMul (seed % (← checkedAdd i 1)) 104729)
    let randomRange ← checkedSub maxForCurrent minAmount
    checkedAdd minAmount ((← checkedMul (mixed % 101) randomRange) / 100)

/-- `splitLoop` with arithmetic that fails. -/
def splitLoopChecked (seed minAmount : ℕ) : ℕ → ℕ → ℕ → Option (List ℕ)
  | 0, _, remaining => some [remaining]
  | rounds + 1, i, remaining => do
    let amount ← orderAmountChecked seed minAmount i (rounds + 2) remaining
    let rest ← splitLoopChecked seed minAmount rounds (i + 1) (← checkedSub remaining amount)
    return amount :: rest

/-- `splitAmount` with arithmetic that fails. -/
def splitAmountChecked (env : Env) (totalAmount splitCount : ℕ) : Option (List ℕ) :=
  if splitCount ≤ 1 ∨ totalAmount = 0 then some [totalAmount]
  else do
    let minAmount := max 1 ((← checkedMul (totalAmount / splitCount) minPercent) / 100)
    splitLoopChecked env.time minAmount (← checkedSub splitCount 1) 0 totalAmount

variable {a b : ℕ}

theorem checkedAdd_of_lt (h : a + b < 2 ^ 128) : checkedAdd a b = some (a + b) :=
  if_pos h

theorem checkedMul_of_lt (h : a * b < 2 ^ 128) : checkedMul a b = some (a * b) :=
  if_pos h

theorem checkedSub_of_le (h : b ≤ a) : checkedSub a b = some (a - b) :=
  if_pos h

/-- Arithmetic that does not fail gives what the code computes. -/
theorem wrappingAdd_of_checked {c : ℕ} (h : checkedAdd a b = some c) : wrappingAdd a b = c := by
  unfold checkedAdd at h
  split_ifs at h with hlt
  rw [wrappingAdd_of_lt hlt, Option.some.inj h]

theorem wrappingMul_of_checked {c : ℕ} (h : checkedMul a b = some c) : wrappingMul a b = c := by
  unfold checkedMul at h
  split_ifs at h with hlt
  rw [wrappingMul_of_lt hlt, Option.some.inj h]

theorem sub_of_checked {c : ℕ} (h : checkedSub a b = some c) : a - b = c := by
  unfold checkedSub at h
  split_ifs at h
  exact Option.some.inj h

theorem orderAmount_of_checked {seed minAmount i splits remaining amount : ℕ}
    (h : orderAmountChecked seed minAmount i splits remaining = some amount) :
    orderAmount seed minAmount i splits remaining = amount := by
  unfold orderAmountChecked at h
  simp only [Option.bind_eq_bind, Option.bind_eq_some_iff] at h
  obtain ⟨before, hbefore, reserve, hreserve, maxForCurrent, hmax, h⟩ := h
  unfold orderAmount
  rw [sub_of_checked hbefore, wrappingMul_of_checked hreserve, sub_of_checked hmax]
  dsimp only
  split_ifs at h ⊢ with hle
  · exact Option.some.inj h
  · simp only [Option.bind_eq_some_iff] at h
    obtain ⟨index, hindex, sum, hsum, next, hnext, product, hproduct, mixed, hmixed, range, hrange,
      share, hshare, h⟩ := h
    have hnext : i + 1 = next := by
      unfold checkedAdd at hnext
      split_ifs at hnext
      exact Option.some.inj hnext
    rw [wrappingMul_of_checked hindex, wrappingAdd_of_checked hsum, hnext,
      wrappingMul_of_checked hproduct, wrappingAdd_of_checked hmixed, sub_of_checked hrange,
      wrappingMul_of_checked hshare, wrappingAdd_of_checked h]

theorem splitLoop_of_checked {seed minAmount : ℕ} (rounds : ℕ) :
    ∀ {i remaining : ℕ} {amounts : List ℕ},
      splitLoopChecked seed minAmount rounds i remaining = some amounts →
        splitLoop seed minAmount rounds i remaining = amounts := by
  induction rounds with
  | zero => exact fun h => Option.some.inj h
  | succ rounds ih =>
    intro i remaining amounts h
    simp only [splitLoopChecked, Option.bind_eq_bind, Option.bind_eq_some_iff] at h
    obtain ⟨amount, hamount, left, hleft, rest, hrest, h⟩ := h
    simp only [splitLoop, orderAmount_of_checked hamount]
    rw [sub_of_checked hleft, ih hrest]
    exact Option.some.inj h

theorem splitAmount_of_checked {env : Env} {totalAmount splitCount : ℕ} {amounts : List ℕ}
    (h : splitAmountChecked env totalAmount splitCount = some amounts) :
    splitAmount env totalAmount splitCount = amounts := by
  unfold splitAmountChecked at h
  unfold splitAmount
  split_ifs at h ⊢
  · exact Option.some.inj h
  · simp only [Option.bind_eq_bind, Option.bind_eq_some_iff] at h
    obtain ⟨percent, hpercent, rounds, hrounds, h⟩ := h
    rw [minOrder, wrappingMul_of_checked hpercent, sub_of_checked hrounds]
    exact splitLoop_of_checked rounds h

/-! ## The size of the orders -/

/-- Before the `i`-th order, with `rounds` orders and the last one to come : the minimum is
left for each of these, and has been taken for each order before. -/
structure Reserved (minAmount total i rounds remaining : ℕ) : Prop where
  left : (rounds + 1) * minAmount ≤ remaining
  taken : remaining + i * minAmount ≤ total

variable {seed minAmount total i rounds remaining : ℕ}

/-- The pseudo-random number of an order is computed without overflow. -/
theorem mixed_lt (hseed : seed < 2 ^ 64) (hi : i < 2 ^ 64) :
    i * 7919 < 2 ^ 128 ∧ seed % (i + 1) * 104729 < 2 ^ 128 ∧ seed + i * 7919 < 2 ^ 128 ∧
      seed + i * 7919 + seed % (i + 1) * 104729 < 2 ^ 128 := by
  have hmod : seed % (i + 1) * 104729 ≤ seed * 104729 :=
    Nat.mul_le_mul_right _ (Nat.mod_le _ _)
  omega

/-- A percentage of a range. -/
theorem share_le {factor range : ℕ} (hfactor : factor ≤ 100) : factor * range / 100 ≤ range :=
  Nat.div_le_of_le_mul (Nat.mul_le_mul_right _ hfactor)

/-- The arithmetic of one order does not fail, and the order is between the minimum and what is
left above the minimum of the orders after it. -/
theorem Reserved.order (h : Reserved minAmount total i (rounds + 1) remaining)
    (hseed : seed < 2 ^ 64) (hi : i < 2 ^ 64) (htotal : total ≤ u128Max / 100) :
    ∃ amount, orderAmountChecked seed minAmount i (rounds + 2) remaining = some amount ∧
      minAmount ≤ amount ∧ amount + (rounds + 1) * minAmount ≤ remaining := by
  obtain ⟨hleft, htaken⟩ := h
  have hsmall : remaining ≤ u128Max / 100 := by omega
  unfold u128Max at hsmall
  have hsucc : (rounds + 1 + 1) * minAmount = (rounds + 1) * minAmount + minAmount :=
    Nat.succ_mul _ _
  have hreserve : minAmount * (rounds + 1) < 2 ^ 128 := by
    rw [Nat.mul_comm]
    omega
  have hsplits : checkedSub (rounds + 2) 1 = some (rounds + 1) := rfl
  unfold orderAmountChecked
  simp only [hsplits, checkedMul_of_lt hreserve, Option.bind_eq_bind, Option.bind_some]
  rw [Nat.mul_comm minAmount, checkedSub_of_le (by omega), Option.bind_some]
  split_ifs with hmax
  · exact ⟨minAmount, rfl, le_rfl, by omega⟩
  · obtain ⟨hindex, hmod, hsum, hmixed⟩ := mixed_lt hseed hi
    have hnext : i + 1 < 2 ^ 128 := by omega
    rw [checkedMul_of_lt hindex, Option.bind_some, checkedAdd_of_lt hsum, Option.bind_some,
      checkedAdd_of_lt hnext, Option.bind_some, checkedMul_of_lt hmod, Option.bind_some,
      checkedAdd_of_lt hmixed, Option.bind_some, checkedSub_of_le (by omega), Option.bind_some]
    generalize hrange : remaining - (rounds + 1) * minAmount - minAmount = range
    have hfactor := Nat.mod_lt (seed + i * 7919 + seed % (i + 1) * 104729) (y := 101) (by decide)
    generalize (seed + i * 7919 + seed % (i + 1) * 104729) % 101 = factor at hfactor
    have hproduct : factor * range ≤ 100 * range := Nat.mul_le_mul_right _ (by omega)
    have hshare : factor * range / 100 ≤ range := share_le (by omega)
    have hfits : factor * range < 2 ^ 128 := by omega
    rw [checkedMul_of_lt hfits, Option.bind_some, checkedAdd_of_lt (by omega)]
    exact ⟨_, rfl, by omega, by omega⟩

/-- The invariant after an order. -/
theorem Reserved.next {amount : ℕ} (h : Reserved minAmount total i (rounds + 1) remaining)
    (hmin : minAmount ≤ amount) (hmax : amount + (rounds + 1) * minAmount ≤ remaining) :
    Reserved minAmount total (i + 1) rounds (remaining - amount) := by
  have htaken := h.taken
  have hsucc : (i + 1) * minAmount = i * minAmount + minAmount := Nat.succ_mul _ _
  exact ⟨by omega, by omega⟩

/-- No arithmetic fails, and every order is at least the minimum and leaves it for all the
others. -/
theorem splitLoop_sensible (hseed : seed < 2 ^ 64) (htotal : total ≤ u128Max / 100) :
    ∀ {rounds i remaining : ℕ}, Reserved minAmount total i rounds remaining →
      i + rounds < 2 ^ 64 →
      ∃ amounts, splitLoopChecked seed minAmount rounds i remaining = some amounts ∧
        ∀ amount ∈ amounts, minAmount ≤ amount ∧ amount + (i + rounds) * minAmount ≤ total := by
  intro rounds
  induction rounds with
  | zero =>
    intro i remaining h hi
    have hleft := h.left
    refine ⟨[remaining], rfl, List.forall_mem_singleton.2 ⟨by omega, h.taken⟩⟩
  | succ rounds ih =>
    intro i remaining h hi
    obtain ⟨amount, horder, hmin, hmax⟩ := h.order hseed (by omega) htotal
    obtain ⟨rest, hrest, hbounds⟩ := ih (h.next hmin hmax) (by omega)
    have hplaces : i + 1 + rounds = i + (rounds + 1) := by omega
    refine ⟨amount :: rest, ?_, List.forall_mem_cons.2 ⟨⟨hmin, ?_⟩, hplaces ▸ hbounds⟩⟩
    · simp only [splitLoopChecked, horder, Option.bind_eq_bind, Option.bind_some]
      rw [checkedSub_of_le (by omega), Option.bind_some, hrest]
      rfl
    · calc amount + (i + (rounds + 1)) * minAmount
          = amount + (rounds + 1) * minAmount + i * minAmount := by rw [Nat.add_mul]; omega
        _ ≤ remaining + i * minAmount := Nat.add_le_add_right hmax _
        _ ≤ total := h.taken

theorem length_splitLoop (rounds : ℕ) : ∀ i remaining,
    (splitLoop seed minAmount rounds i remaining).length = rounds + 1 := by
  induction rounds with
  | zero => exact fun _ _ => rfl
  | succ rounds ih => exact fun i remaining => congrArg (· + 1) (ih _ _)

/-- A split of at least one unit for each order has as many orders as asked for, each at least
a tenth of the average and leaving as much for all the others, and its arithmetic neither
overflows nor is cut off at zero. -/
theorem splitAmount_sensible (env : Env) {totalAmount splitCount : ℕ} (hn : 2 ≤ splitCount)
    (hunits : splitCount ≤ totalAmount) (htotal : totalAmount ≤ u128Max / 100)
    (htime : env.time < 2 ^ 64) (hcount : splitCount < 2 ^ 64) :
    (splitAmount env totalAmount splitCount).length = splitCount ∧
      (∀ amount ∈ splitAmount env totalAmount splitCount,
        max 1 (totalAmount / splitCount * 10 / 100) ≤ amount ∧
        amount ≤ totalAmount - (splitCount - 1) * max 1 (totalAmount / splitCount * 10 / 100)) ∧
      splitAmountChecked env totalAmount splitCount =
        some (splitAmount env totalAmount splitCount) := by
  have havg : splitCount * (totalAmount / splitCount) ≤ totalAmount := Nat.mul_div_le _ _
  have hpos : 1 ≤ totalAmount / splitCount := (Nat.one_le_div_iff (by omega)).2 hunits
  have hself : totalAmount / splitCount ≤ totalAmount := Nat.div_le_self _ _
  have hpercent : totalAmount / splitCount * minPercent < 2 ^ 128 := by
    unfold u128Max at htotal
    unfold minPercent
    omega
  have hmin : minOrder totalAmount splitCount = max 1 (totalAmount / splitCount * 10 / 100) := by
    rw [minOrder, wrappingMul_of_lt hpercent, minPercent]
  have hchecked : splitAmountChecked env totalAmount splitCount =
      splitLoopChecked env.time (minOrder totalAmount splitCount) (splitCount - 1) 0
        totalAmount := by
    rw [splitAmountChecked, if_neg (by omega), minOrder, wrappingMul_of_lt hpercent,
      checkedMul_of_lt hpercent, checkedSub_of_le (by omega)]
    rfl
  have hreserved : Reserved (minOrder totalAmount splitCount) totalAmount 0 (splitCount - 1)
      totalAmount := by
    refine ⟨?_, by omega⟩
    calc (splitCount - 1 + 1) * minOrder totalAmount splitCount
        = splitCount * minOrder totalAmount splitCount := by rw [Nat.sub_add_cancel (by omega)]
      _ ≤ splitCount * (totalAmount / splitCount) := Nat.mul_le_mul_left _ (by omega)
      _ ≤ totalAmount := havg
  obtain ⟨amounts, hloop, hbounds⟩ := splitLoop_sensible htime htotal hreserved (by omega)
  have hsplit : splitAmount env totalAmount splitCount = amounts :=
    splitAmount_of_checked (hchecked.trans hloop)
  rw [hchecked, hloop, hsplit, ← hmin]
  refine ⟨?_, fun amount hamount => ?_, rfl⟩
  · rw [← splitLoop_of_checked _ hloop, length_splitLoop]
    omega
  · obtain ⟨hlow, hhigh⟩ := hbounds amount hamount
    rw [Nat.zero_add] at hhigh
    exact ⟨hlow, by omega⟩

/-- Ten orders of 1000. -/
theorem splitAmount_sensible_ten :
    splitAmountChecked default 1000 10 = some (splitAmount default 1000 10) :=
  (splitAmount_sensible default (by decide) (by decide) (by decide) (by decide)
    (by decide)).2.2

end HunterFi
