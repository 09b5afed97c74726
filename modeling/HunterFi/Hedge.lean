import HunterFi.SelfHedging

/-!
# Hedge trades

`execute_hedge_trades` : stage 1 sells the hold token in one order or several, stage 2 sells
what stage 1 brought in to buy the hold token back. The orders of a split are submitted
together and awaited together, so all of them have run when the first result is looked at.
-/

set_option linter.unusedSectionVars false

namespace HunterFi

namespace SelfHedging

open Icpswap

/-! ## Orders -/

/-- `saturating_add` on `u128`. -/
def addVolume (a b : ℕ) : ℕ :=
  min (a + b) u128Max

/-- The orders of a split with their places : those of amount zero are skipped. -/
def orders (amounts : List ℕ) : List (ℕ × ℕ) :=
  amounts.zipIdx.filter fun o => o.1 ≠ 0

/-- The trades of a list of orders. -/
def trades (params : TradeParams) (pool : PoolInfo) (os : List (ℕ × ℕ)) :
    List (Async.Job Call Reply ExchangeError TradeResult) :=
  os.map fun o => executeCallTradeNoSlippage { params with amount := o.1 } pool

/-- The volume and the outputs of the split orders of stage 1, unless one of them failed. -/
def collectOutputs : List ((ℕ × ℕ) × Except ExchangeError TradeResult) → ℕ → List ℕ →
    Except String (ℕ × List ℕ)
  | [], volume, outputs => .ok (volume, outputs)
  | (_, .ok result) :: rest, volume, outputs =>
    collectOutputs rest (addVolume volume result.inputAmount) (outputs ++ [result.outputAmount])
  | ((amount, i), .error e) :: _, _, _ =>
    .error ("Stage 1 trade failed (Split order #" ++ toString (i + 1) ++ ", Amount " ++
      toString amount ++ "): " ++ e.debug)

/-- The volume of the split orders of stage 2. One that failed is passed over. -/
def collectVolume (results : List (Except ExchangeError TradeResult)) (volume : ℕ) : ℕ :=
  results.foldl (fun volume result => match result with
    | .ok result => addVolume volume result.inputAmount
    | .error _ => volume) volume

/-! ## The stages -/

/-- The first stage is split. -/
def shouldSplitFirst (splitType : OrderSplitType) (holdTokenIsBase : Bool) : Bool :=
  match splitType with
  | .noSplit => false
  | .splitBuy => !holdTokenIsBase
  | .splitSell => holdTokenIsBase
  | .splitBoth => true

/-- The second stage, which trades in `direction`, is split. -/
def shouldSplitSecond (splitType : OrderSplitType) (direction : TradeDirection) : Bool :=
  match splitType with
  | .noSplit => false
  | .splitBuy => direction = .buy
  | .splitSell => direction = .sell
  | .splitBoth => true

/-- Stage 1 : its volume and its outputs. -/
def stageOne (params : TradeParams) (pool : PoolInfo) (split : Bool) (amounts : List ℕ) :
    Handler (ℕ × List ℕ) :=
  if split then
    let os := orders amounts
    if os.isEmpty then .ret (0, [])
    else do
      let results ← .joinAll (trades params pool os)
      .ofExcept (collectOutputs (os.zip results) 0 [])
  else
    let total := wrappingSum amounts
    if 0 < total then do
      let result ← (executeCallTradeNoSlippage { params with amount := total } pool).run.mapError
        fun e => "Stage 1 trade failed (Single order): " ++ e.debug
      return (addVolume 0 result.inputAmount, [result.outputAmount])
    else .ret (0, [])

/-- Stage 2 : the volume of both stages. -/
def stageTwo (params : TradeParams) (pool : PoolInfo) (split : Bool) (total volume : ℕ) :
    Handler ℕ :=
  if split then do
    let env ← .env
    let os := orders (splitAmount env total (getSplitOrderCount env))
    if os.isEmpty then .ret volume
    else do
      let results ← .joinAll (trades params pool os)
      return collectVolume results volume
  else if 0 < total then do
    let result ← (executeCallTradeNoSlippage { params with amount := total } pool).run.mapError
      fun e => "Stage 2 trade failed (Single order): " ++ e.debug
    return addVolume volume result.inputAmount
  else .ret volume

/-- What follows stage 1, given its volume and its outputs. -/
def afterStageOne (host : Host) (params : TradeParams) (pool : PoolInfo)
    (splitType : OrderSplitType) (volume : ℕ) (outputs : List ℕ) : Handler ℕ :=
  let total := wrappingSum outputs
  if total = 0 then do
    let _ ← (checkIcpswapBalance host).attempt
    return volume
  else do
    let direction := params.direction.reverse
    let volume ← stageTwo { params with direction := direction } pool
      (shouldSplitSecond splitType direction) total volume
    let _ ← (checkIcpswapBalance host).attempt
    return volume

/-- `execute_hedge_trades`. -/
def executeHedgeTrades (host : Host) (initialDirection : TradeDirection)
    (initialSplitAmounts : List ℕ) (splitType : OrderSplitType) : Handler ℕ := do
  let m ← .get
  let config := m.state.config
  let params := createTradeParams config
  let pool ← (getPoolInfo host params.baseToken params.quoteToken).run.mapError fun e =>
    "Failed to get pool info: " ++ e.text
  let params := { params with direction := initialDirection }
  let (volume, outputs) ← stageOne params pool
    (shouldSplitFirst splitType (holdTokenIsBase config)) initialSplitAmounts
  afterStageOne host params pool splitType volume outputs

end SelfHedging

end HunterFi
