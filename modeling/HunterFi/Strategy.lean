import HunterFi.Hedge

/-!
# The strategy canister

The handlers of a self-hedging strategy that await calls, and the canister as a state
machine. A `Waiting` is a handler between two segments : who called it, what it awaits and
how it goes on. An event is a message, a tick of the execution timer, the replies to a
waiting handler, or an upgrade, which drops the heap with everything that waits. Messages
and replies come in any order. The replies to the calls of one `join_all` are a single event :
the handler goes on when the last of them is there. Replies to a handler that an upgrade has
dropped reach none, and are no event. An upgrade may find calls in flight here, as nothing in the
source stops a strategy canister first, which the operator of the factory does (`System`).

`start` is an inquiry and what follows it (`start_eq`), a cycle of an execution its trades and
the record of their volume (`executionCycle_eq`). `changes_start` and its neighbours say for
each handler what it may do to the memory.
-/

set_option linter.unusedSectionVars false

namespace HunterFi

namespace SelfHedging

open Icpswap

/-! ## Start and execution -/

/-- `start`. -/
def start (host : Host) : Handler Unit := do
  .check (verifyOwner host)
  .check fun _ => verifyStatus [.created, .paused, .terminated]
  let m ← .get
  let config := m.state.config
  let baseToken := createTokenInfo config.tradingPair.baseToken
  let quoteToken := createTokenInfo config.tradingPair.quoteToken
  let pool ← (getPoolInfo host baseToken quoteToken).run.mapError fun e =>
    "Failed to get pool info: " ++ e.debug
  let (baseBalance, quoteBalance) ← (checkIcpswapBalance host).mapError fun e =>
    "Failed to check exchange balance: " ++ e
  if baseBalance = 0 ∧ quoteBalance = 0 then
    .fail "No balance available in ICPSwap. Please deposit tokens first."
  else do
    let holdToken := if config.holdToken = baseToken.canisterId then baseToken else quoteToken
    (approveToken holdToken pool.poolId u128Max).mapError fun e =>
      "Failed to approve base token: " ++ e.debug
    .modify fun _ m =>
      { m with timers := m.timers.setTimer executionTimerId config.checkIntervalSecs }
    .modify fun _ m => m.withState fun s => { s with status := .running }

/-- `update_state_after_execution`. The counters wrap. -/
def updateStateAfterExecution (volume : ℕ) (env : Env) (m : Memory) : Memory :=
  m.withState fun s =>
    { s with
      executionCount := (s.executionCount + 1) % 2 ^ 64
      lastExecution := some env.time
      volumeGenerated := wrappingAdd s.volumeGenerated volume }

/-- The cooldown between two executions, in nanoseconds. -/
def cooldownNs : ℕ :=
  5000000000

/-- `execute_once` while it holds the flag. -/
def executionCycle (host : Host) : Handler Unit := do
  let m ← .get
  let state := m.state
  let config := state.config
  let env ← .env
  if state.lastExecution.any fun t => env.time < saturatingAdd t cooldownNs then
    .fail "Previous execution may still be in progress"
  else do
    let (baseBalance, quoteBalance) ← (checkIcpswapBalance host).mapError fun e =>
      "Failed to check exchange balance: " ++ e
    let balance := if holdTokenIsBase config then baseBalance else quoteBalance
    let symbol := if holdTokenIsBase config then config.tradingPair.baseToken.symbol
      else config.tradingPair.quoteToken.symbol
    let shortage := symbol ++ " balance (" ++ toString balance ++ ") < 5% of transaction size (" ++
      toString state.transactionSize ++ ")"
    if balance < state.transactionSize / 20 then do
      let paused ← (Async.update (pause host)).attempt
      match paused with
      | .ok () => .fail ("Strategy paused: insufficient " ++ shortage ++ ".")
      | .error e => .fail ("Insufficient " ++ shortage ++ ", but failed to pause: " ++ e)
    else
      let amount := if state.transactionSize ≤ balance then state.transactionSize else balance
      if amount = 0 then .ret ()
      else do
        let direction := if holdTokenIsBase config then .sell else .buy
        let env ← .env
        let amounts := splitAmount env amount (getSplitOrderCount env)
        let volume ←
          (executeHedgeTrades host direction amounts state.orderSplitType).mapError fun e =>
            "Failed to execute hedge trades: " ++ e
        .modify (updateStateAfterExecution volume)

/-- `execute_once`. The guard clears the flag however the cycle ends. -/
def executeOnce (host : Host) : Handler Unit := do
  .check fun _ => verifyStatus [.running]
  let m ← .get
  if m.executionInProgress then .fail "Previous execution still in progress"
  else do
    .modify fun _ m => { m with executionInProgress := true }
    let result ← (executionCycle host).attempt
    .modify fun _ m => { m with executionInProgress := false }
    .ofExcept result

/-! ## Deposits and withdrawals at the exchange -/

/-- The token that a `token_type` names. -/
def tokenOf (params : TradeParams) (tokenType : String) : Except String TokenInfo :=
  if tokenType.toLower = "base" then .ok params.baseToken
  else if tokenType.toLower = "quote" then .ok params.quoteToken
  else .error "Invalid token type. Must be 'base' or 'quote'"

/-- `deposit_to_exchange`. -/
def depositToExchange (host : Host) (tokenType : String) (amount : ℕ) : Handler Unit := do
  .check (verifyOwner host)
  let m ← .get
  let params := createTradeParams m.state.config
  let token ← .ofExcept (tokenOf params tokenType)
  let _ ← (depositToken params token amount).mapError fun e =>
    "Failed to deposit token: " ++ e.debug
  let _ ← (checkIcpswapBalance host).attempt
  .ret ()

/-- `withdraw_from_exchange`. -/
def withdrawFromExchange (host : Host) (tokenType : String) (amount : ℕ) : Handler Unit := do
  .check (verifyOwner host)
  let m ← .get
  let params := createTradeParams m.state.config
  let token ← .ofExcept (tokenOf params tokenType)
  let (baseBalance, quoteBalance) ← (checkIcpswapBalance host).mapError fun e =>
    "Failed to check exchange balance: " ++ e
  let available := if tokenType.toLower = "base" then baseBalance else quoteBalance
  if available < amount then
    .fail ("Insufficient unused balance. Available: " ++ toString available ++ ", Requested: " ++
      toString amount)
  else do
    let _ ← (withdrawToken params token amount).mapError fun e =>
      "Failed to withdraw token: " ++ e.debug
    let _ ← (checkIcpswapBalance host).attempt
    .ret ()

/-- `refresh_balance`. -/
def refreshBalance (host : Host) : Handler Unit := do
  let _ ← (checkIcpswapBalance host).mapError fun e => "Failed to refresh balance: " ++ e
  .ret ()

/-! ## Start and execution in parts -/

/-- What `start` approves, and how often the strategy then executes. -/
structure StartPlan where
  token : TokenInfo
  pool : Principal
  secs : ℕ

/-- `start` up to the approval. -/
def startInquiry (host : Host) : Handler StartPlan := do
  .check (verifyOwner host)
  .check fun _ => verifyStatus [.created, .paused, .terminated]
  let m ← .get
  let config := m.state.config
  let baseToken := createTokenInfo config.tradingPair.baseToken
  let quoteToken := createTokenInfo config.tradingPair.quoteToken
  let pool ← (getPoolInfo host baseToken quoteToken).run.mapError fun e =>
    "Failed to get pool info: " ++ e.debug
  let (baseBalance, quoteBalance) ← (checkIcpswapBalance host).mapError fun e =>
    "Failed to check exchange balance: " ++ e
  if baseBalance = 0 ∧ quoteBalance = 0 then
    .fail "No balance available in ICPSwap. Please deposit tokens first."
  else
    let holdToken := if config.holdToken = baseToken.canisterId then baseToken else quoteToken
    .ret ⟨holdToken, pool.poolId, config.checkIntervalSecs⟩

/-- The approval of `start`. -/
def startApproval (plan : StartPlan) : Handler Unit :=
  (approveToken plan.token plan.pool u128Max).mapError fun e =>
    "Failed to approve base token: " ++ e.debug

/-- `start` after the approval. -/
def startRunning (plan : StartPlan) : Handler Unit := do
  .modify fun _ m => { m with timers := m.timers.setTimer executionTimerId plan.secs }
  .modify fun _ m => m.withState fun s => { s with status := .running }

/-- `start` from the approval on. -/
def startConclusion (plan : StartPlan) : Handler Unit :=
  (startApproval plan).bind fun _ => startRunning plan

theorem start_eq (host : Host) : start host = (startInquiry host).bind startConclusion := by
  simp only [start, startInquiry, Async.bind_eq, Async.bind_assoc]
  refine congrArg _ (funext fun _ => congrArg _ (funext fun _ => congrArg _ (funext fun m => ?_)))
  refine congrArg _ (funext fun pool => congrArg _ (funext fun x => ?_))
  split_ifs <;> rfl

/-- `execute_once` from the test of the cooldown up to the call of
`update_state_after_execution`, with the volume that it is called with, if it is. -/
def executionTrades (host : Host) : Handler (Option ℕ) := do
  let m ← .get
  let state := m.state
  let config := state.config
  let env ← .env
  if state.lastExecution.any fun t => env.time < saturatingAdd t cooldownNs then
    .fail "Previous execution may still be in progress"
  else do
    let (baseBalance, quoteBalance) ← (checkIcpswapBalance host).mapError fun e =>
      "Failed to check exchange balance: " ++ e
    let balance := if holdTokenIsBase config then baseBalance else quoteBalance
    let symbol := if holdTokenIsBase config then config.tradingPair.baseToken.symbol
      else config.tradingPair.quoteToken.symbol
    let shortage := symbol ++ " balance (" ++ toString balance ++ ") < 5% of transaction size (" ++
      toString state.transactionSize ++ ")"
    if balance < state.transactionSize / 20 then do
      let paused ← (Async.update (pause host)).attempt
      match paused with
      | .ok () => .fail ("Strategy paused: insufficient " ++ shortage ++ ".")
      | .error e => .fail ("Insufficient " ++ shortage ++ ", but failed to pause: " ++ e)
    else
      let amount := if state.transactionSize ≤ balance then state.transactionSize else balance
      if amount = 0 then .ret none
      else do
        let direction := if holdTokenIsBase config then .sell else .buy
        let env ← .env
        let amounts := splitAmount env amount (getSplitOrderCount env)
        let volume ←
          (executeHedgeTrades host direction amounts state.orderSplitType).mapError fun e =>
            "Failed to execute hedge trades: " ++ e
        .ret (some volume)

/-- `execute_once` after its trades. -/
def record : Option ℕ → Handler Unit
  | none => .ret ()
  | some v => .modify (updateStateAfterExecution v)

theorem executionCycle_eq (host : Host) :
    executionCycle host = (executionTrades host).bind record := by
  simp only [executionCycle, executionTrades, Async.bind_eq, Async.bind_assoc]
  refine congrArg _ (funext fun m => congrArg _ (funext fun env => ?_))
  by_cases hsoon : (m.state.lastExecution.any fun t => env.time < saturatingAdd t cooldownNs) = true
  · rw [if_pos hsoon, if_pos hsoon]
    rfl
  rw [if_neg hsoon, if_neg hsoon, Async.bind_assoc]
  refine congrArg _ (funext fun x => ?_)
  generalize (if holdTokenIsBase m.state.config = true then x.1 else x.2) = balance
  generalize (if holdTokenIsBase m.state.config = true then TradeDirection.sell
    else TradeDirection.buy) = direction
  by_cases hshort : balance < m.state.transactionSize / 20
  · rw [if_pos hshort, if_pos hshort, Async.bind_assoc]
    refine congrArg _ (funext fun paused => ?_)
    cases paused <;> rfl
  rw [if_neg hshort, if_neg hshort]
  generalize (if m.state.transactionSize ≤ balance then m.state.transactionSize else balance) =
    amount
  by_cases hzero : amount = 0
  · rw [if_pos hzero, if_pos hzero]
    rfl
  · rw [if_neg hzero, if_neg hzero, Async.bind_assoc]
    refine congrArg _ (funext fun env => ?_)
    rw [Async.bind_assoc]
    rfl

/-! ## What the handlers change -/

section Changes

variable {R : Env → Memory → Memory → Prop} (hrefl : ∀ env m, R env m m)
  (hbalance : ∀ env m b q, R env m (updateUnusedBalance b q env m)) (host : Host)

include hrefl hbalance

theorem changes_checkIcpswapBalance : (checkIcpswapBalance host).Changes R :=
  .bind (Async.changes_get hrefl) fun _ =>
    .bind (.mapError _ (changes_getUnusedBalance _ _)) fun _ =>
      .bind (Async.changes_modify fun env m => hbalance env m _ _) fun _ => Async.changes_pure _

omit hrefl hbalance in
theorem changes_stageOne (params : TradeParams) (pool : PoolInfo) (split : Bool)
    (amounts : List ℕ) : (stageOne params pool split amounts).Changes R := by
  simp only [stageOne]
  split_ifs
  · exact Async.changes_pure _
  · exact .bind (Async.changes_joinAll _) fun _ => Async.changes_ofExcept _
  · exact .bind (.mapError _ (Async.changes_run _)) fun _ => Async.changes_pure _
  · exact Async.changes_pure _

omit hbalance in
theorem changes_stageTwo (params : TradeParams) (pool : PoolInfo) (split : Bool)
    (total volume : ℕ) : (stageTwo params pool split total volume).Changes R := by
  simp only [stageTwo]
  split_ifs
  · refine .bind (Async.changes_env hrefl) fun env => ?_
    split_ifs
    · exact Async.changes_pure _
    · exact .bind (Async.changes_joinAll _) fun _ => Async.changes_pure _
  · exact .bind (.mapError _ (Async.changes_run _)) fun _ => Async.changes_pure _
  · exact Async.changes_pure _

theorem changes_executeHedgeTrades (direction : TradeDirection) (amounts : List ℕ)
    (splitType : OrderSplitType) :
    (executeHedgeTrades host direction amounts splitType).Changes R := by
  have hcheck := changes_checkIcpswapBalance hrefl hbalance host
  refine .bind (Async.changes_get hrefl) fun m => .bind (.mapError _ (Async.changes_run _))
    fun pool => .bind (changes_stageOne _ _ _ _) fun x => ?_
  simp only [afterStageOne]
  split_ifs
  · exact .bind hcheck.attempt fun _ => Async.changes_pure _
  · exact .bind (changes_stageTwo hrefl _ _ _ _ _) fun _ => .bind hcheck.attempt fun _ =>
      Async.changes_pure _

theorem changes_startInquiry : (startInquiry host).Changes R := by
  refine .bind (Async.changes_check hrefl _) fun _ => .bind (Async.changes_check hrefl _) fun _ =>
    .bind (Async.changes_get hrefl) fun m => .bind (.mapError _ (Async.changes_run _)) fun pool =>
      .bind (.mapError _ (changes_checkIcpswapBalance hrefl hbalance host)) fun x => ?_
  dsimp only
  split_ifs
  · exact .fail _
  all_goals exact .ret _

theorem changes_start
    (htimer : ∀ env (m : Memory) secs,
      R env m { m with timers := m.timers.setTimer executionTimerId secs })
    (hrunning : ∀ env (m : Memory), R env m (m.withState fun s => { s with status := .running })) :
    (start host).Changes R := by
  rw [start_eq]
  exact .bind (changes_startInquiry hrefl hbalance host) fun plan =>
    .bind (.mapError _ (changes_approveToken _ _ _)) fun _ =>
      .bind (Async.changes_modify fun env m => htimer env m _) fun _ =>
        Async.changes_modify hrunning

theorem changes_executionTrades
    (hpause : ∀ env m m', pause host env m = .ok m' → R env m m') :
    (executionTrades host).Changes R := by
  refine .bind (Async.changes_get hrefl) fun m => .bind (Async.changes_env hrefl) fun env => ?_
  dsimp only
  split_ifs
  · exact .fail _
  all_goals
    refine .bind (.mapError _ (changes_checkIcpswapBalance hrefl hbalance host)) fun x => ?_
    split_ifs
    · refine .bind (.attempt (Async.changes_update hrefl hpause)) fun paused => ?_
      cases paused <;> exact .fail _
    all_goals first
      | exact .ret _
      | exact .bind (Async.changes_env hrefl) fun env =>
          .bind (.mapError _ (changes_executeHedgeTrades hrefl hbalance host _ _ _)) fun volume =>
            .ret _

/-- The pause of an execution is right before its failure. -/
theorem commits_executionTrades : (executionTrades host).Commits R := by
  refine .bind (Async.changes_get hrefl) fun m => .bind (Async.changes_env hrefl) fun env => ?_
  dsimp only
  split_ifs
  · exact .changes (.fail _)
  all_goals
    refine .bind (.mapError _ (changes_checkIcpswapBalance hrefl hbalance host)) fun x => ?_
    split_ifs
    · refine .fails fun i s => ?_
      dsimp only
      cases pause host i s <;> exact ⟨_, rfl⟩
    all_goals first
      | exact .changes (.ret _)
      | exact .changes (.bind (Async.changes_env hrefl) fun env =>
          .bind (.mapError _ (changes_executeHedgeTrades hrefl hbalance host _ _ _)) fun volume =>
            .ret _)

theorem changes_executionCycle
    (hpause : ∀ env m m', pause host env m = .ok m' → R env m m')
    (hvolume : ∀ env m volume, R env m (updateStateAfterExecution volume env m)) :
    (executionCycle host).Changes R := by
  rw [executionCycle_eq]
  refine .bind (changes_executionTrades hrefl hbalance host hpause) fun volume => ?_
  cases volume with
  | none => exact .ret _
  | some v => exact Async.changes_modify fun env m => hvolume env m v

theorem changes_executeOnce
    (hflag : ∀ env (m : Memory) flag, R env m { m with executionInProgress := flag })
    (hpause : ∀ env m m', pause host env m = .ok m' → R env m m')
    (hvolume : ∀ env m volume, R env m (updateStateAfterExecution volume env m)) :
    (executeOnce host).Changes R := by
  have hcycle := changes_executionCycle hrefl hbalance host hpause hvolume
  refine .bind (Async.changes_check hrefl _) fun _ => .bind (Async.changes_get hrefl) fun m => ?_
  split_ifs
  · exact .fail _
  · exact .bind (Async.changes_modify fun env m => hflag env m _) fun _ => .bind hcycle.attempt
      fun _ => .bind (Async.changes_modify fun env m => hflag env m _) fun _ =>
        Async.changes_ofExcept _

theorem changes_depositToExchange (tokenType : String) (amount : ℕ) :
    (depositToExchange host tokenType amount).Changes R :=
  .bind (Async.changes_check hrefl _) fun _ => .bind (Async.changes_get hrefl) fun _ =>
    .bind (Async.changes_ofExcept _) fun _ =>
      .bind (.mapError _ (changes_depositToken _ _ _)) fun _ =>
        .bind (.attempt (changes_checkIcpswapBalance hrefl hbalance host)) fun _ =>
          Async.changes_pure _

theorem changes_withdrawFromExchange (tokenType : String) (amount : ℕ) :
    (withdrawFromExchange host tokenType amount).Changes R := by
  have hcheck := changes_checkIcpswapBalance hrefl hbalance host
  refine .bind (Async.changes_check hrefl _) fun _ => .bind (Async.changes_get hrefl) fun _ =>
    .bind (Async.changes_ofExcept _) fun _ => .bind (.mapError _ hcheck) fun x => ?_
  dsimp only
  split_ifs <;> first
    | exact .fail _
    | exact .bind (.mapError _ (changes_withdrawToken _ _ _)) fun _ => .bind hcheck.attempt
        fun _ => Async.changes_pure _

theorem changes_refreshBalance : (refreshBalance host).Changes R :=
  .bind (.mapError _ (changes_checkIcpswapBalance hrefl hbalance host)) fun _ =>
    Async.changes_pure _

end Changes

end SelfHedging

/-! ## The canister -/

/-- An update call of the canister. -/
inductive Message
  | initSelfHedging (owner : Principal) (config : SelfHedgingConfig)
  | start
  | pause
  | stop
  | executeOnce
  | updateVolumeConfig (transactionSize : ℕ) (splitType : OrderSplitType)
  | updateConfig (transactionSize : ℕ) (splitType : OrderSplitType) (checkIntervalSecs : ℕ)
      (slippageTolerance : F64) (holdToken : Principal)
  | depositToExchange (tokenType : String) (amount : ℕ)
  | withdrawFromExchange (tokenType : String) (amount : ℕ)
  | refreshBalance

/-- What the canister does with a message. -/
def Message.handler (host : Host) : Message → SelfHedging.Handler Unit
  | initSelfHedging owner config => .update (SelfHedging.initSelfHedging owner config)
  | start => SelfHedging.start host
  | pause => .update (SelfHedging.pause host)
  | stop => .update (SelfHedging.stop host)
  | executeOnce => SelfHedging.executeOnce host
  | updateVolumeConfig size splitType =>
    .update (SelfHedging.updateVolumeConfig host size splitType)
  | updateConfig size splitType interval slippage holdToken =>
    .update (SelfHedging.updateConfig host size splitType interval slippage holdToken)
  | depositToExchange tokenType amount => SelfHedging.depositToExchange host tokenType amount
  | withdrawFromExchange tokenType amount =>
    SelfHedging.withdrawFromExchange host tokenType amount
  | refreshBalance => SelfHedging.refreshBalance host

/-- A handler that awaits the replies to its calls. -/
structure Waiting where
  caller : Principal
  calls : List Call
  resume : List Reply → SelfHedging.Handler Unit

/-- A strategy canister with the handlers that wait. -/
structure Canister where
  memory : Memory
  waiting : List Waiting

/-- What happens to it. -/
inductive CanisterEvent
  | message (env : Env) (message : Message)
  | timer (time cycles : ℕ)
  | replies (i time cycles : ℕ) (replies : List Reply)
  | upgrade

namespace Canister

/-- A canister once its code is installed. -/
def installed : Canister :=
  ⟨.installed, []⟩

/-- The canister after a segment. -/
def advance (c : Canister) (env : Env) (p : SelfHedging.Handler Unit) : Canister :=
  match p.segment env c.memory with
  | (m, .calls calls resume) => ⟨m, ⟨env.caller, calls, resume⟩ :: c.waiting⟩
  | (m, _) => ⟨m, c.waiting⟩

/-- One event. The canister sends no message to itself but the ticks of its timers. -/
def step (host : Host) (c : Canister) : CanisterEvent → Option Canister
  | .message env message =>
    if env.caller = host.id then none else some (c.advance env (message.handler host))
  | .timer time cycles =>
    if c.memory.timers.live = [] then none
    else some (c.advance ⟨time, host.id, cycles⟩ (SelfHedging.executeOnce host))
  | .replies i time cycles replies =>
    match c.waiting[i]? with
    | none => none
    | some w =>
      if replies.length ≠ w.calls.length then none
      else
        some (advance { c with waiting := c.waiting.eraseIdx i } ⟨time, w.caller, cycles⟩
          (w.resume replies))
  | .upgrade => some ⟨c.memory.upgrade, []⟩

end Canister

end HunterFi
