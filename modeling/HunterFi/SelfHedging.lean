import HunterFi.Icpswap
import HunterFi.KeyedMap
import HunterFi.Split

/-!
# The state of a self-hedging strategy

A strategy canister (`strategies/self_hedging/src/lib.rs`) keeps its `SelfHedgingState` in
stable memory, a flag that an execution is in progress and its timers on the heap. The
handlers that await nothing are functions from the environment and the memory to the new
memory or an error message. `StrategyResult::Error` is the failure of a handler. Writes of
the stable cell succeed.
-/

set_option linter.unusedSectionVars false

namespace HunterFi

/-! ## Data -/

/-- The state in the stable cell. -/
structure SelfHedgingState where
  owner : Principal
  config : SelfHedgingConfig
  status : StrategyStatus
  lastExecution : Option ℕ
  executionCount : ℕ
  volumeGenerated : ℕ
  orderSplitType : OrderSplitType
  transactionSize : ℕ
  baseTokenUnusedBalance : ℕ
  quoteTokenUnusedBalance : ℕ
  lastBalanceCheck : Option ℕ
  deriving DecidableEq, Inhabited

/-- A periodic timer of `ic_cdk_timers`. -/
structure IntervalTimer where
  timerId : ℕ
  intervalSecs : ℕ
  deriving DecidableEq

/-- The map `TIMERS` and the timers it refers to. `LAST_EXECUTION` is left out, which no
function of the canister reads. -/
structure Timers where
  registered : KeyedMap (Prod.fst : String × ℕ → String)
  live : List IntervalTimer
  nextId : ℕ

/-- The memory of a strategy canister. `state` is in stable memory, the rest on the heap. -/
structure Memory where
  state : SelfHedgingState
  executionInProgress : Bool
  timers : Timers

/-! ## Timers -/

/-- `EXECUTION_TIMER_ID`. -/
def executionTimerId : String :=
  "self_hedging_execution"

namespace Timers

/-- No timer is set. -/
def initial : Timers :=
  ⟨∅, [], 0⟩

/-- `clear_timer`. -/
def clearTimer (t : Timers) (id : String) : Timers :=
  match t.registered.get? id with
  | none => t
  | some (_, timerId) =>
    { t with
      registered := t.registered.erase id
      live := t.live.filter fun i => i.timerId ≠ timerId }

/-- `set_timer` with an enabled configuration. It is that of the code as long as the time and the
interval together fit in a `u64` of nanoseconds, past which `set_timer_interval` traps. -/
def setTimer (t : Timers) (id : String) (intervalSecs : ℕ) : Timers :=
  let t := t.clearTimer id
  { registered := t.registered.insert (id, t.nextId)
    live := ⟨t.nextId, intervalSecs⟩ :: t.live
    nextId := t.nextId + 1 }

end Timers

/-! ## The memory over the life of a canister -/

/-- The token metadata of a canister that is not initialised. -/
def TokenMetadata.blank : TokenMetadata :=
  ⟨.anonymous, "", 0, "", 0⟩

/-- The state that the stable cell is created with. -/
def SelfHedgingState.blank : SelfHedgingState where
  owner := .anonymous
  config := {
    exchange := .icpSwap
    tradingPair := ⟨.blank, .blank⟩
    holdToken := .anonymous
    transactionSize := 0
    orderSplitType := .noSplit
    checkIntervalSecs := 0
    slippageTolerance := .zero }
  status := .created
  lastExecution := none
  executionCount := 0
  volumeGenerated := 0
  orderSplitType := .noSplit
  transactionSize := 0
  baseTokenUnusedBalance := 0
  quoteTokenUnusedBalance := 0
  lastBalanceCheck := none

namespace Memory

/-- The memory once the code is installed. -/
def installed : Memory :=
  ⟨.blank, false, .initial⟩

/-- The memory after an upgrade : stable memory stays, the heap and the timers are new. -/
def upgrade (m : Memory) : Memory :=
  ⟨m.state, false, .initial⟩

/-- A write of the stable cell. -/
def withState (m : Memory) (f : SelfHedgingState → SelfHedgingState) : Memory :=
  { m with state := f m.state }

end Memory

namespace SelfHedging

/-! ## Checks -/

/-- `verify_owner`. -/
def verifyOwner (host : Host) (env : Env) (m : Memory) : Except String Unit :=
  if env.caller ≠ m.state.owner ∧ host.id ≠ env.caller then .error "Caller is not the owner"
  else .ok ()

/-- The `{:?}` text of a list of statuses. -/
def debugStatuses (statuses : List StrategyStatus) : String :=
  "[" ++ ", ".intercalate (statuses.map StrategyStatus.debug) ++ "]"

/-- `verify_status`. -/
def verifyStatus (expected : List StrategyStatus) (m : Memory) : Except String Unit :=
  if m.state.status ∉ expected then
    .error ("Invalid strategy status: " ++ m.state.status.debug ++ ", expected one of: " ++
      debugStatuses expected)
  else .ok ()

/-! ## Initialisation -/

/-- The state of a newly initialised strategy. -/
def newState (owner : Principal) (config : SelfHedgingConfig) : SelfHedgingState where
  owner := owner
  config := config
  status := .created
  lastExecution := none
  executionCount := 0
  volumeGenerated := 0
  orderSplitType := config.orderSplitType
  transactionSize := config.transactionSize
  baseTokenUnusedBalance := 0
  quoteTokenUnusedBalance := 0
  lastBalanceCheck := none

/-- `init_self_hedging`. -/
def initSelfHedging (owner : Principal) (config : SelfHedgingConfig) (_ : Env) (m : Memory) :
    Except String Memory :=
  let base := config.tradingPair.baseToken.canisterId
  let quote := config.tradingPair.quoteToken.canisterId
  if m.state.owner ≠ .anonymous then .error "Strategy already initialized"
  else if config.transactionSize = 0 then .error "Transaction size must be greater than zero"
  else if config.checkIntervalSecs = 0 then .error "Check interval cannot be zero"
  else if base = .anonymous ∨ quote = .anonymous then
    .error "Invalid token canister IDs in trading pair"
  else if config.holdToken = .anonymous ∨ (base ≠ config.holdToken ∧ quote ≠ config.holdToken) then
    .error "Invalid hold token"
  else if config.slippageTolerance.le .zero ∨ F64.le .one config.slippageTolerance then
    .error "Slippage tolerance must be between 0 and 1 (exclusive)"
  else .ok { m with state := newState owner config }

/-! ## Control -/

/-- The memory after `pause` or `stop`. -/
def halt (status : StrategyStatus) (m : Memory) : Memory :=
  { m with
    timers := m.timers.clearTimer executionTimerId
    state := { m.state with status := status } }

/-- `pause`. -/
def pause (host : Host) (env : Env) (m : Memory) : Except String Memory := do
  verifyOwner host env m
  verifyStatus [.running] m
  return halt .paused m

/-- `stop`. -/
def stop (host : Host) (env : Env) (m : Memory) : Except String Memory := do
  verifyOwner host env m
  return halt .terminated m

/-! ## Configuration -/

/-- The checks of the two updates of the configuration before they look at its values. -/
def verifyUpdate (host : Host) (env : Env) (m : Memory) : Except String Unit :=
  match verifyOwner host env m with
  | .error e => .error e
  | .ok () =>
    match verifyStatus [.created, .paused] m with
    | .error e => .error
        ("Cannot update configuration while strategy is running. Please pause first: " ++ e)
    | .ok () => .ok ()

/-- `update_volume_config`. -/
def updateVolumeConfig (host : Host) (transactionSize : ℕ) (splitType : OrderSplitType) (env : Env)
    (m : Memory) : Except String Memory := do
  verifyUpdate host env m
  if transactionSize = 0 then .error "Transaction size must be greater than zero"
  else
    return m.withState fun s =>
      { s with
        config := { s.config with
          transactionSize := transactionSize
          orderSplitType := splitType }
        transactionSize := transactionSize
        orderSplitType := splitType }

/-- `update_config`. -/
def updateConfig (host : Host) (transactionSize : ℕ) (splitType : OrderSplitType)
    (checkIntervalSecs : ℕ) (slippageTolerance : F64) (holdToken : Principal) (env : Env)
    (m : Memory) : Except String Memory := do
  verifyUpdate host env m
  if holdToken = .anonymous then .error "Hold token not anonymous"
  else if transactionSize = 0 then .error "Transaction size must be greater than zero"
  else if checkIntervalSecs = 0 then .error "Check interval cannot be zero"
  else if slippageTolerance.le .zero ∨ F64.lt .hundred slippageTolerance then
    .error "Slippage tolerance must be between 0 and 100"
  else
    return m.withState fun s =>
      { s with
        config := { s.config with
          transactionSize := transactionSize
          orderSplitType := splitType
          checkIntervalSecs := checkIntervalSecs
          slippageTolerance := slippageTolerance
          holdToken := holdToken }
        transactionSize := transactionSize
        orderSplitType := splitType }

/-! ## The exchange -/

/-- `to_uppercase`, where it decides whether a text is a token standard : the letters below
are the ones outside ASCII whose upper case is a single ASCII letter. -/
def toUppercase (s : String) : String :=
  s.map fun c => if c = 'ı' then 'I' else if c = 'ſ' then 'S' else c.toUpper

/-- `token_standard_from_string`. -/
def tokenStandardFromString (standard : String) : TokenStandard :=
  match toUppercase standard with
  | "ICRC1" => .icrc1
  | "ICRC2" => .icrc2
  | "DIP20" => .dip20
  | "EXT" => .ext
  | "ICP" => .icp
  | _ => .icrc1

/-- `create_token_info`. -/
def createTokenInfo (metadata : TokenMetadata) : TokenInfo where
  canisterId := metadata.canisterId
  symbol := metadata.symbol
  decimals := metadata.decimals
  standard := tokenStandardFromString metadata.standard

/-- `create_trade_params`. -/
def createTradeParams (config : SelfHedgingConfig) : TradeParams where
  baseToken := createTokenInfo config.tradingPair.baseToken
  quoteToken := createTokenInfo config.tradingPair.quoteToken
  direction := .buy
  amount := config.transactionSize

/-- The hold token is the base token of the pair. -/
def holdTokenIsBase (config : SelfHedgingConfig) : Bool :=
  config.holdToken = config.tradingPair.baseToken.canisterId

/-- A handler of the canister that awaits calls. -/
abbrev Handler (α : Type) :=
  Async Env Memory Call Reply String α

/-- `update_unused_balance`. -/
def updateUnusedBalance (baseBalance quoteBalance : ℕ) (env : Env) (m : Memory) : Memory :=
  m.withState fun s =>
    { s with
      baseTokenUnusedBalance := baseBalance
      quoteTokenUnusedBalance := quoteBalance
      lastBalanceCheck := some env.time }

/-- `check_icpswap_balance` : the balances of the base and of the quote token. -/
def checkIcpswapBalance (host : Host) : Handler (ℕ × ℕ) := do
  let m ← .get
  let config := m.state.config
  let (balance0, balance1, token0) ←
    (Icpswap.getUnusedBalance (createTradeParams config) host.id).mapError fun e =>
      "Failed to get unused balance: " ++ e.debug
  let isBaseToken0 : Bool := config.tradingPair.baseToken.canisterId.toText = token0
  let (base, quote) := if isBaseToken0 then (balance0, balance1) else (balance1, balance0)
  .modify (updateUnusedBalance base quote)
  return (base, quote)

end SelfHedging

end HunterFi
