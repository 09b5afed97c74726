import HunterFi.Principal
import Mathlib.Data.Int.Notation

/-!
# Shared types

The types of `strategy_common` : tokens, strategy configurations with their validation, the
deployment record and its status, the metadata of a deployed strategy. A `u64`, `u128` or
`usize` is a natural number, with `u64Max` and `saturatingAdd` where the code saturates. An
`f64` is its bit pattern, compared as IEEE 754 does : a NaN is neither below nor above
anything.
-/

set_option linter.unusedSectionVars false

namespace HunterFi

/-! ## Numbers -/

/-- `u64::MAX`. -/
def u64Max : ℕ :=
  2 ^ 64 - 1

/-- `u128::MAX`. -/
def u128Max : ℕ :=
  2 ^ 128 - 1

/-- `u64::saturating_add`. -/
def saturatingAdd (a b : ℕ) : ℕ :=
  min (a + b) u64Max

/-- The bytes of a string. -/
def asBytes (s : String) : List UInt8 :=
  s.toUTF8.toList

/-- A character as `{:?}` writes it in a string. Past ASCII it is left as it is, which it is not in
the code if it is unprintable or extends a grapheme. -/
def debugChar (c : Char) : String :=
  match c.toNat with
  | 0 => "\\0"
  | 9 => "\\t"
  | 10 => "\\n"
  | 13 => "\\r"
  | 34 => "\\\""
  | 92 => "\\\\"
  | n =>
    if n < 32 || n = 127 then "\\u\x7b" ++ String.ofList (Nat.toDigits 16 n) ++ "\x7d"
    else c.toString

/-- `{:?}` of a string. -/
def debugString (s : String) : String :=
  "\"" ++ String.join (s.toList.map debugChar) ++ "\""

example : debugString "\t\x1b\"a" = "\"\\t\\u\x7b1b\x7d\\\"a\"" := by decide +kernel

/-- An `f64` : its bit pattern. -/
structure F64 where
  bits : BitVec 64
  deriving DecidableEq, Inhabited

namespace F64

/-- The pattern without its sign bit. -/
def magnitude (x : F64) : ℕ :=
  x.bits.toNat % 2 ^ 63

/-- The exponent is all ones and the fraction is not zero. -/
def isNaN (x : F64) : Bool :=
  0x7FF0000000000000 < x.magnitude

/-- The signed magnitude, which orders the numbers that are not NaN. -/
def order (x : F64) : ℤ :=
  if x.bits.toNat < 2 ^ 63 then x.magnitude else -x.magnitude

/-- `a <= b`. -/
def le (a b : F64) : Bool :=
  !a.isNaN && !b.isNaN && decide (a.order ≤ b.order)

/-- `a < b`. -/
def lt (a b : F64) : Bool :=
  !a.isNaN && !b.isNaN && decide (a.order < b.order)

/-- `0.0`. -/
def zero : F64 :=
  ⟨0⟩

/-- `1.0`. -/
def one : F64 :=
  ⟨0x3FF0000000000000⟩

/-- `100.0`. -/
def hundred : F64 :=
  ⟨0x4059000000000000⟩

end F64

/-! ## Strategies and tokens -/

/-- The kinds of strategies. -/
inductive StrategyType
  | dollarCostAveraging
  | valueAveraging
  | fixedBalance
  | limitOrder
  | selfHedging
  deriving DecidableEq, Inhabited

/-- The `{:?}` text of a strategy type. -/
def StrategyType.debug : StrategyType → String
  | dollarCostAveraging => "DollarCostAveraging"
  | valueAveraging => "ValueAveraging"
  | fixedBalance => "FixedBalance"
  | limitOrder => "LimitOrder"
  | selfHedging => "SelfHedging"

/-- How a strategy stands. -/
inductive StrategyStatus
  | created
  | running
  | paused
  | emergencyStopped
  | terminated
  deriving DecidableEq, Inhabited

/-- The `{:?}` text of a strategy status. -/
def StrategyStatus.debug : StrategyStatus → String
  | created => "Created"
  | running => "Running"
  | paused => "Paused"
  | emergencyStopped => "EmergencyStopped"
  | terminated => "Terminated"

/-- The exchanges, of which ICPSwap alone is connected. -/
inductive Exchange
  | icpSwap
  | kongSwap
  | sonic
  | infinitySwap
  | icDex
  deriving DecidableEq, Inhabited

/-- A token as a configuration names it. -/
structure TokenMetadata where
  canisterId : Principal
  symbol : String
  decimals : ℕ
  standard : String
  fee : ℕ
  deriving DecidableEq, Inhabited

/-- The two tokens that a strategy trades. -/
structure TradingPair where
  baseToken : TokenMetadata
  quoteToken : TokenMetadata
  deriving DecidableEq, Inhabited

/-- The side of a limit order. -/
inductive OrderType
  | buy
  | sell
  deriving DecidableEq, Inhabited

/-- What the factory lists of a deployed strategy. -/
structure StrategyMetadata where
  canisterId : Principal
  strategyType : StrategyType
  owner : Principal
  createdAt : ℕ
  status : StrategyStatus
  exchange : Exchange
  tradingPair : TradingPair
  deriving DecidableEq, Inhabited

/-! ## Configurations -/

/-- Buys for a fixed amount at every interval. -/
structure DCAConfig where
  exchange : Exchange
  baseToken : TokenMetadata
  quoteToken : TokenMetadata
  amountPerExecution : ℕ
  intervalSecs : ℕ
  maxExecutions : Option ℕ
  slippageTolerance : F64
  deriving DecidableEq, Inhabited

/-- Buys what the target value lacks at every interval. -/
structure ValueAvgConfig where
  exchange : Exchange
  baseToken : TokenMetadata
  quoteToken : TokenMetadata
  targetValueIncrease : ℕ
  intervalSecs : ℕ
  maxExecutions : Option ℕ
  slippageTolerance : F64
  deriving DecidableEq, Inhabited

/-- Rebalances to shares of several tokens. The allocations are a hash map, listed in its iteration
order. -/
structure FixedBalanceConfig where
  exchange : Exchange
  tokenAllocations : List (TokenMetadata × F64)
  rebalanceThreshold : F64
  intervalSecs : ℕ
  slippageTolerance : F64
  deriving DecidableEq, Inhabited

/-- An order at a price, until it expires. -/
structure LimitOrderConfig where
  exchange : Exchange
  baseToken : TokenMetadata
  quoteToken : TokenMetadata
  orderType : OrderType
  price : ℕ
  amount : ℕ
  expiration : Option ℕ
  deriving DecidableEq, Inhabited

/-- Which sides of a self-hedging trade are split into several orders. -/
inductive OrderSplitType
  | noSplit
  | splitBuy
  | splitSell
  | splitBoth
  deriving DecidableEq, Inhabited

/-- Trades forth and back at every interval. -/
structure SelfHedgingConfig where
  exchange : Exchange
  tradingPair : TradingPair
  holdToken : Principal
  transactionSize : ℕ
  orderSplitType : OrderSplitType
  checkIntervalSecs : ℕ
  slippageTolerance : F64
  deriving DecidableEq, Inhabited

/-- Two positivity checks in order, each with its own message. -/
def requirePositive (first second : ℕ) (firstMessage secondMessage : String) :
    Except String Unit :=
  if first = 0 then .error firstMessage
  else if second = 0 then .error secondMessage
  else .ok ()

/-- A positive amount and interval. -/
def DCAConfig.validate (c : DCAConfig) : Except String Unit :=
  requirePositive c.amountPerExecution c.intervalSecs
    "Amount per execution must be greater than 0" "Interval must be greater than 0"

/-- A positive target and interval. -/
def ValueAvgConfig.validate (c : ValueAvgConfig) : Except String Unit :=
  requirePositive c.targetValueIncrease c.intervalSecs
    "Target value increase must be greater than 0" "Interval must be greater than 0"

/-- Some allocation and a positive interval. -/
def FixedBalanceConfig.validate (c : FixedBalanceConfig) : Except String Unit :=
  requirePositive c.tokenAllocations.length c.intervalSecs
    "Token allocations cannot be empty" "Interval must be greater than 0"

/-- A positive amount and price. -/
def LimitOrderConfig.validate (c : LimitOrderConfig) : Except String Unit :=
  requirePositive c.amount c.price
    "Amount must be greater than 0" "Price must be greater than 0"

/-- A positive size and interval. -/
def SelfHedgingConfig.validate (c : SelfHedgingConfig) : Except String Unit :=
  requirePositive c.transactionSize c.checkIntervalSecs
    "Transaction size must be greater than 0" "Check interval must be greater than 0"

/-- A configuration of any of the types that implement `StrategyConfig`. -/
inductive Config
  | dca (c : DCAConfig)
  | valueAvg (c : ValueAvgConfig)
  | fixedBalance (c : FixedBalanceConfig)
  | limitOrder (c : LimitOrderConfig)
  | selfHedging (c : SelfHedgingConfig)
  deriving DecidableEq

/-- `StrategyConfig::validate`. -/
def Config.validate : Config → Except String Unit
  | dca c => c.validate
  | valueAvg c => c.validate
  | fixedBalance c => c.validate
  | limitOrder c => c.validate
  | selfHedging c => c.validate

/-- `StrategyConfig::get_strategy_type`. -/
def Config.getStrategyType : Config → StrategyType
  | dca _ => .dollarCostAveraging
  | valueAvg _ => .valueAveraging
  | fixedBalance _ => .fixedBalance
  | limitOrder _ => .limitOrder
  | selfHedging _ => .selfHedging

/-! ## Deployments -/

/-- The status that a deployment record shows. -/
inductive DeploymentStatus
  | pendingPayment
  | authorizationConfirmed
  | paymentReceived
  | canisterCreated
  | codeInstalled
  | initialized
  | deployed
  | deploymentCancelled
  | deploymentFailed
  | refunding
  | refunded
  deriving DecidableEq, Inhabited

/-- What the factory keeps of a deployment. -/
structure DeploymentRecord where
  deploymentId : String
  strategyType : StrategyType
  owner : Principal
  feeAmount : ℕ
  requestTime : ℕ
  status : DeploymentStatus
  canisterId : Option Principal
  configData : List UInt8
  errorMessage : Option String
  lastUpdated : ℕ
  deriving DecidableEq, Inhabited

/-- What a request for a deployment returns. -/
structure DeploymentRequest where
  deploymentId : String
  feeAmount : ℕ
  strategyType : StrategyType
  deriving DecidableEq, Inhabited

/-! ## A configuration for concrete runs -/

namespace Sample

/-- The token that the strategy holds. -/
def icp : Principal :=
  ⟨[6], by decide⟩

/-- The token that it trades against. -/
def ckUsdc : Principal :=
  ⟨[7], by decide⟩

/-- The canister of the strategy. -/
def canister : Principal :=
  ⟨[3], by decide⟩

/-- A token with eight decimals. -/
def token (canisterId : Principal) (symbol : String) : TokenMetadata :=
  ⟨canisterId, symbol, 8, "ICRC1", 10000⟩

/-- Trades 1000000 units every minute. -/
def config : SelfHedgingConfig where
  exchange := .icpSwap
  tradingPair := ⟨token icp "ICP", token ckUsdc "ckUSDC"⟩
  holdToken := icp
  transactionSize := 1000000
  orderSplitType := .noSplit
  checkIntervalSecs := 60
  slippageTolerance := .zero

end Sample

end HunterFi
