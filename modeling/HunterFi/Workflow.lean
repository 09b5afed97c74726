import HunterFi.LedgerReplies
import HunterFi.Icpswap
import HunterFi.Protocols
import HunterFi.Subaccounts

/-!
# Trades from the caller's wallet

`execute_trade` of the ICPSwap connector takes a trade all the way : it asks for a quote, moves
the input token into the pool, swaps it and withdraws what the swap has brought. An ICRC-1 token
goes to a subaccount of the pool and is deposited from there, the others are approved and pulled
by the pool (`depositFrom`). `execute_call_trade` swaps what is in the pool already, and
`execute_batch_trade` makes one trade after the other.

The calls are those of the connector and a few more (`TradeCall`), and so are the replies and
the errors. The connector's own functions are taken over as they are (`connector`). `f64` is the
binary64 of the language.
-/

set_option linter.unusedSectionVars false

namespace HunterFi

/-! ## Numbers -/

namespace F64

/-- The number with this bit pattern. -/
def toModel (x : F64) : Float.Model :=
  .ofBits (UInt64.ofBitVec x.bits)

/-- The bit pattern of a number. -/
def ofModel (x : Float.Model) : F64 :=
  ⟨x.toBits.toBitVec⟩

end F64

/-- `as u128` : towards zero, clamped, and zero for a NaN. -/
def asU128 (x : Float.Model) : ℕ :=
  min u128Max (x.unpack.toInt 0 u128Max).toNat

/-! ## Data -/

/-- `TradeParams` with the fields that the connector reads only here. -/
structure TradeRequest extends TradeParams where
  slippageTolerance : F64
  deadlineSecs : Option ℕ
  deriving DecidableEq, Inhabited

/-- `TradeResult`. -/
structure TradeReceipt extends TradeResult where
  feeAmount : ℕ
  price : F64
  timestamp : ℕ
  transactionId : Option String
  deriving DecidableEq, Inhabited

/-- `QuoteResult`. -/
structure QuoteResult where
  inputAmount : ℕ
  outputAmount : ℕ
  price : F64
  feeAmount : ℕ
  priceImpact : F64
  deriving DecidableEq, Inhabited

/-- `BatchTradeParams`. -/
structure BatchTradeParams where
  trades : List TradeRequest
  requireAllSuccess : Bool
  deriving DecidableEq, Inhabited

/-- `BatchTradeResult`. -/
structure BatchTradeResult where
  results : List (Except String TradeReceipt)
  allSucceeded : Bool
  timestamp : ℕ

/-- The variants of `ExchangeError` that a trade returns. -/
inductive TradeError
  | connector (error : ExchangeError)
  | invalidAmount
  | invalidParameters (message : String)
  | tokenTransferFailed (reason : String)
  | transactionFailed (reason : String)
  | notImplemented
  deriving DecidableEq, Inhabited

/-- `{}`. -/
def TradeError.text : TradeError → String
  | connector e => e.text
  | invalidAmount => "Invalid amount"
  | invalidParameters m => "Invalid parameters: " ++ m
  | tokenTransferFailed r => "Token transfer failed: " ++ r
  | transactionFailed r => "Transaction failed: " ++ r
  | notImplemented => "Functionality not implemented yet"

/-! ## The interface of tokens -/

/-- The arguments of `icrc1_transfer`. -/
structure PoolTransferArgs where
  fromSubaccount : Option (List UInt8)
  toAccount : Account
  amount : ℕ
  fee : Option ℕ
  memo : Option (List UInt8)
  createdAtTime : Option ℕ
  deriving DecidableEq

/-- The arguments of `transfer` of the ICP ledger. The field `to` is the account identifier of
`toAccount`. -/
structure IcpTransferArgs where
  memo : ℕ
  amount : ℕ
  fee : ℕ
  fromSubaccount : Option (List UInt8)
  toAccount : Account
  createdAtTime : Option ℕ
  deriving DecidableEq

/-- The message of a refused `icrc1_transfer`. -/
def TransferError.text : TransferError → String
  | badFee n => "Bad fee, expected: " ++ toString n
  | badBurn n => "Bad burn, minimum: " ++ toString n
  | insufficientFunds n => "Insufficient funds, balance: " ++ toString n
  | tooOld => "Transaction too old"
  | createdInFuture n => "Transaction created in future, ledger time: " ++ toString n
  | duplicate n => "Duplicate transaction of: " ++ toString n
  | temporarilyUnavailable => "Ledger temporarily unavailable"
  | genericError n m => "Generic error " ++ toString n ++ ": " ++ m

/-- The reasons for which the ICP ledger refuses a transfer. -/
inductive IcpTransferError
  | badFee (expectedFee : ℕ)
  | insufficientFunds (balance : ℕ)
  | txTooOld (allowedWindowNanos : ℕ)
  | txCreatedInFuture
  | txDuplicate (duplicateOf : ℕ)
  deriving DecidableEq

/-- The message of a refused `transfer`. -/
def IcpTransferError.text : IcpTransferError → String
  | badFee n => "Bad fee, expected: " ++ toString n ++ " e8s"
  | insufficientFunds n => "Insufficient funds, balance: " ++ toString n ++ " e8s"
  | txTooOld n => "Transaction too old, allowed window: " ++ toString n ++ "ns"
  | txCreatedInFuture => "Transaction created in the future"
  | txDuplicate n => "Duplicate transaction of block index: " ++ toString n

/-- A call that a trade makes. -/
inductive TradeCall
  | connector (call : Call)
  | quote (pool : Principal) (args : IcpSwapSwapArgs)
  | deposit (pool : Principal) (args : IcpSwapMoveArgs)
  | icrc1Transfer (token : Principal) (args : PoolTransferArgs)
  | icpTransfer (ledger : Principal) (args : IcpTransferArgs)
  deriving DecidableEq

/-- What comes back. -/
inductive TradeReply
  | connector (reply : Reply)
  | transferred (result : Except TransferError ℕ)
  | icpTransferred (result : Except IcpTransferError ℕ)
  deriving Inhabited

namespace TradeReply

/-- The reply as the connector's own functions see it. -/
def toReply : TradeReply → Reply
  | connector r => r
  | _ => .rejected .canisterError "failed to decode canister response"

/-- The reply to `icrc1_transfer`. -/
def transferred? : TradeReply → Option (Except TransferError ℕ)
  | transferred result => some result
  | _ => none

/-- The reply to `transfer`. -/
def icpTransferred? : TradeReply → Option (Except IcpTransferError ℕ)
  | icpTransferred result => some result
  | _ => none

/-- What `call` returns if the caller declares the type that `view` decodes. -/
def decode {α : Type} (view : TradeReply → Option α) : TradeReply → CallResult α
  | connector (.rejected code message) => .error code message
  | r => match view r with
    | some a => .ok a
    | none => .error .canisterError "failed to decode canister response"

end TradeReply

namespace Icpswap

/-- A handler over the calls of a trade. -/
abbrev Trade (α : Type) :=
  Async Env Unit TradeCall TradeReply TradeError α

/-- A function of the connector as a part of a trade. -/
def connector {α : Type} (p : Async Env Unit Call Reply ExchangeError α) : Trade α :=
  p.embed .connector TradeReply.toReply .connector

/-! ## Validation -/

/-- `current_timestamp_secs`. -/
def timestampSecs (env : Env) : ℕ :=
  env.time / 1000000000

/-- `validate_token_standard` : every standard is compatible. -/
def validateTokenStandard (token : TokenInfo) : Except TradeError Unit :=
  match token.standard with
  | .icrc1 => .ok ()
  | .icrc2 => .ok ()
  | .dip20 => .ok ()
  | .ext => .ok ()
  | .icp => .ok ()

/-- `validate_trade_params`. -/
def validateTradeParams (env : Env) (params : TradeRequest) : Except TradeError Unit := do
  if params.amount = 0 then
    throw .invalidAmount
  if params.slippageTolerance.lt .zero || F64.hundred.lt params.slippageTolerance then
    throw (.invalidParameters "Slippage tolerance must be between 0 and 100")
  if params.deadlineSecs.any fun deadline => deadline < timestampSecs env then
    throw (.invalidParameters "Deadline has passed")
  validateTokenStandard params.baseToken
  validateTokenStandard params.quoteToken

/-! ## Quotes -/

/-- The call of `quote`, with the same arguments as a swap. -/
def callQuote (pool : Principal) (args : IcpSwapSwapArgs) :
    Async.Job TradeCall TradeReply TradeError ℕ where
  call := .quote pool args
  outcome := fun r =>
    ((callExchange "quote" Reply.amount? (.swap pool args)).outcome r.toReply).mapError .connector

/-- The call of `deposit`. -/
def callDeposit (pool : Principal) (args : IcpSwapMoveArgs) :
    Async.Job TradeCall TradeReply TradeError ℕ where
  call := .deposit pool args
  outcome := fun r =>
    ((callExchange "deposit" Reply.amount? (.withdraw pool args)).outcome r.toReply).mapError
      .connector

/-- The price of a trade. -/
def priceOf (output input : ℕ) : F64 :=
  if input > 0 then .ofModel (.ofNat output / .ofNat input) else .zero

/-- The arguments of the quote for a trade. -/
def quoteArgs (params : TradeRequest) : IcpSwapSwapArgs :=
  let (inputToken, outputToken) := TradeParams.tokens params.toTradeParams
  { zeroForOne := isZeroForOne inputToken outputToken
    amountIn := toString params.amount
    amountOutMinimum := "0" }

/-- `get_quote_internal`. Its fee is 0.3 percent. -/
def getQuoteInternal (pool : Principal) (params : TradeRequest) : Trade QuoteResult := do
  let result ← (callQuote pool (quoteArgs params)).run
  if result ≤ u128Max then
    return {
      inputAmount := params.amount
      outputAmount := result
      price := priceOf result params.amount
      feeAmount := asU128 (.ofNat params.amount * .ofScientific 3 (-3))
      priceImpact := .zero }
  else
    .fail (.connector (.internalError ("Failed to convert quote BigUint " ++ toString result ++
      " to u128: out of range conversion regarding big integer attempted")))

/-- `get_quote`. -/
def getQuote (params : TradeRequest) : Trade QuoteResult := do
  let data ← connector (getPoolCanister params.baseToken params.quoteToken).run
  getQuoteInternal data.canisterId params

/-- The least output that a swap may bring, by a quote and the slippage tolerance in percent. -/
def minimumOut (quoted : ℕ) (slippage : F64) : ℕ :=
  asU128 (.ofNat quoted * (.ofNat 1 - slippage.toModel / .ofNat 100))

/-! ## Moving tokens -/

/-- The transfer fee by which a trade moves a token. -/
def tradeFee : TokenStandard → ℕ
  | .icrc1 => 10000
  | .icp => 10000
  | .icrc2 => 10
  | .dip20 => 0
  | .ext => 0

/-- A transfer : `name` begins the error of a failed call, `refusal` that of a refused transfer. -/
def transferCall {ε : Type} (name refusal : String) (view : TradeReply → Option (Except ε ℕ))
    (refused : ε → String) (call : TradeCall) :
    Async.Job TradeCall TradeReply TradeError Unit where
  call := call
  outcome := fun reply => match reply.decode view with
    | .ok (.ok _) => .ok ()
    | .ok (.error e) => .error (.tokenTransferFailed (refusal ++ refused e))
    | .error code message =>
      .error (.tokenTransferFailed (name ++ code.debug ++ " - " ++ message))

/-- `transfer_token_to_pool_subaccount`. The subaccount of the pool is that of the pool's own
principal. -/
def transferTokenToPoolSubaccount (token : TokenInfo) (pool : Principal) (amount fee : ℕ) :
    Trade Unit := do
  let env ← Async.env
  let fromSubaccount := some (principalToSubaccount env.caller)
  let toAccount : Account := ⟨pool, some (principalToSubaccount pool)⟩
  match token.standard with
  | .icrc1 | .icrc2 =>
    (transferCall "ICRC transfer failed: " "ICRC transfer failed: " TradeReply.transferred?
      TransferError.text (.icrc1Transfer token.canisterId {
        fromSubaccount := fromSubaccount
        toAccount := toAccount
        amount := amount
        fee := some fee
        memo := none
        createdAtTime := none })).run
  | .icp =>
    (transferCall "ICP transfer call failed: " "ICP transfer failed: " TradeReply.icpTransferred?
      IcpTransferError.text (.icpTransfer icpLedgerCanister {
        memo := 0
        amount := amount % 2 ^ 64
        fee := 10000
        fromSubaccount := fromSubaccount
        toAccount := toAccount
        createdAtTime := none })).run
  | .dip20 | .ext => return ()

/-- Brings the input of a trade into the pool, by the standard of its token. The allowance
`amount * 100` wraps. -/
def bringIn (params : TradeRequest) (token : TokenInfo) (pool : Principal) : Trade Unit := do
  let depositArgs : IcpSwapMoveArgs :=
    ⟨tradeFee token.standard, token.canisterId.toText, params.amount⟩
  match token.standard with
  | .icrc1 => do
    transferTokenToPoolSubaccount token pool params.amount (tradeFee token.standard)
    let _ ← (callDeposit pool depositArgs).run
  | .dip20 | .ext | .icrc2 | .icp => do
    connector (approveToken token pool (params.amount * 100 % 2 ^ 128))
    let _ ← connector (callDepositFrom pool depositArgs).run

/-! ## Trades -/

/-- The receipt of a swap that has brought `result`. -/
def receipt (env : Env) (params : TradeRequest) (pool : Principal) (poolFee output : ℕ) :
    TradeReceipt where
  inputAmount := params.amount
  outputAmount := output
  feeAmount := asU128 (.ofNat params.amount * (.ofNat poolFee / .ofNat 1000000))
  price := priceOf output params.amount
  timestamp := timestampSecs env
  transactionId := some ("icpswap_" ++ pool.toText ++ "_" ++ toString env.time)

/-- The swap of a trade, for at least what the quote and the slippage tolerance allow. -/
def swapArgs (params : TradeRequest) (quoted : ℕ) : IcpSwapSwapArgs :=
  let (inputToken, outputToken) := TradeParams.tokens params.toTradeParams
  { zeroForOne := isZeroForOne inputToken outputToken
    amountIn := toString params.amount
    amountOutMinimum := toString (minimumOut quoted params.slippageTolerance) }

/-- `execute_icpswap_trade`. -/
def executeIcpswapTrade (params : TradeRequest) : Trade TradeReceipt := do
  let env ← Async.env
  Async.ofExcept (validateTradeParams env params)
  let data ← connector (getPoolCanister params.baseToken params.quoteToken).run
  let quote ← getQuoteInternal data.canisterId params
  let (inputToken, outputToken) := TradeParams.tokens params.toTradeParams
  let poolFee ← connector (.ofExcept (toU64 "pool fee" data.fee))
  bringIn params inputToken data.canisterId
  let swapResult ← connector
    (callSwap data.canisterId (swapArgs params quote.outputAmount)).run
  let _ ← connector (callWithdraw data.canisterId
    ⟨tradeFee outputToken.standard, outputToken.canisterId.toText, swapResult⟩).run
  let output ← connector (.ofExcept (toU128 "final swap result" swapResult))
  let env ← Async.env
  return receipt env params data.canisterId poolFee output

/-- `execute_trade`. -/
def executeTrade : TradeRequest → Trade TradeReceipt :=
  executeIcpswapTrade

/-- `execute_call_trade`. -/
def executeCallTrade (params : TradeRequest) : Trade TradeReceipt := do
  let data ← connector (getPoolCanister params.baseToken params.quoteToken).run
  let quote ← getQuoteInternal data.canisterId params
  let swapResult ← connector
    (callSwap data.canisterId (swapArgs params quote.outputAmount)).run
  let output ← connector (.ofExcept (toU128 "final swap result" swapResult))
  let poolFee ← connector (.ofExcept (toU64 "pool fee" data.fee))
  let env ← Async.env
  return receipt env params data.canisterId poolFee output

/-- The loop of `execute_batch_trade`, with the results so far. -/
def batchLoop (requireAllSuccess : Bool) : List TradeRequest → List (Except String TradeReceipt) →
    Bool → Trade (List (Except String TradeReceipt) × Bool)
  | [], results, allSucceeded => return (results, allSucceeded)
  | params :: rest, results, allSucceeded => do
    let result : Except TradeError TradeReceipt ← (executeTrade params).attempt
    match result with
    | .ok receipt => batchLoop requireAllSuccess rest (results ++ [.ok receipt]) allSucceeded
    | .error e =>
      if requireAllSuccess then
        .fail (.transactionFailed "Batch trade failed, one or more trades errored")
      else batchLoop requireAllSuccess rest (results ++ [.error e.text]) false

/-- `execute_batch_trade`. -/
def executeBatchTrade (params : BatchTradeParams) : Trade BatchTradeResult := do
  let (results, allSucceeded) ← batchLoop params.requireAllSuccess params.trades [] true
  let env ← Async.env
  return ⟨results, allSucceeded, timestampSecs env⟩

/-! ## Queries -/

/-- `is_pair_supported`. No error of the pool's factory is `PoolNotFound`. -/
def isPairSupported (base quote : TokenInfo) : Trade Bool := do
  let _ ← connector (getPoolCanister base quote).run
  return true

end Icpswap

end HunterFi
