import HunterFi.Async
import HunterFi.Payment

/-!
# The ICPSwap connector

The functions of `icpswap.rs` that the self-hedging strategy uses. They touch no state of
the canister : each makes its calls of the ICPSwap factory, of a pool or of a token and
decodes what comes back. A `Call` is a call with its arguments. The replies of all methods
share the type `Reply` ; one that is not of the type the caller declares does not decode,
which the caller sees as a failed call.

Amounts of the exchange are candid `Nat`s and become `u128`s, which fails for those that do
not fit.
-/

set_option linter.unusedSectionVars false

namespace HunterFi

/-! ## Data -/

/-- The variants of `ExchangeError` that the functions below return. -/
inductive ExchangeError
  | internalError (message : String)
  | canisterCallError (message : String)
  | insufficientFunds
  | unsupportedToken (token : String)
  | tokenApprovalFailed (reason : String)
  | unknown (message : String)
  deriving DecidableEq, Inhabited

namespace ExchangeError

/-- `{}`. -/
def text : ExchangeError → String
  | internalError m => "Internal error: " ++ m
  | canisterCallError m => "Canister call error: " ++ m
  | insufficientFunds => "Insufficient funds"
  | unsupportedToken t => "Unsupported token: " ++ t
  | tokenApprovalFailed r => "Token approval failed: " ++ r
  | unknown m => "Unknown error: " ++ m

/-- `{:?}`. -/
def debug : ExchangeError → String
  | internalError m => "InternalError(" ++ debugString m ++ ")"
  | canisterCallError m => "CanisterCallError(" ++ debugString m ++ ")"
  | insufficientFunds => "InsufficientFunds"
  | unsupportedToken t => "UnsupportedToken(" ++ debugString t ++ ")"
  | tokenApprovalFailed r => "TokenApprovalFailed(" ++ debugString r ++ ")"
  | unknown m => "Unknown(" ++ debugString m ++ ")"

end ExchangeError

/-- The standards of tokens that the connector knows. -/
inductive TokenStandard
  | icrc1
  | icrc2
  | dip20
  | ext
  | icp
  deriving DecidableEq, Inhabited

/-- The text of a standard, which is also its `{:?}`. -/
def TokenStandard.text : TokenStandard → String
  | icrc1 => "ICRC1"
  | icrc2 => "ICRC2"
  | dip20 => "DIP20"
  | ext => "EXT"
  | icp => "ICP"

/-- A token as the connector sees it. -/
structure TokenInfo where
  canisterId : Principal
  symbol : String
  decimals : ℕ
  standard : TokenStandard
  deriving DecidableEq, Inhabited

/-- Whether a trade buys or sells the base token. -/
inductive TradeDirection
  | buy
  | sell
  deriving DecidableEq, Inhabited

/-- The other direction. -/
def TradeDirection.reverse : TradeDirection → TradeDirection
  | buy => sell
  | sell => buy

/-- The fields of `TradeParams` that the connector reads. -/
structure TradeParams where
  baseToken : TokenInfo
  quoteToken : TokenInfo
  direction : TradeDirection
  amount : ℕ
  deriving DecidableEq, Inhabited

/-- The fields of `TradeResult` that the strategy reads. -/
structure TradeResult where
  inputAmount : ℕ
  outputAmount : ℕ
  deriving DecidableEq, Inhabited

/-- `PoolInfo` without the liquidity and the reserves, which are always zero. -/
structure PoolInfo where
  poolId : Principal
  token0 : TokenInfo
  token1 : TokenInfo
  fee : ℕ
  deriving DecidableEq, Inhabited

/-! ## The interface of ICPSwap -/

/-- A token as ICPSwap names it. -/
structure IcpSwapToken where
  address : String
  standard : String
  deriving DecidableEq, Inhabited

/-- The arguments of `getPool`. -/
structure IcpSwapGetPoolArgs where
  fee : ℕ
  token0 : IcpSwapToken
  token1 : IcpSwapToken
  deriving DecidableEq, Inhabited

/-- The fields of `ICPSwapPoolData` that the connector reads. -/
structure IcpSwapPoolData where
  fee : ℕ
  token0 : IcpSwapToken
  token1 : IcpSwapToken
  canisterId : Principal
  deriving DecidableEq, Inhabited

/-- The errors of ICPSwap. -/
inductive IcpSwapError
  | commonError
  | internalError (message : String)
  | unsupportedToken (token : String)
  | insufficientFunds
  deriving DecidableEq, Inhabited

/-- The arguments of `swap`, with amounts as decimal texts. -/
structure IcpSwapSwapArgs where
  zeroForOne : Bool
  amountIn : String
  amountOutMinimum : String
  deriving DecidableEq, Inhabited

/-- The arguments of `depositFrom` and of `withdraw`. -/
structure IcpSwapMoveArgs where
  fee : ℕ
  token : String
  amount : ℕ
  deriving DecidableEq, Inhabited

/-- What a user has in a pool that is not traded. -/
structure IcpSwapBalance where
  balance0 : ℕ
  balance1 : ℕ
  deriving DecidableEq, Inhabited

/-- The balances fit in a `u128`. -/
def IcpSwapBalance.Fits (balance : IcpSwapBalance) : Prop :=
  balance.balance0 ≤ u128Max ∧ balance.balance1 ≤ u128Max

/-- The reasons for which a token refuses `icrc2_approve`. -/
inductive ApproveError
  | badFee (expectedFee : ℕ)
  | insufficientFunds (balance : ℕ)
  | allowanceChanged (currentAllowance : ℕ)
  | expired (ledgerTime : ℕ)
  | tooOld
  | createdInFuture (ledgerTime : ℕ)
  | duplicate (duplicateOf : ℕ)
  | temporarilyUnavailable
  | genericError (errorCode : ℕ) (message : String)
  deriving DecidableEq, Inhabited

/-- The message of a refused `icrc2_approve`. -/
def ApproveError.text : ApproveError → String
  | badFee n => "Bad fee, expected: " ++ toString n
  | insufficientFunds n => "Insufficient funds, balance: " ++ toString n
  | allowanceChanged n => "Allowance changed, current: " ++ toString n
  | expired n => "Expired, ledger time: " ++ toString n
  | tooOld => "Transaction too old"
  | createdInFuture n => "Created in future, ledger time: " ++ toString n
  | duplicate n => "Duplicate of: " ++ toString n
  | temporarilyUnavailable => "Temporarily unavailable"
  | genericError n m => "Generic error " ++ toString n ++ ": " ++ m

/-- A call of another canister. -/
inductive Call
  | getPool (factory : Principal) (args : IcpSwapGetPoolArgs)
  | getUserUnusedBalance (pool user : Principal)
  | swap (pool : Principal) (args : IcpSwapSwapArgs)
  | depositFrom (pool : Principal) (args : IcpSwapMoveArgs)
  | withdraw (pool : Principal) (args : IcpSwapMoveArgs)
  | approveDip20 (token spender : Principal) (amount : ℕ)
  | approveExt (token : Principal) (subaccount : Option (List UInt8)) (spender : Principal)
      (allowance : ℕ)
  | icrc2Approve (token : Principal) (spender : Account) (amount : ℕ)
  deriving DecidableEq

/-- What comes back. -/
inductive Reply
  | rejected (code : RejectionCode) (message : String)
  | pool (result : Except IcpSwapError IcpSwapPoolData)
  | unusedBalance (result : Except IcpSwapError IcpSwapBalance)
  | amount (result : Except IcpSwapError ℕ)
  | approved (result : Except String Unit)
  | icrc2Approved (result : Except ApproveError ℕ)
  deriving Inhabited

namespace Reply

/-- The reply to `getPool`. -/
def pool? : Reply → Option (Except IcpSwapError IcpSwapPoolData)
  | pool result => some result
  | _ => none

/-- The reply to `getUserUnusedBalance`. -/
def unusedBalance? : Reply → Option (Except IcpSwapError IcpSwapBalance)
  | unusedBalance result => some result
  | _ => none

/-- The reply to a call that returns an amount. -/
def amount? : Reply → Option (Except IcpSwapError ℕ)
  | amount result => some result
  | _ => none

/-- The reply to an approval of DIP20 or EXT. -/
def approved? : Reply → Option (Except String Unit)
  | approved result => some result
  | _ => none

/-- The reply to `icrc2_approve`. -/
def icrc2Approved? : Reply → Option (Except ApproveError ℕ)
  | icrc2Approved result => some result
  | _ => none

/-- What `call` returns, if the caller declares the type that `view` decodes. -/
def decode {α : Type} (view : Reply → Option α) : Reply → CallResult α
  | rejected code message => .error code message
  | r => match view r with
    | some a => .ok a
    | none => .error .canisterError "failed to decode canister response"

end Reply

/-- What the connector and the strategy use of the platform and of code outside the
repository : the strategy's canister id and `Principal::from_text`. -/
structure Host where
  id : Principal
  principalFromText : String → Except String Principal

namespace Icpswap

/-! ## Numbers and errors -/

/-- `try_from` of a `Nat` : `bound` is the greatest number of the type. -/
def tryFrom (bound : ℕ) (type what : String) (n : ℕ) : Except ExchangeError ℕ :=
  if n ≤ bound then .ok n
  else .error (.internalError ("Failed to convert " ++ what ++ " Nat " ++ toString n ++ " to " ++
    type ++ ": out of range conversion regarding big integer attempted"))

/-- `try_into` a `u128`. -/
def toU128 : String → ℕ → Except ExchangeError ℕ :=
  tryFrom u128Max "u128"

/-- A conversion that succeeds keeps the number. -/
theorem toU128_eq {what : String} {n b : ℕ} (h : toU128 what n = .ok b) :
    n ≤ u128Max ∧ n = b := by
  unfold toU128 tryFrom at h
  split_ifs at h with hn
  exact ⟨hn, Except.ok.inj h⟩

/-- `try_into` a `u64`. -/
def toU64 : String → ℕ → Except ExchangeError ℕ :=
  tryFrom u64Max "u64"

/-- `map_icpswap_error`. -/
def mapIcpswapError : IcpSwapError → ExchangeError
  | .commonError => .unknown "ICPSwap common error"
  | .internalError m => .internalError ("ICPSwap internal error: " ++ m)
  | .unsupportedToken t => .unsupportedToken ("ICPSwap unsupported token: " ++ t)
  | .insufficientFunds => .insufficientFunds

/-- A call of the exchange : the function whose name ends in `method` awaits it and maps its
errors. -/
def callExchange {α : Type} (method : String) (view : Reply → Option (Except IcpSwapError α))
    (call : Call) : Async.Job Call Reply ExchangeError α where
  call := call
  outcome := fun reply => match reply.decode view with
    | .ok (.ok a) => .ok a
    | .ok (.error e) => .error (mapIcpswapError e)
    | .error code message =>
      .error (.canisterCallError
        ("Failed to call " ++ method ++ ": " ++ code.debug ++ " - " ++ message))

/-- A call of the exchange succeeds only with what its reply shows. -/
theorem outcome_callExchange {α : Type} {method : String}
    {view : Reply → Option (Except IcpSwapError α)} {call : Call} {r : Reply} {a : α}
    (h : (callExchange method view call).outcome r = .ok a) : view r = some (.ok a) := by
  have hdecode : r.decode view = .ok (.ok a) := by
    unfold callExchange at h
    dsimp only at h
    split at h
    · rw [← Except.ok.inj h]
      assumption
    · cases h
    · cases h
  unfold Reply.decode at hdecode
  split at hdecode
  · cases hdecode
  · split at hdecode
    · rw [← CallResult.ok.inj hdecode]
      assumption
    · cases hdecode

/-- `call_swap`. -/
def callSwap (pool : Principal) (args : IcpSwapSwapArgs) : Async.Job Call Reply ExchangeError ℕ :=
  callExchange "swap" Reply.amount? (.swap pool args)

/-- `call_deposit_from`. -/
def callDepositFrom (pool : Principal) (args : IcpSwapMoveArgs) :
    Async.Job Call Reply ExchangeError ℕ :=
  callExchange "depositFrom" Reply.amount? (.depositFrom pool args)

/-- `call_withdraw`. -/
def callWithdraw (pool : Principal) (args : IcpSwapMoveArgs) :
    Async.Job Call Reply ExchangeError ℕ :=
  callExchange "withdraw" Reply.amount? (.withdraw pool args)

/-! ## Pools -/

/-- `token_to_icpswap_token`. -/
def tokenToIcpswapToken (token : TokenInfo) : IcpSwapToken :=
  ⟨token.canisterId.toText, token.standard.text⟩

/-- `is_zero_for_one`. -/
def isZeroForOne (base quote : TokenInfo) : Bool :=
  decide (base.canisterId.toText < quote.canisterId.toText)

/-- The ICPSwap factory, `4mmnk-kiaaa-aaaag-qbllq-cai`. -/
def factoryCanister : Principal :=
  ⟨[0, 0, 0, 0, 0, 208, 10, 215, 1, 1], by decide⟩

example : factoryCanister.toText = "4mmnk-kiaaa-aaaag-qbllq-cai" := by decide +kernel

/-- `get_pool_canister`. -/
def getPoolCanister (base quote : TokenInfo) : Async.Job Call Reply ExchangeError IcpSwapPoolData :=
  let (token0, token1) := if isZeroForOne base quote then (base, quote) else (quote, base)
  callExchange "getPool" Reply.pool? (.getPool factoryCanister {
    fee := 3000
    token0 := tokenToIcpswapToken token0
    token1 := tokenToIcpswapToken token1 })

/-- The pool is found exactly if the reply tells of it. -/
theorem outcome_getPoolCanister {base quote : TokenInfo} {r : Reply} {data : IcpSwapPoolData} :
    (getPoolCanister base quote).outcome r = .ok data ↔ r = .pool (.ok data) := by
  obtain ⟨call, hcall⟩ : ∃ call, getPoolCanister base quote =
      callExchange "getPool" Reply.pool? call := ⟨_, rfl⟩
  rw [hcall]
  constructor
  · intro h
    have hview := outcome_callExchange h
    unfold Reply.pool? at hview
    split at hview
    · rw [Option.some.inj hview]
    · cases hview
  · rintro rfl
    rfl

/-- `string_to_token_standard`. -/
def stringToTokenStandard : String → Except ExchangeError TokenStandard
  | "ICRC1" => .ok .icrc1
  | "ICRC2" => .ok .icrc2
  | "DIP20" => .ok .dip20
  | "EXT" => .ok .ext
  | "ICP" => .ok .icp
  | s => .error (.unsupportedToken ("Unknown standard string: " ++ s))

/-- The principal of an address of the pool. -/
def parseToken (host : Host) (name address : String) : Except ExchangeError Principal :=
  match host.principalFromText address with
  | .ok p => .ok p
  | .error e => .error (.internalError ("Failed to parse " ++ name ++ " principal: " ++ e))

/-- `get_pool_info` after its call. -/
def poolInfo (host : Host) (base quote : TokenInfo) (data : IcpSwapPoolData) :
    Except ExchangeError PoolInfo := do
  let token0 ← parseToken host "token0" data.token0.address
  let token1 ← parseToken host "token1" data.token1.address
  let standard0 ← stringToTokenStandard data.token0.standard
  let standard1 ← stringToTokenStandard data.token1.standard
  let fee ← toU64 "pool fee" data.fee
  return {
    poolId := data.canisterId
    token0 := ⟨token0, base.symbol, base.decimals, standard0⟩
    token1 := ⟨token1, quote.symbol, quote.decimals, standard1⟩
    fee := fee }

/-- `get_pool_info`. -/
def getPoolInfo (host : Host) (base quote : TokenInfo) :
    Async.Job Call Reply ExchangeError PoolInfo :=
  (getPoolCanister base quote).andThen (poolInfo host base quote)

/-! ## Balances -/

/-- `call_get_user_unused_balance`. -/
def callGetUserUnusedBalance (pool user : Principal) :
    Async.Job Call Reply ExchangeError (ℕ × ℕ) :=
  (callExchange "getUserUnusedBalance" Reply.unusedBalance?
    (.getUserUnusedBalance pool user)).andThen fun balance => do
      let balance0 ← toU128 "balance0" balance.balance0
      let balance1 ← toU128 "balance1" balance.balance1
      return (balance0, balance1)

/-- The balances are found if the reply tells of two that fit in a `u128`. -/
theorem outcome_callGetUserUnusedBalance {pool user : Principal} {r : Reply} {x : ℕ × ℕ}
    (h : (callGetUserUnusedBalance pool user).outcome r = .ok x) :
    ∃ balance : IcpSwapBalance, r = .unusedBalance (.ok balance) ∧ balance.Fits ∧
      x = (balance.balance0, balance.balance1) := by
  unfold callGetUserUnusedBalance Async.Job.andThen at h
  cases hr : (callExchange "getUserUnusedBalance" Reply.unusedBalance?
      (.getUserUnusedBalance pool user)).outcome r with
  | error e => simp [hr, Except.bind] at h
  | ok balance =>
    have hview := outcome_callExchange hr
    have hreply : r = .unusedBalance (.ok balance) := by
      unfold Reply.unusedBalance? at hview
      split at hview
      · rw [Option.some.inj hview]
      · cases hview
    refine ⟨balance, hreply, ?_⟩
    simp only [hr, Except.bind, bind] at h
    cases h0 : toU128 "balance0" balance.balance0 with
    | error e => simp [h0] at h
    | ok b0 =>
      cases h1 : toU128 "balance1" balance.balance1 with
      | error e => simp [h0, h1] at h
      | ok b1 =>
        simp only [h0, h1, pure, Except.pure, Except.ok.injEq] at h
        obtain ⟨hle0, rfl⟩ := toU128_eq h0
        obtain ⟨hle1, rfl⟩ := toU128_eq h1
        exact ⟨⟨hle0, hle1⟩, h.symm⟩

section Handlers

variable {ι σ : Type}

/-- `get_unused_balance` : the two balances and the address of the pool's first token. -/
def getUnusedBalance (params : TradeParams) (user : Principal) :
    Async ι σ Call Reply ExchangeError (ℕ × ℕ × String) := do
  let data ← (getPoolCanister params.baseToken params.quoteToken).run
  let (balance0, balance1) ← (callGetUserUnusedBalance data.canisterId user).run
  return (balance0, balance1, data.token0.address)

/-- The connector changes no state. -/
theorem changes_getUnusedBalance {R : ι → σ → σ → Prop} (params : TradeParams)
    (user : Principal) :
    (getUnusedBalance params user : Async ι σ Call Reply ExchangeError _).Changes R :=
  .bind (Async.changes_run _) fun _ => .bind (Async.changes_run _) fun _ => Async.changes_pure _

/-! ## Tokens -/

/-- A call to approve a spender. `refused` is the message of a refusal. -/
def approveCall {α ε : Type} (name : String) (view : Reply → Option (Except ε α))
    (refused : ε → String) (call : Call) : Async.Job Call Reply ExchangeError Unit where
  call := call
  outcome := fun reply => match reply.decode view with
    | .ok (.ok _) => .ok ()
    | .ok (.error e) => .error (.tokenApprovalFailed (refused e))
    | .error code message =>
      .error (.canisterCallError (name ++ " approve failed: " ++ code.debug ++ " - " ++ message))

/-- `approve_token`. -/
def approveToken (token : TokenInfo) (spender : Principal) (amount : ℕ) :
    Async ι σ Call Reply ExchangeError Unit :=
  match token.standard with
  | .dip20 =>
    (approveCall "DIP20" Reply.approved? id (.approveDip20 token.canisterId spender amount)).run
  | .ext =>
    (approveCall "EXT" Reply.approved? id (.approveExt token.canisterId none spender amount)).run
  | .icrc2 =>
    (approveCall "ICRC2" Reply.icrc2Approved? ApproveError.text
      (.icrc2Approve token.canisterId ⟨spender, none⟩ amount)).run
  | .icp =>
    (approveCall "ICRC2" Reply.icrc2Approved? ApproveError.text
      (.icrc2Approve token.canisterId ⟨spender, none⟩ amount)).run
  | .icrc1 =>
    .fail (.unsupportedToken
      ("Token standard " ++ token.standard.text ++ " does not support approve"))

/-- The transfer fee by which a deposit or a withdrawal goes. -/
def tokenFee : TokenStandard → ℕ
  | .icrc1 => 10000
  | .icp => 10000
  | .icrc2 => 1000000
  | .dip20 => 0
  | .ext => 0

/-- `deposit_token`. The allowance `amount * 100` wraps. -/
def depositToken (params : TradeParams) (token : TokenInfo) (amount : ℕ) :
    Async ι σ Call Reply ExchangeError ℕ :=
  match token.standard with
  | .icrc1 => .fail (.internalError "Unsupported type: ICRC1")
  | _ => do
    let data ← (getPoolCanister params.baseToken params.quoteToken).run
    approveToken token data.canisterId (amount * 100 % 2 ^ 128)
    let result ← (callDepositFrom data.canisterId
      ⟨tokenFee token.standard, token.canisterId.toText, amount⟩).run
    .ofExcept (toU128 "withdraw result" result)

/-- `withdraw_token`. -/
def withdrawToken (params : TradeParams) (token : TokenInfo) (amount : ℕ) :
    Async ι σ Call Reply ExchangeError ℕ := do
  let data ← (getPoolCanister params.baseToken params.quoteToken).run
  let result ← (callWithdraw data.canisterId
    ⟨tokenFee token.standard, token.canisterId.toText, amount⟩).run
  .ofExcept (toU128 "withdraw result" result)

/-- Nor does an approval change any. -/
theorem changes_approveToken {R : ι → σ → σ → Prop} (token : TokenInfo) (spender : Principal)
    (amount : ℕ) :
    (approveToken token spender amount : Async ι σ Call Reply ExchangeError Unit).Changes R := by
  unfold approveToken
  split <;> first | exact Async.changes_run _ | exact .fail _

theorem changes_depositToken {R : ι → σ → σ → Prop} (params : TradeParams) (token : TokenInfo)
    (amount : ℕ) :
    (depositToken params token amount : Async ι σ Call Reply ExchangeError ℕ).Changes R := by
  unfold depositToken
  split
  · exact .fail _
  · exact .bind (Async.changes_run _) fun _ => .bind (changes_approveToken _ _ _) fun _ =>
      .bind (Async.changes_run _) fun _ => Async.changes_ofExcept _

theorem changes_withdrawToken {R : ι → σ → σ → Prop} (params : TradeParams) (token : TokenInfo)
    (amount : ℕ) :
    (withdrawToken params token amount : Async ι σ Call Reply ExchangeError ℕ).Changes R :=
  .bind (Async.changes_run _) fun _ => .bind (Async.changes_run _) fun _ =>
    Async.changes_ofExcept _

end Handlers

/-! ## Swaps -/

/-- The token that a trade sells and the token that it buys. -/
def TradeParams.tokens (params : TradeParams) : TokenInfo × TokenInfo :=
  match params.direction with
  | .buy => (params.quoteToken, params.baseToken)
  | .sell => (params.baseToken, params.quoteToken)

/-- `execute_call_trade_no_slippage`. -/
def executeCallTradeNoSlippage (params : TradeParams) (pool : PoolInfo) :
    Async.Job Call Reply ExchangeError TradeResult :=
  let (inputToken, outputToken) := TradeParams.tokens params
  (callSwap pool.poolId {
    zeroForOne := isZeroForOne inputToken outputToken
    amountIn := toString params.amount
    amountOutMinimum := "0" }).andThen fun result => do
      let output ← toU128 "final swap result" result
      return ⟨params.amount, output⟩

end Icpswap

end HunterFi
