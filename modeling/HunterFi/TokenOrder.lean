import HunterFi.Trading
import Mathlib.Data.String.Basic

/-!
# Which token a cycle spends

The order of the two tokens is worked out four times : for the pool, for the balances, for the
direction of the trade and for the flag `zeroForOne` of each swap. `spendsChecked` : they agree,
for both orders of the texts, so that the swaps of stage 1 sell the token whose balance the cycle
has checked and is sized from, and those of stage 2 the other one.

The configuration may change while a cycle awaits replies, but not its trading pair
(`Effect.tradingPair`). `spendsChecked_throughout` : so it is in every run of a canister.
-/

set_option linter.unusedSectionVars false

namespace HunterFi

open Icpswap SelfHedging

/-! ## Directions -/

/-- The flag of a swap. -/
def Call.zeroForOne? : Call → Option Bool
  | .swap _ args => some args.zeroForOne
  | _ => none

/-- The balance of the token that a swap with this flag sells. -/
def IcpSwapBalance.ofInput (balance : IcpSwapBalance) (zeroForOne : Bool) : ℕ :=
  if zeroForOne then balance.balance0 else balance.balance1

theorem IcpSwapBalance.Fits.ofInput_le {balance : IcpSwapBalance} (h : balance.Fits)
    (zeroForOne : Bool) : balance.ofInput zeroForOne ≤ u128Max := by
  unfold IcpSwapBalance.ofInput
  split_ifs
  · exact h.1
  · exact h.2

/-- A pool that is found has the first token of the question as its first token. -/
def Call.OrdersTokens : Call → Reply → Prop
  | .getPool _ args, .pool (.ok data) => data.token0.address = args.token0.address
  | _, _ => True

namespace SelfHedging

/-- The flag of the swaps of a trade. -/
def direction (params : TradeParams) : Bool :=
  isZeroForOne (TradeParams.tokens params).1 (TradeParams.tokens params).2

/-- Of two tokens one is the first. -/
theorem isZeroForOne_swap (base quote : TokenInfo) (h : base.canisterId ≠ quote.canisterId) :
    isZeroForOne quote base = !isZeroForOne base quote := by
  have hne : base.canisterId.toText ≠ quote.canisterId.toText :=
    fun heq => h (Principal.toText_injective heq)
  unfold isZeroForOne
  rcases lt_or_gt_of_ne hne with hlt | hlt
  · rw [decide_eq_true hlt, decide_eq_false hlt.not_gt, Bool.not_true]
  · rw [decide_eq_true hlt, decide_eq_false hlt.not_gt, Bool.not_false]

/-- A trade the other way has the opposite flag. -/
theorem direction_reverse {params : TradeParams}
    (h : params.baseToken.canisterId ≠ params.quoteToken.canisterId) :
    direction { params with direction := params.direction.reverse } = !direction params := by
  obtain ⟨base, quote, way, amount⟩ := params
  cases way with
  | buy => exact isZeroForOne_swap quote base (Ne.symm h)
  | sell => exact isZeroForOne_swap base quote h

theorem call_callSwap (pool : Principal) (args : IcpSwapSwapArgs) :
    (callSwap pool args).call = .swap pool args :=
  rfl

theorem zeroForOne?_trade (params : TradeParams) (pool : PoolInfo) :
    (executeCallTradeNoSlippage params pool).call.zeroForOne? = some (direction params) := by
  unfold executeCallTradeNoSlippage direction
  rw [Async.Job.call_andThen, call_callSwap, Call.zeroForOne?]

theorem zeroForOne?_of_mem_trades (params : TradeParams) (pool : PoolInfo) (os : List (ℕ × ℕ)) :
    ∀ c ∈ (trades params pool os).map Async.Job.call, c.zeroForOne? = some (direction params) := by
  intro c hc
  rw [map_call_trades] at hc
  obtain ⟨o, -, rfl⟩ := List.mem_map.1 hc
  exact zeroForOne?_trade _ pool

/-! ## The balance that a cycle is sized from -/

/-- `hold_token_balance`, from the balances of the base and of the quote token. -/
def holdTokenBalance (config : SelfHedgingConfig) (balances : ℕ × ℕ) : ℕ :=
  if holdTokenIsBase config then balances.1 else balances.2

/-- The direction in which a cycle begins to trade. -/
def initialDirection (config : SelfHedgingConfig) : TradeDirection :=
  if holdTokenIsBase config then .sell else .buy

/-- The token that is placed first in the question for a pool. -/
def firstToken (base quote : TokenInfo) : TokenInfo :=
  if isZeroForOne base quote then base else quote

theorem call_getPoolCanister (base quote : TokenInfo) : ∃ args,
    (getPoolCanister base quote).call = .getPool factoryCanister args ∧
      args.token0.address = (firstToken base quote).canisterId.toText := by
  unfold getPoolCanister firstToken
  split_ifs <;> exact ⟨_, rfl, rfl⟩

/-- The base token is the pool's first token exactly if it comes first. -/
theorem baseToken_eq_first (base quote : TokenInfo) (h : base.canisterId ≠ quote.canisterId) :
    decide (base.canisterId.toText = (firstToken base quote).canisterId.toText) =
      isZeroForOne base quote := by
  unfold firstToken
  cases isZeroForOne base quote with
  | true => simp
  | false => simpa using fun heq => h (Principal.toText_injective heq)

/-- The balance of the token that a trade sells, from the balances in the order of the pair. -/
theorem ofInput_sold (balance : IcpSwapBalance) {base quote : TokenInfo}
    (h : base.canisterId ≠ quote.canisterId) (sellsBase : Bool) :
    balance.ofInput (if sellsBase then isZeroForOne base quote else isZeroForOne quote base) =
      if sellsBase then (if isZeroForOne base quote then balance.balance0 else balance.balance1)
      else if isZeroForOne base quote then balance.balance1 else balance.balance0 := by
  rw [isZeroForOne_swap base quote h, IcpSwapBalance.ofInput]
  cases sellsBase <;> cases isZeroForOne base quote <;> rfl

theorem direction_sell (config : SelfHedgingConfig) : direction (hedgeParams config .sell) =
    isZeroForOne (createTokenInfo config.tradingPair.baseToken)
      (createTokenInfo config.tradingPair.quoteToken) :=
  rfl

theorem direction_buy (config : SelfHedgingConfig) : direction (hedgeParams config .buy) =
    isZeroForOne (createTokenInfo config.tradingPair.quoteToken)
      (createTokenInfo config.tradingPair.baseToken) :=
  rfl

/-- The flag of the first trade of a cycle. -/
theorem direction_initial {config config' : SelfHedgingConfig}
    (hpair : config'.tradingPair = config.tradingPair) :
    direction (hedgeParams config' (initialDirection config)) =
      if holdTokenIsBase config then
        isZeroForOne (createTokenInfo config.tradingPair.baseToken)
          (createTokenInfo config.tradingPair.quoteToken)
      else isZeroForOne (createTokenInfo config.tradingPair.quoteToken)
        (createTokenInfo config.tradingPair.baseToken) := by
  rw [← hpair, initialDirection]
  split_ifs
  · rw [direction_sell]
  · rw [direction_buy]

/-- The balance of the hold token is that of the token that the first trade sells. -/
theorem holdTokenBalance_inOrder {m : Memory} {config' : SelfHedgingConfig}
    (balance : IcpSwapBalance) {address : String}
    (hpair : config'.tradingPair = m.state.config.tradingPair)
    (hne : m.state.config.tradingPair.baseToken.canisterId ≠
      m.state.config.tradingPair.quoteToken.canisterId)
    (haddress : address = (firstToken (createTokenInfo m.state.config.tradingPair.baseToken)
      (createTokenInfo m.state.config.tradingPair.quoteToken)).canisterId.toText) :
    holdTokenBalance m.state.config (inOrder m (balance.balance0, balance.balance1, address)) =
      balance.ofInput (direction (hedgeParams config' (initialDirection m.state.config))) := by
  have hfirst := baseToken_eq_first (createTokenInfo m.state.config.tradingPair.baseToken)
    (createTokenInfo m.state.config.tradingPair.quoteToken) hne
  rw [← haddress] at hfirst
  have horder : inOrder m (balance.balance0, balance.balance1, address) =
      if isZeroForOne (createTokenInfo m.state.config.tradingPair.baseToken)
        (createTokenInfo m.state.config.tradingPair.quoteToken) then
        (balance.balance0, balance.balance1) else (balance.balance1, balance.balance0) := by
    rw [← hfirst]
    rfl
  rw [direction_initial hpair, ofInput_sold balance hne, horder, holdTokenBalance]
  cases holdTokenIsBase m.state.config <;> cases isZeroForOne
    (createTokenInfo m.state.config.tradingPair.baseToken)
    (createTokenInfo m.state.config.tradingPair.quoteToken) <;> rfl

/-! ## The balance check -/

/-- The memory in which a balance check leaves the balances of the pool, and what it returns. -/
def balancesOf (m : Memory) (data : IcpSwapPoolData) (balance : IcpSwapBalance) : ℕ × ℕ :=
  inOrder m (balance.balance0, balance.balance1, data.token0.address)

/-- The balance check in the memory `m`, from the question for the pool on. -/
def balanceCheck (host : Host) (m : Memory)
    (job : Async.Job Call Reply ExchangeError IcpSwapPoolData) : Handler (ℕ × ℕ) :=
  ((job.run.bind fun data => (callGetUserUnusedBalance data.canisterId host.id).run.bind fun x =>
      .ret (x.1, x.2, data.token0.address)).mapError
        fun e => "Failed to get unused balance: " ++ e.debug).bind fun a =>
    (Async.modify (updateUnusedBalance (inOrder m a).1 (inOrder m a).2)).bind fun _ =>
      .ret (inOrder m a)

theorem checkIcpswapBalance_eq (host : Host) : checkIcpswapBalance host = Async.get.bind fun m =>
    balanceCheck host m (getPoolCanister (createTradeParams m.state.config).baseToken
      (createTradeParams m.state.config).quoteToken) := by
  refine congrArg (Async.bind Async.get) (funext fun m => congrArg (Async.bind _)
    (funext fun a => ?_))
  obtain ⟨balance0, balance1, token0⟩ := a
  dsimp only [inOrder]
  cases decide (m.state.config.tradingPair.baseToken.canisterId.toText = token0) <;> rfl

/-- A balance check asks for the pool and the balance, and goes on if it is told of both. -/
theorem batches_balanceCheck (host : Host) (m : Memory)
    (job : Async.Job Call Reply ExchangeError IcpSwapPoolData) (g : String → String) {α : Type}
    (q : ℕ × ℕ → Handler α) (t₀ t₁ : Async.Turn Env Memory Reply) :
    (∃ asked, asked.length ≤ 1 ∧ (∀ c ∈ asked.flatten, c.isSwap = false) ∧
      ∀ ts, Async.batches (t₀ :: t₁ :: ts) (((balanceCheck host m job).mapError g).bind q) =
        [job.call] :: asked) ∨
      ∃ asked data balance, (∀ c ∈ asked, c.isSwap = false) ∧
        job.outcome (t₀.replies.headD default) = .ok data ∧
        (t₁.replies.headD default = .unusedBalance (.ok balance) ∧ balance.Fits) ∧
        ∀ ts, Async.batches (t₀ :: t₁ :: ts) (((balanceCheck host m job).mapError g).bind q) =
          [job.call] :: asked :: Async.batches ts ((Async.modify (updateUnusedBalance
            (balancesOf m data balance).1 (balancesOf m data balance).2)).bind
              fun _ => q (balancesOf m data balance)) := by
  have hfirst : ∀ ts, Async.batches (t₀ :: t₁ :: ts)
      (((balanceCheck host m job).mapError g).bind q) = [job.call] :: Async.batches (t₁ :: ts)
        ((((((Async.ofExcept (job.outcome (t₀.replies.headD default))).bind _).mapError _).bind
          _).mapError g).bind q) := fun ts => rfl
  cases h₀ : job.outcome (t₀.replies.headD default) with
  | error e =>
    refine Or.inl ⟨[], by simp, by simp, fun ts => ?_⟩
    rw [hfirst, h₀]
    rfl
  | ok data =>
    have hasked : ∀ c ∈ [(callGetUserUnusedBalance data.canisterId host.id).call],
        c.isSwap = false := List.forall_mem_singleton.2 rfl
    have hsecond : ∀ ts, Async.batches (t₀ :: t₁ :: ts)
        (((balanceCheck host m job).mapError g).bind q) =
          [job.call] :: [(callGetUserUnusedBalance data.canisterId host.id).call] ::
            Async.batches ts ((((((Async.ofExcept ((callGetUserUnusedBalance data.canisterId
              host.id).outcome (t₁.replies.headD default))).bind _).mapError _).bind _).mapError
                g).bind q) := fun ts => by
      rw [hfirst, h₀]
      rfl
    cases h₁ : (callGetUserUnusedBalance data.canisterId host.id).outcome
        (t₁.replies.headD default) with
    | error e =>
      refine Or.inl ⟨[[(callGetUserUnusedBalance data.canisterId host.id).call]],
        le_rfl, by simpa using hasked, fun ts => ?_⟩
      rw [hsecond, h₁]
      exact congrArg (fun calls => _ :: _ :: calls) (Async.batches_fail ts _)
    | ok x =>
      obtain ⟨balance, hbalance, hfits, rfl⟩ := outcome_callGetUserUnusedBalance h₁
      refine Or.inr ⟨_, data, balance, hasked, rfl, ⟨hbalance, hfits⟩, fun ts => ?_⟩
      rw [hsecond, h₁]
      rfl

/-! ## The swaps of the stages -/

/-- The swaps among the calls all have this flag. -/
def Directed (zeroForOne : Bool) (submitted : List (List Call)) : Prop :=
  ∀ calls ∈ submitted, ∀ c ∈ calls, c.isSwap = true → c.zeroForOne? = some zeroForOne

theorem directed_nil (z : Bool) : Directed z [] :=
  fun _ hcalls => (nomatch hcalls)

theorem directed_cons {z : Bool} {calls : List Call} {submitted : List (List Call)} :
    Directed z (calls :: submitted) ↔
      (∀ c ∈ calls, c.isSwap = true → c.zeroForOne? = some z) ∧ Directed z submitted :=
  List.forall_mem_cons

/-- Where there is no swap any flag will do. -/
theorem directed_of_no_swap {calls : List Call} (h : ∀ c ∈ calls, c.isSwap = false) (z : Bool) :
    ∀ c ∈ calls, c.isSwap = true → c.zeroForOne? = some z := by
  intro c hc hswap
  rw [h c hc] at hswap
  cases hswap

/-- The balance check submits no swap. -/
theorem directed_checkIcpswapBalance (host : Host) (z : Bool) :
    ∀ ts, Directed z (Async.batches ts (checkIcpswapBalance host))
  | [] => directed_nil z
  | [t] => by
    rw [checkIcpswapBalance_eq, Async.batches_get_bind]
    exact directed_cons.2 ⟨directed_of_no_swap
      (List.forall_mem_singleton.2 (isSwap_getPoolCanister _ _)) z, directed_nil z⟩
  | t₀ :: t₁ :: ts => by
    have hpool := directed_of_no_swap (List.forall_mem_singleton.2 (isSwap_getPoolCanister
      (createTradeParams t₀.state.state.config).baseToken
      (createTradeParams t₀.state.state.config).quoteToken)) z
    rw [checkIcpswapBalance_eq, Async.batches_get_bind, ← Async.batches_mapError fun e => e,
      ← Async.batches_bind (q := Async.ret) fun x ts => Async.batches_ret ts x]
    rcases batches_balanceCheck host t₀.state (getPoolCanister
      (createTradeParams t₀.state.state.config).baseToken
      (createTradeParams t₀.state.state.config).quoteToken) (fun e => e) Async.ret t₀ t₁ with
      ⟨asked, -, hasked, hsubmitted⟩ | ⟨asked, data, balance, hasked, -, -, hsubmitted⟩
    · rw [hsubmitted]
      refine directed_cons.2 ⟨hpool, fun calls hcalls => directed_of_no_swap (fun c hc => ?_) z⟩
      exact hasked c (List.mem_flatten_of_mem hcalls hc)
    · rw [hsubmitted]
      refine directed_cons.2 ⟨hpool, directed_cons.2 ⟨directed_of_no_swap hasked z, ?_⟩⟩
      cases ts <;> exact directed_nil z

/-- The balance check at the end of the trades submits no swap. -/
theorem directed_recheck (host : Host) (z : Bool) (volume : ℕ)
    (ts : List (Async.Turn Env Memory Reply)) : Directed z (Async.batches ts
      ((checkIcpswapBalance host).attempt.bind fun _ => .ret volume : Handler ℕ)) := by
  rw [Async.batches_bind fun _ ts => Async.batches_ret ts volume, Async.batches_attempt]
  exact directed_checkIcpswapBalance host z ts

/-- The swaps of stage 2 have the flag of its trades. -/
theorem directed_stageTwo (params : TradeParams) (pool : PoolInfo) (split : Bool)
    (total volume : ℕ) {q : ℕ → Handler ℕ}
    (hq : ∀ v ts, Directed (direction params) (Async.batches ts (q v))) :
    ∀ ts, Directed (direction params)
      (Async.batches ts ((stageTwo params pool split total volume).bind q))
  | [] => directed_nil _
  | t :: ts => by
    unfold stageTwo
    cases split with
    | true =>
      simp only [if_true, Async.bind_eq, Async.bind_assoc, Async.batches_env_bind]
      split_ifs
      · exact hq _ _
      · refine directed_cons.2 ⟨fun c hc _ => zeroForOne?_of_mem_trades params pool _ c hc, ?_⟩
        exact hq _ _
    | false =>
      simp only [Bool.false_eq_true, if_false]
      split_ifs
      · rw [Async.bind_eq, Async.bind_assoc, Async.run_mapError_bind, Async.batches_call]
        refine directed_cons.2 ⟨?_, ?_⟩
        · exact List.forall_mem_singleton.2 fun _ => zeroForOne?_trade _ pool
        · split
          · exact hq _ _
          · rw [Async.batches_fail]
            exact directed_nil _
      · exact hq _ _

/-- The swaps after stage 1 have the opposite flag. -/
theorem directed_afterStageOne (host : Host) {params : TradeParams}
    (hne : params.baseToken.canisterId ≠ params.quoteToken.canisterId) (pool : PoolInfo)
    (splitType : OrderSplitType) (volume : ℕ) (outputs : List ℕ)
    (ts : List (Async.Turn Env Memory Reply)) : Directed (!direction params)
      (Async.batches ts (afterStageOne host params pool splitType volume outputs)) := by
  rw [← direction_reverse hne]
  unfold afterStageOne
  dsimp only
  split_ifs
  · exact directed_recheck host _ volume ts
  · exact directed_stageTwo _ pool _ _ _ (fun v => directed_recheck host _ v) ts

/-- What the orders of a stage sell, in turn. -/
def ordersSold (split : Bool) (amounts : List ℕ) : List ℕ :=
  if split then amounts.filter fun a => a ≠ 0 else [wrappingSum amounts]

/-- Stage 1 submits the orders at once, if there is anything to sell. -/
theorem stageOne_submits (params : TradeParams) (pool : PoolInfo) (split : Bool)
    (amounts : List ℕ) (hpos : 0 < amounts.sum) (hlt : amounts.sum < 2 ^ 128) :
    ∃ (sales : List Call) (settle : List Reply → Except String (ℕ × List ℕ)),
      stageOne params pool split amounts = .call sales (fun rs => .ofExcept (settle rs)) ∧
        sales ≠ [] ∧ (∀ c ∈ sales, c.zeroForOne? = some (direction params)) ∧
          sales.map Call.sold = ordersSold split amounts := by
  unfold stageOne ordersSold
  cases split with
  | true =>
    have hos : orders amounts ≠ [] := by
      intro hnil
      have hsold := sold_trades params pool amounts
      rw [hnil] at hsold
      exact hpos.ne hsold
    simp only [if_true, List.isEmpty_iff, hos, if_false]
    refine ⟨_, fun rs => collectOutputs ((orders amounts).zip (List.zipWith Async.Job.outcome
      (trades params pool (orders amounts)) rs)) 0 [], rfl, by simpa [trades] using hos,
      zeroForOne?_of_mem_trades params pool _, ?_⟩
    rw [map_sold_trades, map_fst_orders]
  | false =>
    have htotal : 0 < wrappingSum amounts := by
      rwa [wrappingSum_eq, Nat.mod_eq_of_lt hlt]
    simp only [Bool.false_eq_true, if_false, if_pos htotal]
    rw [Async.bind_eq, Async.run_mapError_bind]
    refine ⟨_, fun rs => (((executeCallTradeNoSlippage
        { params with amount := wrappingSum amounts } pool).outcome (rs.headD default)).mapError
          fun e => "Stage 1 trade failed (Single order): " ++ e.debug).map
            fun result => (addVolume 0 result.inputAmount, [result.outputAmount]),
      congrArg (Async.call _) (funext fun rs => ?_), List.cons_ne_nil _ _,
      List.forall_mem_singleton.2 (zeroForOne?_trade _ pool), ?_⟩
    · dsimp only
      cases (executeCallTradeNoSlippage { params with amount := wrappingSum amounts }
        pool).outcome (rs.headD default) <;> rfl
    · rw [List.map_singleton, sold_trade]

/-- The two stages submit the swaps of the first one, and after these swaps the other way. -/
theorem batches_stages (host : Host) {params : TradeParams}
    (hne : params.baseToken.canisterId ≠ params.quoteToken.canisterId) (pool : PoolInfo)
    (split : Bool) (splitType : OrderSplitType) {amounts : List ℕ} (hpos : 0 < amounts.sum)
    (hlt : amounts.sum < 2 ^ 128) {t : Async.Turn Env Memory Reply}
    {ts : List (Async.Turn Env Memory Reply)} {sales : List Call} {later : List (List Call)}
    (h : Async.batches (t :: ts) ((stageOne params pool split amounts).bind
      fun x => afterStageOne host params pool splitType x.1 x.2) = sales :: later) :
    sales.map Call.sold = ordersSold split amounts ∧ sales ≠ [] ∧
      (∀ c ∈ sales, c.zeroForOne? = some (direction params)) ∧
      Directed (!direction params) later := by
  obtain ⟨sales', settle, hcall, hsales, hflag, hsold⟩ :=
    stageOne_submits params pool split amounts hpos hlt
  rw [hcall, Async.bind, Async.batches_call] at h
  obtain ⟨rfl, rfl⟩ := List.cons_eq_cons.1 h
  refine ⟨hsold, hsales, hflag, ?_⟩
  cases settle t.replies with
  | error e =>
    rw [Async.ofExcept, Async.fail_bind, Async.batches_fail]
    exact directed_nil _
  | ok x => exact directed_afterStageOne host hne pool _ _ _ ts

/-! ## The cycle -/

theorem batches_guarded (p : Handler (Option ℕ)) (ts : List (Async.Turn Env Memory Reply)) :
    Async.batches ts (guarded (p.bind record)) = Async.batches ts p := by
  rw [guarded, Async.batches_bind, Async.batches_attempt, Async.batches_bind]
  · intro volume ts
    cases volume with
    | none => exact Async.batches_ret ts ()
    | some v => exact Async.batches_modify _ ts
  · intro result ts
    rw [Async.batches_bind fun _ ts => Async.batches_ofExcept result ts]
    exact Async.batches_modify _ ts

/-- An execution that submits anything submits what its trades do. -/
theorem batches_executeOnce {host : Host} {t : Async.Turn Env Memory Reply}
    {ts : List (Async.Turn Env Memory Reply)} {calls : List Call} {later : List (List Call)}
    (h : Async.batches (t :: ts) (executeOnce host) = calls :: later) :
    Async.batches ({ t with state := withFlag true t.state } :: ts) (executionTrades host) =
      calls :: later := by
  rcases executeOnce_segment host t.env t.state with ⟨-, e, he, -⟩ | ⟨-, -, hguards⟩
  · rw [Async.batches, he] at h
    cases h
  · rw [← h, Async.batches, Async.batches]
    generalize (executeOnce host).segment t.env t.state = r at hguards
    cases hguards with
    | done volume h => rw [h]
    | failed e h => rw [h]
    | calls calls k h =>
      rw [h]
      exact congrArg (calls :: ·) (batches_guarded _ ts).symm

theorem batches_check_bind (host : Host) (g : String → String) {α : Type} (q : ℕ × ℕ → Handler α)
    (t : Async.Turn Env Memory Reply) (ts : List (Async.Turn Env Memory Reply)) :
    Async.batches (t :: ts) (((checkIcpswapBalance host).mapError g).bind q) =
      Async.batches (t :: ts) (((balanceCheck host t.state
        (getPoolCanister (createTradeParams t.state.state.config).baseToken
          (createTradeParams t.state.state.config).quoteToken)).mapError g).bind q) := by
  rw [checkIcpswapBalance_eq, Async.mapError_bind, Async.mapError_get, Async.bind_assoc,
    Async.batches_get_bind]

/-- The amount that a cycle trades. -/
def tradeAmount (state : SelfHedgingState) (balance : ℕ) : ℕ :=
  if state.transactionSize ≤ balance then state.transactionSize else balance

theorem tradeAmount_le (state : SelfHedgingState) (balance : ℕ) :
    tradeAmount state balance ≤ balance := by
  unfold tradeAmount
  split_ifs with hfull
  · exact hfull
  · exact le_rfl

/-- A cycle that has found these balances in the memory `m` sells, in `sales`, the token whose
balance it is sized from, and the other one in what it submits after that. -/
structure SpendsChecked (m : Memory) (env : Env) (data : IcpSwapPoolData)
    (balance : IcpSwapBalance) (zeroForOne : Bool) (sales : List Call)
    (later : List (List Call)) : Prop where
  held : holdTokenBalance m.state.config (balancesOf m data balance) =
    balance.ofInput zeroForOne
  enough : m.state.transactionSize / 20 ≤ balance.ofInput zeroForOne
  sized : ∃ split, sales.map Call.sold = ordersSold split (splitAmount env
    (tradeAmount m.state (balance.ofInput zeroForOne)) (getSplitOrderCount env))
  trades : sales ≠ []
  sells : ∀ c ∈ sales, c.zeroForOne? = some zeroForOne
  buysBack : Directed (!zeroForOne) later

theorem SpendsChecked.of_withFlag {m : Memory} {env : Env} {data : IcpSwapPoolData}
    {balance : IcpSwapBalance} {z flag : Bool} {sales : List Call} {later : List (List Call)}
    (h : SpendsChecked (withFlag flag m) env data balance z sales later) :
    SpendsChecked m env data balance z sales later :=
  ⟨h.held, h.enough, h.sized, h.trades, h.sells, h.buysBack⟩

/-- `execute_once` from `hold_token_balance` up to the call of `update_state_after_execution`. -/
def spend (host : Host) (state : SelfHedgingState) (balance : ℕ) : Handler (Option ℕ) :=
  let config := state.config
  let symbol := if holdTokenIsBase config then config.tradingPair.baseToken.symbol
    else config.tradingPair.quoteToken.symbol
  let shortage := symbol ++ " balance (" ++ toString balance ++ ") < 5% of transaction size (" ++
    toString state.transactionSize ++ ")"
  if balance < state.transactionSize / 20 then
    (Async.update (pause host)).attempt.bind fun paused => match paused with
      | .ok () => .fail ("Strategy paused: insufficient " ++ shortage ++ ".")
      | .error e => .fail ("Insufficient " ++ shortage ++ ", but failed to pause: " ++ e)
  else if tradeAmount state balance = 0 then .ret none
  else Async.env.bind fun env =>
    ((executeHedgeTrades host (initialDirection config)
      (splitAmount env (tradeAmount state balance) (getSplitOrderCount env))
      state.orderSplitType).mapError fun e => "Failed to execute hedge trades: " ++ e).bind
        fun volume => .ret (some volume)

/-- A cycle checks the cooldown and the balance, and spends the balance of the hold token. -/
theorem executionTrades_eq (host : Host) : executionTrades host = Async.get.bind fun m =>
    Async.env.bind fun env =>
      if m.state.lastExecution.any fun t => env.time < saturatingAdd t cooldownNs then
        .fail "Previous execution may still be in progress"
      else ((checkIcpswapBalance host).mapError fun e =>
        "Failed to check exchange balance: " ++ e).bind fun x =>
          spend host m.state (holdTokenBalance m.state.config x) := by
  rfl

/-- What a cycle that spends `balance` submits, once it does. -/
theorem batches_spend {host : Host} {state : SelfHedgingState} {balance : ℕ}
    {t t' : Async.Turn Env Memory Reply} {ts : List (Async.Turn Env Memory Reply)}
    {found sales : List Call} {later : List (List Call)} (hle : balance ≤ u128Max)
    (hne : t.state.state.config.tradingPair.baseToken.canisterId ≠
      t.state.state.config.tradingPair.quoteToken.canisterId)
    (h : Async.batches (t :: t' :: ts) (spend host state balance) = found :: sales :: later) :
    state.transactionSize / 20 ≤ balance ∧
      (∃ split, sales.map Call.sold = ordersSold split (splitAmount t.env
        (tradeAmount state balance) (getSplitOrderCount t.env))) ∧
      sales ≠ [] ∧
      (∀ c ∈ sales, c.zeroForOne? =
        some (direction (hedgeParams t.state.state.config (initialDirection state.config)))) ∧
      Directed (!direction (hedgeParams t.state.state.config (initialDirection state.config)))
        later := by
  unfold spend at h
  dsimp only at h
  by_cases hshort : balance < state.transactionSize / 20
  · -- nothing is submitted
    rw [if_pos hshort, Async.batches_bind, Async.batches_attempt, Async.batches_update] at h
    · cases h
    · intro paused ts
      cases paused <;> exact Async.batches_fail ts _
  rw [if_neg hshort] at h
  refine ⟨Nat.le_of_not_lt hshort, ?_⟩
  by_cases hzero : tradeAmount state balance = 0
  · rw [if_pos hzero] at h
    cases h
  rw [if_neg hzero, Async.batches_env_bind, Async.batches_bind fun v ts => Async.batches_ret ts _,
    Async.batches_mapError] at h
  obtain ⟨opening, -, hnone | ⟨pool, split, hstages⟩⟩ := batches_executeHedgeTrades host
    (initialDirection state.config) (splitAmount t.env (tradeAmount state balance)
      (getSplitOrderCount t.env)) state.orderSplitType t
  · rw [hnone] at h
    cases h
  rw [hstages] at h
  have hamount : tradeAmount state balance < 2 ^ 128 :=
    ((tradeAmount_le state balance).trans hle).trans_lt (by decide)
  have hcount := getSplitOrderCount_le t.env
  have hsum := sum_splitAmount t.env (Nat.pos_of_ne_zero hzero) hamount
    (hcount.trans_lt (by decide))
  obtain ⟨hsold, hsales, hflag, hlater⟩ := batches_stages host hne pool split
    state.orderSplitType (by omega) (by omega) (List.cons_eq_cons.1 h).2
  exact ⟨⟨split, hsold⟩, hsales, hflag, hlater⟩

/-- What a cycle submits, once it trades. -/
theorem batches_executionTrades {host : Host} {t₀ t₁ t₂ t₃ : Async.Turn Env Memory Reply}
    {ts : List (Async.Turn Env Memory Reply)} {opening asked found sales : List Call}
    {later : List (List Call)}
    (hne : t₀.state.state.config.tradingPair.baseToken.canisterId ≠
      t₀.state.state.config.tradingPair.quoteToken.canisterId)
    (hpair : t₂.state.state.config.tradingPair = t₀.state.state.config.tradingPair)
    (horder : ∀ c ∈ opening, c.OrdersTokens (t₀.replies.headD default))
    (h : Async.batches (t₀ :: t₁ :: t₂ :: t₃ :: ts) (executionTrades host) =
      opening :: asked :: found :: sales :: later) :
    ∃ data balance zeroForOne, t₀.replies.headD default = .pool (.ok data) ∧
      t₁.replies.headD default = .unusedBalance (.ok balance) ∧
      SpendsChecked t₀.state t₂.env data balance zeroForOne sales later := by
  rw [executionTrades_eq, Async.batches_get_bind, Async.batches_env_bind] at h
  split_ifs at h
  · cases h
  rw [batches_check_bind] at h
  obtain ⟨args, hargs, haddress⟩ := call_getPoolCanister
    (createTradeParams t₀.state.state.config).baseToken
    (createTradeParams t₀.state.state.config).quoteToken
  rcases batches_balanceCheck host t₀.state (getPoolCanister
    (createTradeParams t₀.state.state.config).baseToken
    (createTradeParams t₀.state.state.config).quoteToken)
    (fun e => "Failed to check exchange balance: " ++ e)
    (fun x => spend host t₀.state.state (holdTokenBalance t₀.state.state.config x)) t₀ t₁ with
    ⟨asked', hlen, -, hsubmitted⟩ | ⟨asked', data, balance, -, hdata, ⟨hbalance, hfits⟩, hsubmitted⟩
  · -- the pool or the balance is not found
    rw [hsubmitted] at h
    obtain ⟨-, rfl⟩ := List.cons_eq_cons.1 h
    simp at hlen
  rw [hsubmitted, Async.batches_modify_bind] at h
  obtain ⟨rfl, hasked⟩ := List.cons_eq_cons.1 h
  obtain ⟨-, hspend⟩ := List.cons_eq_cons.1 hasked
  have hpool := outcome_getPoolCanister.1 hdata
  have hfirst : data.token0.address = args.token0.address := by
    rw [hargs, hpool] at horder
    exact horder _ List.mem_cons_self
  have hheld := holdTokenBalance_inOrder balance hpair hne (hfirst.trans haddress)
  -- a name for the balances, as the configuration does not depend on them
  obtain ⟨balances, hfound⟩ : ∃ balances, balancesOf t₀.state data balance = balances := ⟨_, rfl⟩
  have hsame : holdTokenBalance t₀.state.state.config balances = balance.ofInput
      (direction (hedgeParams t₂.state.state.config (initialDirection t₀.state.state.config))) :=
    hfound ▸ hheld
  rw [hfound] at hspend
  obtain ⟨henough, hsized, hsales, hflag, hlater⟩ :=
    batches_spend (hsame ▸ hfits.ofInput_le _) (hpair ▸ hne) hspend
  rw [hsame] at henough hsized
  exact ⟨data, balance, _, hpool, hbalance, ⟨hheld, henough, hsized, hsales, hflag, hlater⟩⟩

/-- The swaps of stage 1 sell the token whose balance the cycle has checked and is sized from, and
those of stage 2 the other one, in either order of the texts and for any hold token. The pair is
one for the whole cycle, which `Log.spendsChecked_throughout` shows of runs. -/
theorem executeOnce_spendsChecked (host : Host) {t₀ t₁ t₂ t₃ : Async.Turn Env Memory Reply}
    {ts : List (Async.Turn Env Memory Reply)} {opening asked found sales : List Call}
    {later : List (List Call)}
    (hne : t₀.state.state.config.tradingPair.baseToken.canisterId ≠
      t₀.state.state.config.tradingPair.quoteToken.canisterId)
    (hpair : t₂.state.state.config.tradingPair = t₀.state.state.config.tradingPair)
    (horder : ∀ c ∈ opening, c.OrdersTokens (t₀.replies.headD default))
    (h : Async.batches (t₀ :: t₁ :: t₂ :: t₃ :: ts) (executeOnce host) =
      opening :: asked :: found :: sales :: later) :
    ∃ data balance zeroForOne, t₀.replies.headD default = .pool (.ok data) ∧
      t₁.replies.headD default = .unusedBalance (.ok balance) ∧
      SpendsChecked t₀.state t₂.env data balance zeroForOne sales later := by
  obtain ⟨data, balance, z, hpool, hbalance, hspends⟩ :=
    batches_executionTrades (by exact hne) (by exact hpair) (by exact horder)
      (batches_executeOnce h)
  exact ⟨data, balance, z, hpool, hbalance, hspends.of_withFlag⟩

/-- The memory of a strategy that runs. -/
def runningMemory : Memory :=
  running 60 Sample.initialised

/-- A turn of an execution that ends with one call. -/
def runningTurn (time : ℕ) (reply : Reply) : Async.Turn Env Memory Reply :=
  ⟨⟨time, sampleHost.id, 0⟩, runningMemory, [reply]⟩

/-- The call that asks for the pool of the pair. -/
def runningOpening : List Call :=
  [(getPoolCanister (createTradeParams Sample.hedgeConfig).baseToken
    (createTradeParams Sample.hedgeConfig).quoteToken).call]

/-- An execution that sells the base token and buys it back. -/
theorem executeOnce_spendsChecked_base : ∃ data balance zeroForOne,
    Sample.poolFound = .pool (.ok data) ∧ Sample.balanceFound = .unusedBalance (.ok balance) ∧
      SpendsChecked runningMemory ⟨12, sampleHost.id, 0⟩ data balance zeroForOne
        [sampleSale "1000000"] [[.swap samplePool ⟨false, "300", "0"⟩]] := by
  have hbatches : Async.batches [runningTurn 10 Sample.poolFound,
      runningTurn 11 Sample.balanceFound, runningTurn 12 Sample.poolFound,
      runningTurn 13 (Sample.swapped 300), runningTurn 14 (Sample.swapped 999)]
      (executeOnce sampleHost) = runningOpening ::
        [.getUserUnusedBalance samplePool sampleHost.id] :: runningOpening ::
          [sampleSale "1000000"] :: [[.swap samplePool ⟨false, "300", "0"⟩]] := by
    decide +kernel
  have horder : ∀ c ∈ runningOpening, c.OrdersTokens Sample.poolFound := by
    obtain ⟨args, hcall, haddress⟩ := call_getPoolCanister
      (createTradeParams Sample.hedgeConfig).baseToken
      (createTradeParams Sample.hedgeConfig).quoteToken
    refine List.forall_mem_singleton.2 ?_
    rw [hcall]
    show Sample.icp.toText = args.token0.address
    rw [haddress]
    decide +kernel
  have hne : Sample.hedgeConfig.tradingPair.baseToken.canisterId ≠
      Sample.hedgeConfig.tradingPair.quoteToken.canisterId := by
    decide
  exact executeOnce_spendsChecked sampleHost (by exact hne) (by rfl) (by exact horder) hbatches

end SelfHedging

/-! ## The cycles of a run -/

/-- A strategy with an owner keeps its trading pair, and the owner. -/
theorem Effect.tradingPair {host : Host} {f : Flight} {m : Memory}
    {r : Memory × Async.Await Env Memory Call Reply String Unit} (h : Effect host f m r)
    (howner : m.state.owner ≠ .anonymous) : r.1.state.owner = m.state.owner ∧
      r.1.state.config.tradingPair = m.state.config.tradingPair := by
  cases h with
  | refused e message => exact ⟨rfl, rfl⟩
  | rebalances r message memory =>
    obtain ⟨b, q, t, heq⟩ := memory
    rw [heq]
    exact ⟨rfl, rfl⟩
  | inquires r message refused inquires =>
    obtain ⟨b, q, t, heq⟩ := inquires.1
    rw [heq]
    exact ⟨rfl, rfl⟩
  | initialises owner config message blank valid => exact absurd blank howner
  | executes r m' volume flag message trades memory =>
    rw [memory]
    rcases trades with ⟨b, q, t, rfl⟩ | ⟨-, -, b, q, t, rfl⟩ <;> cases volume <;>
      exact ⟨rfl, rfl⟩
  | _ => exact ⟨rfl, rfl⟩

namespace Pending

/-- The trading pair was this one in all segments of the flight. -/
structure Trades (pair : TradingPair) (x : Pending) : Prop where
  rounds : ∀ r ∈ x.flight.rounds, r.memory.state.config.tradingPair = pair
  memory : x.flight.memory.state.config.tradingPair = pair

/-- An execution that waits spends the token whose balance it has checked, if the exchange has told
it of a pool with the tokens in the order asked for. -/
def SpendsChecked (x : Pending) : Prop :=
  ∀ r₀ r₁ r₂ rs, x.flight.rounds = r₀ :: r₁ :: r₂ :: rs →
    (∀ c ∈ r₀.calls, c.OrdersTokens (r₀.replies.headD default)) →
      ∃ data balance zeroForOne sales later,
        rs.map Round.calls ++ [x.waiting.calls] = sales :: later ∧
          r₀.replies.headD default = .pool (.ok data) ∧
          r₁.replies.headD default = .unusedBalance (.ok balance) ∧
          SelfHedging.SpendsChecked r₀.memory r₂.env data balance zeroForOne sales later

theorem Trades.spendsChecked {host : Host} {pair : TradingPair}
    (hne : pair.baseToken.canisterId ≠ pair.quoteToken.canisterId) {x : Pending}
    (hpair : x.Trades pair) (hx : Log.Recorded host x) (hm : x.isExecution = true) :
    x.SpendsChecked := by
  intro r₀ r₁ r₂ rs hrounds horder
  have hmessage := Message.eq_of_isExecution hm
  have hall := Async.batches_snoc ⟨x.flight.env, x.flight.memory, []⟩ x.flight.turns hx.outcome
  rw [hx.batches, hmessage, Flight.turns, hrounds] at hall
  obtain ⟨t₃, ts, hts⟩ := List.exists_cons_of_ne_nil (l := rs.map (fun r =>
    (⟨r.env, r.memory, r.replies⟩ : Async.Turn Env Memory Reply)) ++
      [⟨x.flight.env, x.flight.memory, []⟩]) (by simp)
  obtain ⟨sales, later, hsales⟩ := List.exists_cons_of_ne_nil
    (l := rs.map Round.calls ++ [x.waiting.calls]) (by simp)
  have h₀ := hpair.rounds r₀ (by simp [hrounds])
  have h₂ := hpair.rounds r₂ (by simp [hrounds])
  simp only [List.map_cons, List.cons_append, hts, hsales] at hall
  have hne₀ : r₀.memory.state.config.tradingPair.baseToken.canisterId ≠
      r₀.memory.state.config.tradingPair.quoteToken.canisterId := h₀.symm ▸ hne
  obtain ⟨data, balance, z, hpool, hbalance, hspends⟩ :=
    batches_executionTrades (by exact hne₀) (by exact h₂.trans h₀.symm) (by exact horder)
      (batches_executeOnce hall)
  exact ⟨data, balance, z, sales, later, hsales, hpool, hbalance, hspends.of_withFlag⟩

end Pending

namespace Log

variable {host : Host} {l l' : Log} {e : CanisterEvent} {s : Segment} {pair : TradingPair}

/-- The strategy has an owner and this trading pair, as it had in all segments of what waits. -/
structure Paired (host : Host) (pair : TradingPair) (l : Log) : Prop where
  traced : ∀ x ∈ l.pending, Traced host x
  recorded : ∀ x ∈ l.pending, Recorded host x
  owner : l.memory.state.owner ≠ .anonymous
  tradingPair : l.memory.state.config.tradingPair = pair
  trades : ∀ x ∈ l.pending, x.Trades pair

theorem Enters.paired (he : l.Enters host e s) (hl : l.Paired host pair) :
    (l.land s).Paired host pair := by
  obtain ⟨howner, hpair⟩ := (he.effect hl.traced).tradingPair hl.owner
  refine ⟨he.traced_land hl.traced, he.recorded_land hl.recorded, ?_, ?_, fun x hx => ?_⟩
  · rw [memory_land, howner]
    exact hl.owner
  · rw [memory_land, hpair]
    exact hl.tradingPair
  · rcases mem_pending_land hx with hx | ⟨calls, k, -, rfl⟩
    · exact hl.trades x (he.others x hx)
    · have hmemory : s.flight.memory.state.config.tradingPair = pair := by
        rw [he.memory]
        exact hl.tradingPair
      refine ⟨?_, hmemory⟩
      cases he with
      | replies i time cycles replies y hy hlen =>
        have htrades := hl.trades y (List.mem_of_getElem? hy)
        intro r hr
        rcases List.mem_append.1 hr with hr | hr
        · exact htrades.rounds r hr
        · rw [List.mem_singleton.1 hr]
          exact htrades.memory
      | _ => exact fun r hr => (nomatch hr)

theorem step_paired (hl : l.Paired host pair) (hs : l.step host e = some l') :
    l'.Paired host pair := by
  rcases step_cases hs with ⟨-, rfl⟩ | ⟨s, he, rfl⟩
  · exact ⟨fun _ hx => (nomatch hx), fun _ hx => (nomatch hx), hl.owner, hl.tradingPair,
      fun _ hx => (nomatch hx)⟩
  · exact he.paired hl

/-- In every run of a strategy with an owner and two tokens, each execution spends the token whose
balance it has checked. -/
theorem spendsChecked_throughout (host : Host) {m : Memory} (howner : m.state.owner ≠ .anonymous)
    (hne : m.state.config.tradingPair.baseToken.canisterId ≠
      m.state.config.tradingPair.quoteToken.canisterId) (es : List CanisterEvent) :
    Runs.Throughout (step host)
      (fun l => ∀ x ∈ l.pending, x.isExecution = true → x.SpendsChecked) (start m) es := by
  have hstart : (start m).Paired host m.state.config.tradingPair :=
    ⟨fun _ hx => (nomatch hx), fun _ hx => (nomatch hx), howner, rfl, fun _ hx => (nomatch hx)⟩
  refine (Runs.throughout_of_step (fun _ _ _ => step_paired) es hstart).mono fun l hl x hx hm => ?_
  exact (hl.trades x hx).spendsChecked hne (hl.recorded x hx) hm

end Log

end HunterFi
