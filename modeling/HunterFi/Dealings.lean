import HunterFi.Conversations

/-!
# Whom a strategy deals with

A strategy holds tokens and lets others take them by its approvals. `Dealings` is what a
conversation has learnt : the pools that ICPSwap's factory has named, and the approvals that the
tokens have confirmed. `Dealings.step` is the protocol of a strategy with its pair. The factory is
asked for the pool of the pair, and only pools that it has named are dealt with : they are asked for
the strategy's own balance, swap, give back a token of the pair, and take one if that has
confirmed the approval before.

`dealings_kept` : so it is in every conversation of every run, once the strategy has an owner.
-/

set_option linter.unusedSectionVars false

namespace HunterFi

open Icpswap SelfHedging

/-- The token and the spender of an approval. -/
def Call.approval? : Call → Option (Principal × Principal)
  | .approveDip20 token spender _ => some (token, spender)
  | .approveExt token none spender _ => some (token, spender)
  | .icrc2Approve token ⟨spender, none⟩ _ => some (token, spender)
  | _ => none

/-- The pool that a reply names. -/
def Reply.named : Reply → List Principal
  | .pool (.ok data) => [data.canisterId]
  | _ => []

/-- The two tokens of a pair. -/
def TradingPair.tokens (pair : TradingPair) : List Principal :=
  [pair.baseToken.canisterId, pair.quoteToken.canisterId]

/-- What a conversation has learnt : the pools that were named, and the tokens and spenders whose
approvals were confirmed. -/
structure Dealings where
  named : List Principal
  allowed : List (Principal × Principal)
  deriving DecidableEq

namespace Dealings

variable (host : Host) (pair : TradingPair)

/-- A conversation that has learnt nothing. -/
def start : Dealings :=
  ⟨[], []⟩

/-- The dealings after a call and its reply, if the call may be made. A swap asks for no least
output. -/
def step (d : Dealings) : Call × Reply → Option Dealings
  | (.getPool factory args, r) =>
    if .getPool factory args = (getPoolCanister (createTokenInfo pair.baseToken)
        (createTokenInfo pair.quoteToken)).call then
      some { d with named := r.named ++ d.named }
    else none
  | (.getUserUnusedBalance pool user, _) =>
    if pool ∈ d.named ∧ user = host.id then some d else none
  | (.swap pool args, _) =>
    if pool ∈ d.named ∧ args.amountOutMinimum = "0" then some d else none
  | (.depositFrom pool args, _) =>
    if ∃ token ∈ pair.tokens, args.token = token.toText ∧ (token, pool) ∈ d.allowed then some d
    else none
  | (.withdraw pool args, _) =>
    if pool ∈ d.named ∧ ∃ token ∈ pair.tokens, args.token = token.toText then some d else none
  | (call, r) =>
    match call.approval? with
    | some (token, spender) =>
      if token ∈ pair.tokens ∧ spender ∈ d.named then
        some (if call.approves r then { d with allowed := (token, spender) :: d.allowed } else d)
      else none
    | none => none

/-- All that was learnt is still known. -/
structure Extends (d d' : Dealings) : Prop where
  named : d.named ⊆ d'.named
  allowed : d.allowed ⊆ d'.allowed

variable {d d' d'' : Dealings}

theorem Extends.refl (d : Dealings) : d.Extends d :=
  ⟨List.Subset.refl _, List.Subset.refl _⟩

theorem Extends.trans (h : d.Extends d') (h' : d'.Extends d'') : d.Extends d'' :=
  ⟨List.Subset.trans h.named h'.named, List.Subset.trans h.allowed h'.allowed⟩

variable {host} {pair}

/-! ## The connector -/

section Connector

variable {ι σ α : Type} {I : σ → Prop} {base quote : TokenInfo} {pool : Principal}

/-- A job that asks the factory for the pool of the pair. -/
theorem keeps_pool {j : Async.Job Call Reply ExchangeError α} {Q : α → Dealings → Prop}
    (hcall : j.call = (getPoolCanister (createTokenInfo pair.baseToken)
      (createTokenInfo pair.quoteToken)).call)
    (hQ : ∀ r a, j.outcome r = .ok a →
      ∃ data, r = .pool (.ok data) ∧ ∀ d', d.Extends d' → data.canisterId ∈ d'.named → Q a d') :
    Async.Keeps I (step host pair) Q (fun _ _ => True) d
      (j.run : Async ι σ Call Reply ExchangeError α) := by
  obtain ⟨args, hargs⟩ : ∃ args, (getPoolCanister (createTokenInfo pair.baseToken)
      (createTokenInfo pair.quoteToken)).call = .getPool factoryCanister args := by
    unfold getPoolCanister
    split
    exact ⟨_, rfl⟩
  refine Async.keeps_run fun r => ⟨{ d with named := r.named ++ d.named }, ?_, fun a ha => ?_,
    fun _ _ => trivial⟩
  · rw [hcall, hargs]
    exact if_pos hargs.symm
  · obtain ⟨data, rfl, hdata⟩ := hQ r a ha
    exact hdata _ ⟨List.subset_append_right _ _, List.Subset.refl _⟩ (List.mem_append_left _ (by
      simp [Reply.named]))

/-- The pool that is found has been named. -/
theorem keeps_getPoolCanister (hbase : base = createTokenInfo pair.baseToken)
    (hquote : quote = createTokenInfo pair.quoteToken) :
    Async.Keeps I (step host pair) (fun data d' => d.Extends d' ∧ data.canisterId ∈ d'.named)
      (fun _ _ => True) d
      ((getPoolCanister base quote).run : Async ι σ Call Reply ExchangeError IcpSwapPoolData) := by
  subst hbase hquote
  exact keeps_pool rfl fun r data h =>
    ⟨data, outcome_getPoolCanister.1 h, fun d' hd hdata => ⟨hd, hdata⟩⟩

/-- The pool of the information is the one that the reply names. -/
theorem poolId_of_poolInfo {data : IcpSwapPoolData} {info : PoolInfo}
    (h : poolInfo host base quote data = .ok info) : info.poolId = data.canisterId := by
  unfold poolInfo at h
  simp only [bind, Except.bind, pure, Except.pure] at h
  -- the two addresses, the two standards and the fee
  iterate 5
    split at h
    · cases h
  rw [← Except.ok.inj h]

/-- So has the pool of the information. -/
theorem keeps_getPoolInfo (hbase : base = createTokenInfo pair.baseToken)
    (hquote : quote = createTokenInfo pair.quoteToken) :
    Async.Keeps I (step host pair) (fun info d' => d.Extends d' ∧ info.poolId ∈ d'.named)
      (fun _ _ => True) d
      ((getPoolInfo host base quote).run : Async ι σ Call Reply ExchangeError PoolInfo) := by
  subst hbase hquote
  refine keeps_pool rfl fun r info h => ?_
  rw [getPoolInfo, Async.Job.outcome_andThen] at h
  cases hdata : (getPoolCanister (createTokenInfo pair.baseToken)
      (createTokenInfo pair.quoteToken)).outcome r with
  | error e =>
    rw [hdata] at h
    cases h
  | ok data =>
    rw [hdata] at h
    have hpool := poolId_of_poolInfo h
    exact ⟨data, outcome_getPoolCanister.1 hdata, fun d' hd hmem => ⟨hd, hpool ▸ hmem⟩⟩

/-- A job whose call may be made and teaches nothing. -/
theorem keeps_still {j : Async.Job Call Reply ExchangeError α}
    (hcall : ∀ r, step host pair d (j.call, r) = some d) :
    Async.Keeps I (step host pair) (fun _ d' => d' = d) (fun _ _ => True) d
      (j.run : Async ι σ Call Reply ExchangeError α) :=
  Async.keeps_run fun r => ⟨d, hcall r, fun _ _ => rfl, fun _ _ => trivial⟩

/-- A balance is asked of a pool that has been named, for the strategy itself. -/
theorem keeps_getUnusedBalance {params : TradeParams}
    (hbase : params.baseToken = createTokenInfo pair.baseToken)
    (hquote : params.quoteToken = createTokenInfo pair.quoteToken) :
    Async.Keeps I (step host pair) (fun _ => d.Extends) (fun _ _ => True) d
      (getUnusedBalance params host.id : Async ι σ Call Reply ExchangeError _) := by
  refine Async.Keeps.bind ((keeps_getPoolCanister hbase hquote).mono ?_ fun _ _ h => h)
  rintro data d' ⟨hd, hdata⟩
  have hcall : ∀ r, step host pair d'
      ((callGetUserUnusedBalance data.canisterId host.id).call, r) = some d' :=
    fun r => if_pos ⟨hdata, rfl⟩
  refine Async.Keeps.bind ((keeps_still hcall).mono ?_ fun _ _ h => h)
  rintro x _ rfl
  exact hd

/-- An approval that is confirmed is an allowance. -/
theorem keeps_approveToken {token : TokenInfo} (htoken : token.canisterId ∈ pair.tokens)
    (hpool : pool ∈ d.named) (amount : ℕ) :
    Async.Keeps I (step host pair)
      (fun _ d' => d.Extends d' ∧ (token.canisterId, pool) ∈ d'.allowed) (fun _ _ => True) d
      (approveToken token pool amount : Async ι σ Call Reply ExchangeError Unit) := by
  unfold approveToken
  split
  case h_5 => trivial
  all_goals
    refine Async.keeps_run fun r => ⟨_, if_pos ⟨htoken, hpool⟩, fun _ hok => ?_, fun _ _ => trivial⟩
    rw [if_pos]
    · exact ⟨⟨List.Subset.refl _, List.subset_cons_self _ _⟩, List.mem_cons_self⟩
    · -- the reply that lets it go on confirms the approval
      cases r with
      | approved result | icrc2Approved result =>
        cases result <;> simp [approveCall, Call.approves, Reply.decode, Reply.approved?,
          Reply.icrc2Approved?] at hok ⊢
      | _ => simp [approveCall, Reply.decode, Reply.approved?, Reply.icrc2Approved?] at hok

/-- A deposit pulls what it has approved before. -/
theorem keeps_depositToken {params : TradeParams}
    (hbase : params.baseToken = createTokenInfo pair.baseToken)
    (hquote : params.quoteToken = createTokenInfo pair.quoteToken) {token : TokenInfo}
    (htoken : token.canisterId ∈ pair.tokens) (amount : ℕ) :
    Async.Keeps I (step host pair) (fun _ => d.Extends) (fun _ _ => True) d
      (depositToken params token amount : Async ι σ Call Reply ExchangeError ℕ) := by
  unfold depositToken
  split
  · trivial
  · refine Async.Keeps.bind ((keeps_getPoolCanister hbase hquote).mono ?_ fun _ _ h => h)
    rintro data d' ⟨hd, hdata⟩
    refine Async.Keeps.bind ((keeps_approveToken htoken hdata _).mono ?_ fun _ _ h => h)
    rintro _ d'' ⟨hd', hallowed⟩
    have hcall : ∀ r, step host pair d'' ((callDepositFrom data.canisterId
        ⟨tokenFee token.standard, token.canisterId.toText, amount⟩).call, r) = some d'' :=
      fun r => if_pos ⟨token.canisterId, htoken, rfl, hallowed⟩
    refine Async.Keeps.bind ((keeps_still hcall).mono ?_ fun _ _ h => h)
    rintro n _ rfl
    exact Async.keeps_ofExcept (fun _ _ => hd.trans hd') fun _ _ => trivial

/-- A withdrawal brings a token of the pair back. -/
theorem keeps_withdrawToken {params : TradeParams}
    (hbase : params.baseToken = createTokenInfo pair.baseToken)
    (hquote : params.quoteToken = createTokenInfo pair.quoteToken) {token : TokenInfo}
    (htoken : token.canisterId ∈ pair.tokens) (amount : ℕ) :
    Async.Keeps I (step host pair) (fun _ => d.Extends) (fun _ _ => True) d
      (withdrawToken params token amount : Async ι σ Call Reply ExchangeError ℕ) := by
  refine Async.Keeps.bind ((keeps_getPoolCanister hbase hquote).mono ?_ fun _ _ h => h)
  rintro data d' ⟨hd, hdata⟩
  have hcall : ∀ r, step host pair d' ((callWithdraw data.canisterId
      ⟨tokenFee token.standard, token.canisterId.toText, amount⟩).call, r) = some d' :=
    fun r => if_pos ⟨hdata, token.canisterId, htoken, rfl⟩
  refine Async.Keeps.bind ((keeps_still hcall).mono ?_ fun _ _ h => h)
  rintro n _ rfl
  exact Async.keeps_ofExcept (fun _ _ => hd) fun _ _ => trivial

end Connector

/-! ## The strategy -/

theorem keeps_checkIcpswapBalance : Async.Keeps (Committed pair) (step host pair)
    (fun _ => d.Extends) (fun _ _ => True) d (checkIcpswapBalance host) := by
  refine Async.Keeps.bind (Async.keeps_get fun m hm => ?_)
  obtain ⟨-, rfl⟩ := hm
  refine Async.Keeps.bind (Async.Keeps.mapError ((keeps_getUnusedBalance rfl rfl).mono ?_
    fun _ _ h => h))
  rintro ⟨balance0, balance1, token0⟩ d' hd
  exact Async.Keeps.bind (Async.keeps_modify (fun _ _ ht => ht) hd)

section Trades

variable {params : TradeParams} {pool : PoolInfo}

/-- A swap in a pool that has been named. -/
theorem step_trade (hpool : pool.poolId ∈ d.named) (r : Reply) :
    step host pair d ((executeCallTradeNoSlippage params pool).call, r) = some d :=
  if_pos ⟨hpool, rfl⟩

/-- Orders at once leave the dealings as they are. -/
theorem keeps_trades {Q : List (Except ExchangeError TradeResult) → Dealings → Prop}
    {R : String → Dealings → Prop}
    (hpool : pool.poolId ∈ d.named) (os : List (ℕ × ℕ)) (hQ : ∀ xs, Q xs d) :
    Async.Keeps (Committed pair) (step host pair) Q R d
      (Async.joinAll (trades params pool os) : Handler _) := by
  refine Async.keeps_joinAll (fun j hj r => ?_) hQ
  obtain ⟨o, -, rfl⟩ := List.mem_map.1 hj
  exact step_trade hpool r

theorem keeps_trade (hpool : pool.poolId ∈ d.named) (g : ExchangeError → String) :
    Async.Keeps (Committed pair) (step host pair) (fun _ d' => d' = d) (fun _ _ => True) d
      ((executeCallTradeNoSlippage params pool).run.mapError g : Handler TradeResult) :=
  Async.Keeps.mapError (keeps_still (step_trade hpool))

/-- The first stage swaps in the pool that was found. -/
theorem keeps_stageOne (hpool : pool.poolId ∈ d.named) (split : Bool) (amounts : List ℕ) :
    Async.Keeps (Committed pair) (step host pair) (fun _ d' => d' = d) (fun _ _ => True) d
      (stageOne params pool split amounts) := by
  simp only [stageOne]
  split_ifs
  · rfl
  · exact Async.Keeps.bind (keeps_trades hpool _ fun xs =>
      Async.keeps_ofExcept (fun _ _ => rfl) fun _ _ => trivial)
  · exact Async.Keeps.bind ((keeps_trade hpool _).mono (fun _ _ h => h) fun _ _ h => h)
  · rfl

/-- So does the second. -/
theorem keeps_stageTwo (hpool : pool.poolId ∈ d.named) (split : Bool) (total volume : ℕ) :
    Async.Keeps (Committed pair) (step host pair) (fun _ d' => d' = d) (fun _ _ => True) d
      (stageTwo params pool split total volume) := by
  simp only [stageTwo]
  split_ifs
  · refine Async.Keeps.bind (Async.keeps_env fun env => ?_)
    split_ifs
    · rfl
    · exact Async.Keeps.bind (keeps_trades hpool _ fun xs => rfl)
  · exact Async.Keeps.bind ((keeps_trade hpool _).mono (fun _ _ h => h) fun _ _ h => h)
  · rfl

end Trades

/-- The balance is looked at once more, and what comes of it is passed over. -/
theorem keeps_recheck {α : Type} {Q : α → Dealings → Prop} {a : α} (hQ : ∀ d', Q a d') :
    Async.Keeps (Committed pair) (step host pair) Q (fun _ _ => True) d
      ((checkIcpswapBalance host).attempt.bind fun _ : Except String (ℕ × ℕ) =>
        (.ret a : Handler α)) :=
  Async.Keeps.bind (Async.Keeps.attempt (keeps_checkIcpswapBalance.mono (fun _ d' _ => hQ d')
    fun _ d' _ => hQ d'))

/-- The trades of an execution find their pool first. -/
theorem keeps_executeHedgeTrades (direction : TradeDirection) (amounts : List ℕ)
    (splitType : OrderSplitType) :
    Async.Keeps (Committed pair) (step host pair) (fun _ _ => True) (fun _ _ => True) d
      (executeHedgeTrades host direction amounts splitType) := by
  refine Async.Keeps.bind (Async.keeps_get fun m hm => ?_)
  obtain ⟨-, rfl⟩ := hm
  refine Async.Keeps.bind (Async.Keeps.mapError ((keeps_getPoolInfo rfl rfl).mono ?_
    fun _ _ h => h))
  rintro pool d' ⟨-, hpool⟩
  refine Async.Keeps.bind ((keeps_stageOne hpool _ _).mono ?_ fun _ _ h => h)
  rintro ⟨volume, outputs⟩ _ rfl
  simp only [afterStageOne]
  split_ifs
  · exact keeps_recheck fun _ => trivial
  · refine Async.Keeps.bind ((keeps_stageTwo hpool _ _ _).mono ?_ fun _ _ h => h)
    rintro v _ rfl
    exact keeps_recheck fun _ => trivial

theorem keeps_executionCycle : Async.Keeps (Committed pair) (step host pair) (fun _ _ => True)
    (fun _ _ => True) d (executionCycle host) := by
  refine Async.Keeps.bind (Async.keeps_get fun m hm => Async.Keeps.bind (Async.keeps_env
    fun env => ?_))
  dsimp only
  split_ifs
  · trivial
  all_goals
    refine Async.Keeps.bind (Async.Keeps.mapError (keeps_checkIcpswapBalance.mono ?_
      fun _ _ h => h))
    rintro ⟨baseBalance, quoteBalance⟩ d' -
    dsimp only
    split_ifs
    · refine Async.Keeps.bind (Async.Keeps.attempt (Async.keeps_update
        (fun env m m' => pause_committed) trivial fun _ => trivial))
    all_goals first
      | trivial
      | exact Async.Keeps.bind (Async.keeps_env fun env => Async.Keeps.bind
          (Async.Keeps.mapError ((keeps_executeHedgeTrades _ _ _).mono (fun _ _ _ =>
            Async.keeps_modify (fun _ _ ht => ht) trivial) fun _ _ h => h)))

theorem keeps_executeOnce : Async.Keeps (Committed pair) (step host pair) (fun _ _ => True)
    (fun _ _ => True) d (executeOnce host) := by
  refine Async.Keeps.bind (Async.keeps_check (Async.Keeps.bind (Async.keeps_get fun m hm => ?_))
    fun _ => trivial)
  split_ifs
  · trivial
  · have hend : ∀ d' (result : Except String Unit), Async.Keeps (Committed pair) (step host pair)
        (fun _ _ => True) (fun _ _ => True) d' ((Async.modify fun _ m =>
          { m with executionInProgress := false }).bind fun _ => .ofExcept result : Handler Unit) :=
      fun d' result => Async.Keeps.bind (Async.keeps_modify (fun _ _ ht => ht)
        (Async.keeps_ofExcept (fun _ _ => trivial) fun _ _ => trivial))
    exact Async.Keeps.bind (Async.keeps_modify (fun _ _ ht => ht) (Async.Keeps.bind
      (Async.Keeps.attempt (keeps_executionCycle.mono (fun _ d' _ => hend d' _)
        fun _ d' _ => hend d' _))))

/-- A start approves the pool that it has found for one of the two tokens. -/
theorem keeps_start : Async.Keeps (Committed pair) (step host pair) (fun _ _ => True)
    (fun _ _ => True) d (SelfHedging.start host) := by
  refine Async.Keeps.bind (Async.keeps_check (Async.Keeps.bind (Async.keeps_check
    (Async.Keeps.bind (Async.keeps_get fun m hm => ?_)) fun _ => trivial)) fun _ => trivial)
  obtain ⟨-, rfl⟩ := hm
  refine Async.Keeps.bind (Async.Keeps.mapError ((keeps_getPoolInfo rfl rfl).mono ?_
    fun _ _ h => h))
  rintro pool d' ⟨-, hpool⟩
  refine Async.Keeps.bind (Async.Keeps.mapError (keeps_checkIcpswapBalance.mono ?_
    fun _ _ h => h))
  rintro ⟨baseBalance, quoteBalance⟩ d'' hd
  dsimp only
  split_ifs
  · trivial
  all_goals
    refine Async.Keeps.bind (Async.Keeps.mapError ((keeps_approveToken ?_ (hd.named hpool) _).mono
      ?_ fun _ _ h => h))
    · simp [TradingPair.tokens, createTokenInfo]
    · exact fun _ _ _ => Async.Keeps.bind (Async.keeps_modify (fun _ _ ht => ht)
        (Async.keeps_modify (fun _ _ ht => ht) trivial))

/-- What `token_type` names is a token of the pair. -/
theorem tokenOf_mem {config : SelfHedgingConfig} {tokenType : String} {token : TokenInfo}
    (h : tokenOf (createTradeParams config) tokenType = .ok token) :
    token.canisterId ∈ config.tradingPair.tokens := by
  unfold tokenOf at h
  split_ifs at h
  · rw [← Except.ok.inj h]
    simp [TradingPair.tokens, createTradeParams, createTokenInfo]
  · rw [← Except.ok.inj h]
    simp [TradingPair.tokens, createTradeParams, createTokenInfo]

theorem keeps_depositToExchange (tokenType : String) (amount : ℕ) :
    Async.Keeps (Committed pair) (step host pair) (fun _ _ => True) (fun _ _ => True) d
      (depositToExchange host tokenType amount) := by
  refine Async.Keeps.bind (Async.keeps_check (Async.Keeps.bind (Async.keeps_get fun m hm =>
    Async.Keeps.bind (Async.keeps_ofExcept (fun token htoken => ?_) fun _ _ => trivial)))
      fun _ => trivial)
  obtain ⟨-, rfl⟩ := hm
  refine Async.Keeps.bind (Async.Keeps.mapError ((keeps_depositToken rfl rfl (tokenOf_mem htoken)
    _).mono ?_ fun _ _ h => h))
  exact fun _ _ _ => keeps_recheck fun _ => trivial

theorem keeps_withdrawFromExchange (tokenType : String) (amount : ℕ) :
    Async.Keeps (Committed pair) (step host pair) (fun _ _ => True) (fun _ _ => True) d
      (withdrawFromExchange host tokenType amount) := by
  refine Async.Keeps.bind (Async.keeps_check (Async.Keeps.bind (Async.keeps_get fun m hm =>
    Async.Keeps.bind (Async.keeps_ofExcept (fun token htoken => ?_) fun _ _ => trivial)))
      fun _ => trivial)
  obtain ⟨-, rfl⟩ := hm
  refine Async.Keeps.bind (Async.Keeps.mapError (keeps_checkIcpswapBalance.mono ?_
    fun _ _ h => h))
  rintro ⟨baseBalance, quoteBalance⟩ d' -
  dsimp only
  split_ifs
  all_goals first
    | trivial
    | exact Async.Keeps.bind (Async.Keeps.mapError ((keeps_withdrawToken rfl rfl
        (tokenOf_mem htoken) _).mono (fun _ _ _ => keeps_recheck fun _ => trivial)
          fun _ _ h => h))

theorem keeps_refreshBalance : Async.Keeps (Committed pair) (step host pair) (fun _ _ => True)
    (fun _ _ => True) d (refreshBalance host) :=
  Async.Keeps.bind (Async.Keeps.mapError (keeps_checkIcpswapBalance.mono (fun _ _ _ => trivial)
    fun _ _ h => h))

end Dealings

/-! ## Runs -/

namespace Log

/-- Once a strategy has an owner, every conversation that begins keeps to the protocol of the
strategy with its pair, however the conversations interleave. -/
theorem dealings_kept (host : Host) {es : List CanisterEvent} {l : Log}
    (hrun : Runs.run (step host) (start .installed) es = some l)
    (howner : l.memory.state.owner ≠ .anonymous) (es' : List CanisterEvent) :
    Runs.Throughout (step host)
      (Conforms (Dealings.step host l.memory.state.config.tradingPair) .start l.clock) l es' :=
  conforms_throughout (keeps_handler Dealings.keeps_start Dealings.keeps_executeOnce
    Dealings.keeps_depositToExchange Dealings.keeps_withdrawFromExchange
    Dealings.keeps_refreshBalance) hrun ⟨howner, rfl⟩ es'

/-- The conversations of a strategy that is started and executes. -/
theorem dealings_kept_executes : ∃ l, Runs.run (step sampleHost) (start .installed)
    [Sample.initialises] = some l ∧ Runs.Throughout (step sampleHost)
      (Conforms (Dealings.step sampleHost l.memory.state.config.tradingPair) .start l.clock) l
      Sample.startsAndExecutes := by
  obtain ⟨l, hrun, howner, -⟩ := exists_initialised
  have hproper : l.memory.state.owner ≠ .anonymous := ne_of_eq_of_ne howner (by decide)
  exact ⟨l, hrun, dealings_kept sampleHost hrun hproper Sample.startsAndExecutes⟩

end Log

end HunterFi
