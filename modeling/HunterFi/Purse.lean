import HunterFi.Conversations
import HunterFi.TokenOrder

/-!
# What a strategy spends

A `Purse` is what a conversation knows of the strategy's tokens at the pool : what the pool has told
of them, less what the conversation has sold or withdrawn since, with what its swaps have brought.
`Purse.step` lets it sell and withdraw no more than that. The exception is the dust of a split : a
split of fewer units than orders has a unit in each order but the last.

The pool tells of two balances, and a swap says which of the two it sells. These go together if the
factory names the tokens of the pool in the order of the question. If it does not, the purse is
`void` and says nothing. `spending_kept` : otherwise every conversation lives on its purse.
-/

set_option linter.unusedSectionVars false

namespace HunterFi

open Icpswap SelfHedging

/-- What an execution may sell beyond its funds : up to 10 orders of a split have a unit each but
the last, for one unit that there is at least. -/
def dust : ℕ :=
  8

/-- What a conversation knows of the tokens at the pool. -/
inductive Purse
  | void
  | holds (funds : IcpSwapBalance)
  deriving DecidableEq

/-- The call spends tokens of the pool. -/
def Call.spends : Call → Bool
  | .swap _ _ => true
  | .withdraw _ _ => true
  | _ => false

namespace Purse

/-- A purse with nothing in it. -/
def start : Purse :=
  holds ⟨0, 0⟩

/-- The purse has `n` of the token that swaps with the flag sell. -/
def Affords (zeroForOne : Bool) (n : ℕ) : Purse → Prop
  | void => True
  | holds funds => n ≤ funds.ofInput zeroForOne

instance (zeroForOne : Bool) (n : ℕ) (p : Purse) : Decidable (p.Affords zeroForOne n) :=
  match p with
  | void => inferInstanceAs (Decidable True)
  | holds funds => inferInstanceAs (Decidable (n ≤ funds.ofInput zeroForOne))

/-- The purse once the pool has told of a balance. -/
def told (balance : IcpSwapBalance) : Purse → Purse
  | void => void
  | holds _ => holds ⟨balance.balance0 + dust, balance.balance1 + dust⟩

/-- The purse after `out` has gone of the token that the flag sells, and `back` of the other one has
come. -/
def after (zeroForOne : Bool) (out back : ℕ) : Purse → Purse
  | void => void
  | holds funds =>
    if zeroForOne then holds ⟨funds.balance0 - out, funds.balance1 + back⟩
    else holds ⟨funds.balance0 + back, funds.balance1 - out⟩

variable {p p' : Purse} {z : Bool} {n k out back : ℕ}

/-- What affords an amount affords less. -/
theorem Affords.mono (h : p.Affords z n) (hle : k ≤ n) : p.Affords z k := by
  cases p with
  | void => trivial
  | holds funds => exact Nat.le_trans hle h

/-- What is left of the token that is sold. -/
theorem Affords.after_sold (h : p.Affords z (out + n)) : (p.after z out back).Affords z n := by
  cases p with
  | void => trivial
  | holds funds =>
    cases z <;> simp only [Affords, IcpSwapBalance.ofInput, after] at h ⊢ <;> simp at h ⊢ <;> omega

/-- What there is then of the other one. -/
theorem Affords.after_bought (h : p.Affords (!z) n) :
    (p.after z out back).Affords (!z) (back + n) := by
  cases p with
  | void => trivial
  | holds funds =>
    cases z <;> simp only [Affords, IcpSwapBalance.ofInput, after] at h ⊢ <;> simp at h ⊢ <;> omega

theorem affords_zero : p.Affords z 0 := by
  cases p with
  | void => trivial
  | holds funds => exact Nat.zero_le _

/-- A purse that has just been told a balance affords it and the dust. -/
theorem affords_told (p : Purse) (balance : IcpSwapBalance) (z : Bool) :
    (p.told balance).Affords z (balance.ofInput z + dust) := by
  cases p with
  | void => trivial
  | holds funds => cases z <;> exact le_rfl

/-! ## The protocol -/

variable (pair : TradingPair)

/-- The flag of the swaps that sell the base token. -/
def baseFlag : Bool :=
  isZeroForOne (createTokenInfo pair.baseToken) (createTokenInfo pair.quoteToken)

/-- The address of the token that comes first. -/
def firstAddress : String :=
  (firstToken (createTokenInfo pair.baseToken)
    (createTokenInfo pair.quoteToken)).canisterId.toText

/-- The purse after a call and its reply, if it has what the call spends. -/
def step (p : Purse) : Call × Reply → Option Purse
  | (.getPool _ args, .pool (.ok data)) =>
    some (if data.token0.address = args.token0.address then p else void)
  | (.getUserUnusedBalance _ _, .unusedBalance (.ok balance)) => some (p.told balance)
  | (.swap pool args, r) =>
    if p.Affords args.zeroForOne (Call.sold (.swap pool args)) then
      some (p.after args.zeroForOne (Call.sold (.swap pool args))
        (Call.bought (.swap pool args) r))
    else none
  | (.withdraw _ args, _) =>
    -- a withdrawal has no dust
    if p.Affords (args.token = firstAddress pair) (args.amount + dust) then
      some (p.after (args.token = firstAddress pair) args.amount 0)
    else none
  | _ => some p

variable {pair}

/-- To ask for a pool costs nothing. -/
theorem step_getPool (p : Purse) (pool : Principal) (args : IcpSwapGetPoolArgs) (r : Reply) :
    ∃ p', step pair p (.getPool pool args, r) = some p' ∧
      (∀ z n, p.Affords z n → p'.Affords z n) ∧
        ∀ data, r = .pool (.ok data) → p' ≠ void → data.token0.address = args.token0.address := by
  cases r with
  | pool result =>
    cases result with
    | error e => exact ⟨p, rfl, fun _ _ h => h, nofun⟩
    | ok data =>
      refine ⟨_, rfl, fun z n h => ?_, fun data' hdata hp => ?_⟩
      · split_ifs
        · exact h
        · trivial
      · cases hdata
        by_contra hne
        rw [if_neg hne] at hp
        exact hp rfl
  | _ => exact ⟨p, rfl, fun _ _ h => h, nofun⟩

theorem step_getUserUnusedBalance (p : Purse) (pool user : Principal) (r : Reply) :
    ∃ p', step pair p (.getUserUnusedBalance pool user, r) = some p' := by
  cases r with
  | unusedBalance result => cases result <;> exact ⟨_, rfl⟩
  | _ => exact ⟨_, rfl⟩

/-- Any other call may be made at any time. -/
theorem step_of_spends_eq_false (p : Purse) {c : Call} (hc : c.spends = false) (r : Reply) :
    ∃ p', step pair p (c, r) = some p' := by
  cases c with
  | getPool pool args =>
    obtain ⟨p', hstep, -⟩ := step_getPool p pool args r
    exact ⟨p', hstep⟩
  | getUserUnusedBalance pool user => exact step_getUserUnusedBalance p pool user r
  | swap pool args => cases hc
  | withdraw pool args => cases hc
  | _ => exact ⟨p, rfl⟩

/-! ## Questions -/

section Questions

variable {ι σ α : Type} {I : σ → Prop}

/-- Nor does any call that spends nothing. -/
theorem keeps_run_of_spends_eq_false {j : Async.Job Call Reply ExchangeError α}
    (hj : j.call.spends = false) :
    Async.Keeps I (step pair) (fun _ _ => True) (fun _ _ => True) p
      (j.run : Async ι σ Call Reply ExchangeError α) := by
  refine Async.keeps_run fun r => ?_
  obtain ⟨p', hp⟩ := step_of_spends_eq_false p hj r
  exact ⟨p', hp, fun _ _ => trivial, fun _ _ => trivial⟩

/-- A question for a pool leaves what the purse has. -/
theorem keeps_pool {j : Async.Job Call Reply ExchangeError α} {pool : Principal}
    {args : IcpSwapGetPoolArgs} (hcall : j.call = .getPool pool args) {Q : α → Purse → Prop}
    (hQ : ∀ r a p', j.outcome r = .ok a → (∀ z n, p.Affords z n → p'.Affords z n) →
      (∀ data, r = .pool (.ok data) → p' ≠ void → data.token0.address = args.token0.address) →
        Q a p') :
    Async.Keeps I (step pair) Q (fun _ _ => True) p
      (j.run : Async ι σ Call Reply ExchangeError α) := by
  refine Async.keeps_run fun r => ?_
  obtain ⟨p', hstep, hkeeps, horder⟩ := step_getPool p pool args r
  rw [hcall]
  exact ⟨p', hstep, fun a ha => hQ r a p' ha hkeeps horder, fun _ _ => trivial⟩

/-- The information about a pool leaves the purse. -/
theorem keeps_getPoolInfo (host : Host) (base quote : TokenInfo) :
    Async.Keeps I (step pair) (fun _ p' => ∀ z n, p.Affords z n → p'.Affords z n)
      (fun _ _ => True) p
      ((getPoolInfo host base quote).run : Async ι σ Call Reply ExchangeError PoolInfo) := by
  obtain ⟨args, hcall, -⟩ := call_getPoolCanister base quote
  have hinfo : (getPoolInfo host base quote).call = .getPool factoryCanister args := by
    rw [getPoolInfo, Async.Job.call_andThen, hcall]
  exact keeps_pool hinfo fun r a p' _ hkeeps _ => hkeeps

/-- The purse has these balances of the base and of the quote token. -/
structure Covers (pair : TradingPair) (p : Purse) (x : ℕ × ℕ) : Prop where
  base : p.Affords (baseFlag pair) (x.1 + dust)
  quote : p.Affords (!baseFlag pair) (x.2 + dust)
  fits : x.1 ≤ u128Max ∧ x.2 ≤ u128Max

/-- The balances that were told are covered in the order of the pair. -/
theorem covers_told {m : Memory} (hne : m.state.config.tradingPair.baseToken.canisterId ≠
      m.state.config.tradingPair.quoteToken.canisterId) {balance : IcpSwapBalance}
    (hfits : balance.Fits) {address : String}
    (haddress : p ≠ void → address = firstAddress m.state.config.tradingPair) :
    Covers m.state.config.tradingPair (p.told balance)
      (inOrder m (balance.balance0, balance.balance1, address)) := by
  obtain ⟨h0, h1⟩ := hfits
  by_cases hvoid : p = void
  · subst hvoid
    refine ⟨trivial, trivial, ?_⟩
    simp only [inOrder]
    split_ifs
    · exact ⟨h0, h1⟩
    · exact ⟨h1, h0⟩
  · have hflag : decide (m.state.config.tradingPair.baseToken.canisterId.toText = address) =
        baseFlag m.state.config.tradingPair := by
      rw [haddress hvoid]
      exact baseToken_eq_first (createTokenInfo m.state.config.tradingPair.baseToken)
        (createTokenInfo m.state.config.tradingPair.quoteToken) hne
    have htold := affords_told p balance
    simp only [inOrder, hflag]
    cases hbase : baseFlag m.state.config.tradingPair with
    | true =>
      rw [if_pos rfl]
      exact ⟨hbase ▸ htold true, hbase ▸ htold false, h0, h1⟩
    | false =>
      rw [if_neg Bool.false_ne_true]
      exact ⟨hbase ▸ htold false, hbase ▸ htold true, h1, h0⟩

theorem keeps_getPoolCanister {base quote : TokenInfo}
    (hbase : base = createTokenInfo pair.baseToken)
    (hquote : quote = createTokenInfo pair.quoteToken) :
    Async.Keeps I (step pair)
      (fun data p' => p' ≠ void → data.token0.address = firstAddress pair) (fun _ _ => True) p
      ((getPoolCanister base quote).run : Async ι σ Call Reply ExchangeError IcpSwapPoolData) := by
  subst hbase hquote
  obtain ⟨args, hcall, hargs⟩ := call_getPoolCanister (createTokenInfo pair.baseToken)
    (createTokenInfo pair.quoteToken)
  refine keeps_pool hcall ?_
  intro r data p' hdata _ horder hp
  exact (horder data (outcome_getPoolCanister.1 hdata) hp).trans hargs

theorem keeps_getUnusedBalance {params : TradeParams}
    (hbase : params.baseToken = createTokenInfo pair.baseToken)
    (hquote : params.quoteToken = createTokenInfo pair.quoteToken) (user : Principal) :
    Async.Keeps I (step pair) (fun x p' => ∃ p₁ balance, IcpSwapBalance.Fits balance ∧
      (x.1, x.2.1) = (balance.balance0, balance.balance1) ∧
        (p₁ ≠ void → x.2.2 = firstAddress pair) ∧ p' = told balance p₁) (fun _ _ => True) p
      (getUnusedBalance params user : Async ι σ Call Reply ExchangeError _) := by
  refine Async.Keeps.bind ((keeps_getPoolCanister hbase hquote).mono ?_ fun _ _ h => h)
  intro data p₁ haddress
  have hrun : Async.Keeps I (step pair) (fun x p' => ∃ balance, IcpSwapBalance.Fits balance ∧
      x = (balance.balance0, balance.balance1) ∧ p' = told balance p₁) (fun _ _ => True) p₁
      ((callGetUserUnusedBalance data.canisterId user).run :
        Async ι σ Call Reply ExchangeError (ℕ × ℕ)) := by
    refine Async.keeps_run fun r => ?_
    cases houtcome : (callGetUserUnusedBalance data.canisterId user).outcome r with
    | error e =>
      obtain ⟨p', hp⟩ := step_getUserUnusedBalance p₁ data.canisterId user r
      exact ⟨p', hp, nofun, fun _ _ => trivial⟩
    | ok x =>
      obtain ⟨balance, rfl, hfits, rfl⟩ := outcome_callGetUserUnusedBalance houtcome
      refine ⟨_, rfl, fun a ha => ?_, fun _ _ => trivial⟩
      exact ⟨balance, hfits, (Except.ok.inj ha).symm, rfl⟩
  refine Async.Keeps.bind (hrun.mono ?_ fun _ _ h => h)
  rintro ⟨balance0, balance1⟩ p' ⟨balance, hfits, hx, rfl⟩
  exact ⟨p₁, balance, hfits, hx, haddress, rfl⟩

/-- A check of the balance fills the purse with what it returns. -/
theorem keeps_checkIcpswapBalance {host : Host}
    (hne : pair.baseToken.canisterId ≠ pair.quoteToken.canisterId) :
    Async.Keeps (Committed pair) (step pair) (fun x p' => Covers pair p' x) (fun _ _ => True) p
      (checkIcpswapBalance host) := by
  rw [checkIcpswapBalance_eq]
  refine Async.Keeps.bind (Async.keeps_get fun m hm => ?_)
  obtain ⟨-, rfl⟩ := hm
  refine Async.Keeps.bind (Async.Keeps.mapError ((keeps_getUnusedBalance rfl rfl host.id).mono ?_
    fun _ _ h => h))
  rintro ⟨balance0, balance1, address⟩ p' ⟨p₁, balance, hfits, hx, haddress, rfl⟩
  obtain ⟨rfl, rfl⟩ := Prod.mk.inj hx
  exact Async.Keeps.bind (Async.keeps_modify (fun _ _ ht => ht) (covers_told hne hfits haddress))

end Questions

/-! ## Sales -/

section Sales

variable {params : TradeParams} {pool : PoolInfo}

/-- Swaps that sell what the purse has, and what they bring. -/
theorem run_sales {calls : List Call} (hcalls : ∀ c ∈ calls, c.zeroForOne? = some z) :
    ∀ {p : Purse} {replies : List Reply} {k : ℕ}, replies.length = calls.length →
      p.Affords z (sold calls) → p.Affords (!z) k →
        ∃ p', Runs.run (step pair) p (calls.zip replies) = some p' ∧
          p'.Affords (!z) (bought calls replies + k) := by
  induction calls with
  | nil =>
    intro p replies k _ _ hk
    refine ⟨p, rfl, ?_⟩
    simpa [bought] using hk
  | cons c calls ih =>
    intro p replies k hlen hsold hk
    obtain ⟨hc, hrest⟩ := List.forall_mem_cons.1 hcalls
    obtain ⟨r, replies, rfl⟩ := List.exists_cons_of_length_eq_add_one hlen
    obtain ⟨target, args, rfl, rfl⟩ :
        ∃ target args, c = .swap target args ∧ args.zeroForOne = z := by
      cases c with
      | swap target args => exact ⟨target, args, rfl, Option.some.inj hc⟩
      | _ => cases hc
    rw [sold, List.map_cons, List.sum_cons] at hsold
    have hother : (p.after args.zeroForOne (Call.sold (.swap target args))
        (Call.bought (.swap target args) r)).Affords (!args.zeroForOne)
          (Call.bought (.swap target args) r + k) := hk.after_bought
    obtain ⟨p', hrun, hp'⟩ := ih hrest (by simpa using hlen) hsold.after_sold hother
    refine ⟨p', ?_, hp'.mono ?_⟩
    · rw [List.zip_cons_cons, Runs.run_cons]
      have hfirst : step pair p (.swap target args, r) = some (p.after args.zeroForOne
          (Call.sold (.swap target args)) (Call.bought (.swap target args) r)) :=
        if_pos (hsold.mono (Nat.le_add_right _ _))
      rw [hfirst]
      exact hrun
    · simp only [bought, List.zipWith_cons_cons, List.sum_cons]
      omega

/-- However it is split, the orders sell the amount. -/
theorem sum_ordersSold (split : Bool) {amounts : List ℕ} (hlt : amounts.sum < 2 ^ 128) :
    (ordersSold split amounts).sum = amounts.sum := by
  unfold ordersSold
  split_ifs
  · exact sum_filter_ne_zero amounts
  · rw [List.sum_singleton, wrappingSum_eq, Nat.mod_eq_of_lt hlt]

/-- Stage 1 sells the orders, and its outputs are what it has bought. -/
theorem keeps_stageOne {split : Bool} {amounts : List ℕ} (hpos : 0 < amounts.sum)
    (hlt : amounts.sum < 2 ^ 128) (hsold : p.Affords (direction params) amounts.sum)
    (hdust : p.Affords (!direction params) dust) :
    Async.Keeps (Committed pair) (step pair)
      (fun x p' => p'.Affords (!direction params) (x.2.sum + dust)) (fun _ _ => True) p
      (stageOne params pool split amounts) := by
  obtain ⟨sales, settle, hsubmits, hne, hflag, hsales⟩ :=
    stageOne_submits params pool split amounts hpos hlt
  rcases stageOne_cases params pool split amounts with hnone | ⟨jobs, settle', hsettles, -, hswaps,
    hjobs⟩
  · rw [hnone] at hsubmits
    cases hsubmits
  rw [hjobs] at hsubmits ⊢
  obtain ⟨rfl, -⟩ := Async.call.inj hsubmits
  intro replies hlen
  have hsold' : p.Affords (direction params) (sold (jobs.map Async.Job.call)) := by
    rw [sold, hsales, sum_ordersSold split hlt]
    exact hsold
  obtain ⟨p', hrun, hp'⟩ := run_sales hflag hlen hsold' hdust
  refine ⟨p', hrun, Async.keeps_ofExcept (fun x hx => ?_) fun _ _ => trivial⟩
  obtain ⟨hall, hfailed⟩ := hsettles replies (by simpa using hlen)
  cases houtputs : replies.mapM Reply.output? with
  | none =>
    obtain ⟨e, he⟩ := hfailed houtputs
    rw [he] at hx
    cases hx
  | some outputs =>
    obtain ⟨volume, hvolume⟩ := hall outputs houtputs
    rw [hvolume] at hx
    rw [← Except.ok.inj hx, ← (bought_of_outputs hswaps hlen houtputs).2]
    exact hp'

/-- The orders of a split sell the amount, and a little dust at most. -/
theorem sum_splitAmount_le (env : Env) {total : ℕ} (hpos : 0 < total) (hlt : total < 2 ^ 128) :
    0 < (splitAmount env total (getSplitOrderCount env)).sum ∧
      (splitAmount env total (getSplitOrderCount env)).sum ≤ total + dust := by
  have hcount := getSplitOrderCount_le env
  rw [sum_splitAmount env hpos hlt (hcount.trans_lt (by decide)), dust]
  omega

/-- Stage 2 sells the total, and a little dust at most. -/
theorem keeps_stageTwo {split : Bool} {total volume : ℕ} (hpos : 0 < total)
    (hlt : total < 2 ^ 128) (h : p.Affords (direction params) (total + dust)) :
    Async.Keeps (Committed pair) (step pair) (fun _ _ => True) (fun _ _ => True) p
      (stageTwo params pool split total volume) := by
  have hnone : p.Affords (!direction params) 0 := affords_zero
  unfold stageTwo
  split_ifs
  · refine Async.Keeps.bind (Async.keeps_env fun env => ?_)
    dsimp only
    split_ifs
    · trivial
    · intro replies hlen
      have hsold : p.Affords (direction params) (sold ((trades params pool (orders (splitAmount env
          total (getSplitOrderCount env)))).map Async.Job.call)) := by
        rw [sold_trades]
        exact h.mono (sum_splitAmount_le env hpos hlt).2
      obtain ⟨p', hrun, -⟩ := run_sales (zeroForOne?_of_mem_trades params pool _) hlen hsold hnone
      exact ⟨p', hrun, trivial⟩
  · rw [Async.bind_eq, Async.run_mapError_bind]
    intro replies hlen
    have hsold : p.Affords (direction params) (sold [(executeCallTradeNoSlippage
        { params with amount := total } pool).call]) := by
      rw [sold, List.map_singleton, List.sum_singleton, sold_trade]
      exact h.mono (Nat.le_add_right _ _)
    obtain ⟨p', hrun, -⟩ := run_sales
      (List.forall_mem_singleton.2 (zeroForOne?_trade { params with amount := total } pool)) hlen
      hsold hnone
    refine ⟨p', hrun, ?_⟩
    dsimp only
    split <;> trivial

end Sales

/-! ## Messages -/

section Messages

variable {host : Host} (hne : pair.baseToken.canisterId ≠ pair.quoteToken.canisterId)

include hne

/-- The balance is looked at once more, and what comes of it is passed over. -/
theorem keeps_recheck {α : Type} (a : α) : Async.Keeps (Committed pair) (step pair)
    (fun _ _ => True) (fun _ _ => True) p
      ((checkIcpswapBalance host).attempt.bind fun _ : Except String (ℕ × ℕ) =>
        (.ret a : Handler α)) :=
  Async.Keeps.bind (Async.Keeps.attempt ((keeps_checkIcpswapBalance hne).mono (fun _ _ _ => trivial)
    fun _ _ _ => trivial))

/-- The flag of the swaps of stage 1. -/
def flagOf (pair : TradingPair) : TradeDirection → Bool
  | .sell => baseFlag pair
  | .buy => !baseFlag pair

/-- The flag of a swap is that of its direction. -/
theorem direction_hedgeParams {config : SelfHedgingConfig} (hconfig : config.tradingPair = pair)
    (d : TradeDirection) : direction (hedgeParams config d) = flagOf pair d := by
  subst hconfig
  cases d with
  | sell => rfl
  | buy =>
    exact isZeroForOne_swap (createTokenInfo config.tradingPair.baseToken)
      (createTokenInfo config.tradingPair.quoteToken) hne

/-- Both stages are paid by what is sold and by what the first one has brought. -/
theorem keeps_executeHedgeTrades {d : TradeDirection} {amounts : List ℕ}
    (splitType : OrderSplitType) (hpos : 0 < amounts.sum) (hlt : amounts.sum < 2 ^ 128)
    (hsold : p.Affords (flagOf pair d) amounts.sum) (hdust : p.Affords (!flagOf pair d) dust) :
    Async.Keeps (Committed pair) (step pair) (fun _ _ => True) (fun _ _ => True) p
      (executeHedgeTrades host d amounts splitType) := by
  refine Async.Keeps.bind (Async.keeps_get fun m hm => ?_)
  have hflag := direction_hedgeParams hne hm.2 d
  refine Async.Keeps.bind (Async.Keeps.mapError ((keeps_getPoolInfo host _ _).mono ?_
    fun _ _ h => h))
  intro pool p' hp'
  rw [← hflag] at hsold hdust
  refine Async.Keeps.bind ((keeps_stageOne hpos hlt
    (hp' _ _ hsold) (hp' _ _ hdust)).mono ?_ fun _ _ h => h)
  rintro ⟨volume, outputs⟩ p'' hp''
  dsimp only [afterStageOne]
  split_ifs with htotal
  · exact keeps_recheck hne volume
  · have hreverse : direction { hedgeParams m.state.config d with
        direction := (hedgeParams m.state.config d).direction.reverse } =
          !direction (hedgeParams m.state.config d) :=
      direction_reverse (by rw [← hm.2] at hne; exact hne)
    have hle : wrappingSum outputs ≤ outputs.sum := by
      rw [wrappingSum_eq]
      exact Nat.mod_le _ _
    have hfits : wrappingSum outputs < 2 ^ 128 := by
      rw [wrappingSum_eq]
      exact Nat.mod_lt _ (by decide)
    refine Async.Keeps.bind ((keeps_stageTwo (Nat.pos_of_ne_zero htotal) hfits ?_).mono
      (fun v _ _ => keeps_recheck hne v) fun _ _ h => h)
    rw [← hreverse] at hp''
    exact hp''.mono (Nat.add_le_add_right hle _)

/-- The trades of an amount that there is. -/
theorem keeps_trades {d : TradeDirection} {balance amount : ℕ} (hfits : balance ≤ u128Max)
    (hsold : p.Affords (flagOf pair d) (balance + dust)) (hdust : p.Affords (!flagOf pair d) dust)
    (hpos : amount ≠ 0) (hle : amount ≤ balance) (env : Env) (splitType : OrderSplitType) :
    Async.Keeps (Committed pair) (step pair) (fun _ _ => True) (fun _ _ => True) p
      (executeHedgeTrades host d (splitAmount env amount (getSplitOrderCount env)) splitType) := by
  have hlt : balance < 2 ^ 128 := hfits.trans_lt (by decide)
  have hcount := getSplitOrderCount_le env
  have hsum := sum_splitAmount env (Nat.pos_of_ne_zero hpos) (hle.trans_lt hlt)
    (hcount.trans_lt (by decide))
  obtain ⟨hsome, hmost⟩ := sum_splitAmount_le env (Nat.pos_of_ne_zero hpos) (hle.trans_lt hlt)
  refine keeps_executeHedgeTrades hne splitType hsome ?_ (hsold.mono (by omega)) hdust
  rw [hsum]
  omega

/-- What follows the balance check of a cycle. -/
theorem keeps_checked {d : TradeDirection} {balance size : ℕ} (hfits : balance ≤ u128Max)
    (hsold : p.Affords (flagOf pair d) (balance + dust)) (hdust : p.Affords (!flagOf pair d) dust)
    (splitType : OrderSplitType) (g : String → String)
    {k : Except String Unit → Handler (Option ℕ)} (hk : ∀ p' r, Async.Keeps (Committed pair)
      (step pair) (fun _ _ => True) (fun _ _ => True) p' (k r)) :
    Async.Keeps (Committed pair) (step pair) (fun _ _ => True) (fun _ _ => True) p
      (if balance < size / 20 then (Async.update (pause host)).attempt.bind k
      else if (if size ≤ balance then size else balance) = 0 then .ret none
      else Async.env.bind fun env => ((executeHedgeTrades host d (splitAmount env
        (if size ≤ balance then size else balance) (getSplitOrderCount env)) splitType).mapError
          g).bind fun volume => .ret (some volume)) := by
  split_ifs with hshort hsize hzero hzero
  · exact Async.Keeps.bind (Async.Keeps.attempt (Async.keeps_update
      (fun env m m' => pause_committed) (hk p _) fun _ => hk p _))
  · trivial
  · exact Async.Keeps.bind (Async.keeps_env fun env => Async.Keeps.bind (Async.Keeps.mapError
      ((keeps_trades hne hfits hsold hdust hzero hsize env splitType).mono (fun _ _ _ => trivial)
        fun _ _ h => h)))
  · trivial
  · exact Async.Keeps.bind (Async.keeps_env fun env => Async.Keeps.bind (Async.Keeps.mapError
      ((keeps_trades hne hfits hsold hdust hzero le_rfl env splitType).mono (fun _ _ _ => trivial)
        fun _ _ h => h)))

/-- The trades of an execution spend no more than the balance that they were told. -/
theorem keeps_executionTrades : Async.Keeps (Committed pair) (step pair) (fun _ _ => True)
    (fun _ _ => True) p (executionTrades host) := by
  refine Async.Keeps.bind (Async.keeps_get fun m hm => Async.Keeps.bind (Async.keeps_env
    fun env => ?_))
  dsimp only
  split_ifs with hcooled hbase
  · trivial
  all_goals
    refine Async.Keeps.bind (Async.Keeps.mapError ((keeps_checkIcpswapBalance hne).mono ?_
      fun _ _ h => h))
    rintro ⟨baseBalance, quoteBalance⟩ p' ⟨hsellsBase, hsellsQuote, hbaseFits, hquoteFits⟩
  · refine keeps_checked (d := .sell) hne hbaseFits hsellsBase
      (hsellsQuote.mono (Nat.le_add_left _ _)) _ _ ?_
    rintro p' (e | u) <;> trivial
  · have hdust : p'.Affords (!!baseFlag pair) dust := by
      rw [Bool.not_not]
      exact hsellsBase.mono (Nat.le_add_left _ _)
    refine keeps_checked (d := .buy) hne hquoteFits hsellsQuote hdust _ _ ?_
    rintro p' (e | u) <;> trivial

theorem keeps_executeOnce : Async.Keeps (Committed pair) (step pair) (fun _ _ => True)
    (fun _ _ => True) p (executeOnce host) := by
  have hcycle : Async.Keeps (Committed pair) (step pair) (fun _ _ => True) (fun _ _ => True) p
      (executionCycle host) := by
    rw [executionCycle_eq]
    refine Async.Keeps.bind ((keeps_executionTrades hne).mono ?_ fun _ _ h => h)
    rintro (_ | volume) p' -
    · trivial
    · exact Async.keeps_modify (fun _ _ ht => ht) trivial
  refine Async.Keeps.bind (Async.keeps_check (Async.Keeps.bind (Async.keeps_get fun m hm => ?_))
    fun _ => trivial)
  split_ifs
  · trivial
  · have hend : ∀ p' (result : Except String Unit), Async.Keeps (Committed pair) (step pair)
        (fun _ _ => True) (fun _ _ => True) p' ((Async.modify fun _ m =>
          { m with executionInProgress := false }).bind fun _ => .ofExcept result : Handler Unit) :=
      fun p' result => Async.Keeps.bind (Async.keeps_modify (fun _ _ ht => ht)
        (Async.keeps_ofExcept (fun _ _ => trivial) fun _ _ => trivial))
    exact Async.Keeps.bind (Async.keeps_modify (fun _ _ ht => ht) (Async.Keeps.bind
      (Async.Keeps.attempt (hcycle.mono (fun _ p' _ => hend p' _) fun _ p' _ => hend p' _))))

omit hne in
/-- Nor does a withdrawal of what the purse affords. -/
theorem keeps_withdrawToken {params : TradeParams} {token : TokenInfo} {amount : ℕ}
    (h : p.Affords (token.canisterId.toText = firstAddress pair) (amount + dust)) :
    Async.Keeps (Committed pair) (step pair) (fun _ _ => True) (fun _ _ => True) p
      (withdrawToken params token amount : Async Env Memory Call Reply ExchangeError ℕ) := by
  obtain ⟨args, hcall, -⟩ := call_getPoolCanister params.baseToken params.quoteToken
  have hpool : Async.Keeps (Committed pair) (step pair)
      (fun _ p' => ∀ z n, p.Affords z n → p'.Affords z n) (fun _ _ => True) p
      ((getPoolCanister params.baseToken params.quoteToken).run :
        Async Env Memory Call Reply ExchangeError IcpSwapPoolData) :=
    keeps_pool hcall fun r a p' _ hkeeps _ => hkeeps
  refine Async.Keeps.bind (hpool.mono ?_ fun _ _ h => h)
  intro data p' hp'
  refine Async.Keeps.bind (Async.keeps_run fun r => ⟨_, if_pos (hp' _ _ h), fun _ _ => ?_,
    fun _ _ => trivial⟩)
  exact Async.keeps_ofExcept (fun _ _ => trivial) fun _ _ => trivial

/-- The flags of the two tokens of the pair. -/
theorem flag_of_first :
    decide (pair.baseToken.canisterId.toText = firstAddress pair) = baseFlag pair ∧
      decide (pair.quoteToken.canisterId.toText = firstAddress pair) = !baseFlag pair := by
  have hbase := baseToken_eq_first (createTokenInfo pair.baseToken)
    (createTokenInfo pair.quoteToken) hne
  refine ⟨hbase, ?_⟩
  unfold firstAddress firstToken baseFlag
  cases isZeroForOne (createTokenInfo pair.baseToken) (createTokenInfo pair.quoteToken) with
  | true => exact decide_eq_false fun heq => hne (Principal.toText_injective heq).symm
  | false => exact decide_eq_true rfl

/-- A withdrawal is checked against the balance. -/
theorem keeps_withdrawFromExchange (tokenType : String) (amount : ℕ) :
    Async.Keeps (Committed pair) (step pair) (fun _ _ => True) (fun _ _ => True) p
      (withdrawFromExchange host tokenType amount) := by
  refine Async.Keeps.bind (Async.keeps_check (Async.Keeps.bind (Async.keeps_get fun m hm =>
    Async.Keeps.bind (Async.keeps_ofExcept (fun token htoken => ?_) fun _ _ => trivial)))
      fun _ => trivial)
  obtain ⟨-, rfl⟩ := hm
  obtain ⟨hbase, hquote⟩ := flag_of_first hne
  refine Async.Keeps.bind (Async.Keeps.mapError ((keeps_checkIcpswapBalance hne).mono ?_
    fun _ _ h => h))
  rintro ⟨baseBalance, quoteBalance⟩ p' ⟨hsellsBase, hsellsQuote, -⟩
  have hafford : amount ≤ (if tokenType.toLower = "base" then baseBalance else quoteBalance) →
      p'.Affords (token.canisterId.toText = firstAddress m.state.config.tradingPair)
        (amount + dust) := by
    unfold tokenOf at htoken
    split_ifs at htoken ⊢ with hb hq
    · rw [← Except.ok.inj htoken]
      exact fun hle => hbase ▸ hsellsBase.mono (Nat.add_le_add_right hle _)
    · rw [← Except.ok.inj htoken]
      exact fun hle => hquote ▸ hsellsQuote.mono (Nat.add_le_add_right hle _)
  dsimp only
  split_ifs at hafford ⊢ with hb hless
  all_goals first
    | trivial
    | exact Async.Keeps.bind (Async.Keeps.mapError ((keeps_withdrawToken (hafford
        (not_lt.1 ‹_›))).mono (fun _ _ _ => keeps_recheck hne _) fun _ _ h => h))

omit hne in
theorem keeps_approveToken (token : TokenInfo) (spender : Principal) (amount : ℕ) :
    Async.Keeps (Committed pair) (step pair) (fun _ _ => True) (fun _ _ => True) p
      (approveToken token spender amount : Async Env Memory Call Reply ExchangeError Unit) := by
  rcases approveToken_cases token spender amount with ⟨e, he⟩ | ⟨j, hj, hcall, -⟩
  · rw [he]
    trivial
  · rw [hj]
    refine keeps_run_of_spends_eq_false ?_
    cases hc : j.call <;> rw [hc] at hcall <;> first | rfl | cases hcall

theorem keeps_depositToExchange (tokenType : String) (amount : ℕ) :
    Async.Keeps (Committed pair) (step pair) (fun _ _ => True) (fun _ _ => True) p
      (depositToExchange host tokenType amount) := by
  have hdeposit : ∀ params token, Async.Keeps (Committed pair) (step pair) (fun _ _ => True)
      (fun _ _ => True) p
      (depositToken params token amount : Async Env Memory Call Reply ExchangeError ℕ) := by
    intro params token
    obtain ⟨args, hcall, -⟩ := call_getPoolCanister params.baseToken params.quoteToken
    unfold depositToken
    split
    · trivial
    · refine Async.Keeps.bind ((keeps_run_of_spends_eq_false ?_).mono (fun data p' _ => ?_)
        fun _ _ h => h)
      · rw [hcall]
        rfl
      · refine Async.Keeps.bind ((keeps_approveToken _ _ _).mono (fun _ p'' _ => ?_)
          fun _ _ h => h)
        refine Async.Keeps.bind ((keeps_run_of_spends_eq_false rfl).mono (fun n p' _ => ?_)
          fun _ _ h => h)
        exact Async.keeps_ofExcept (fun _ _ => trivial) fun _ _ => trivial
  refine Async.Keeps.bind (Async.keeps_check (Async.Keeps.bind (Async.keeps_get fun m hm =>
    Async.Keeps.bind (Async.keeps_ofExcept (fun token _ => ?_) fun _ _ => trivial)))
      fun _ => trivial)
  exact Async.Keeps.bind (Async.Keeps.mapError ((hdeposit _ token).mono
    (fun _ _ _ => keeps_recheck hne _) fun _ _ h => h))

theorem keeps_start : Async.Keeps (Committed pair) (step pair) (fun _ _ => True)
    (fun _ _ => True) p (SelfHedging.start host) := by
  refine Async.Keeps.bind (Async.keeps_check (Async.Keeps.bind (Async.keeps_check
    (Async.Keeps.bind (Async.keeps_get fun m hm => ?_)) fun _ => trivial)) fun _ => trivial)
  refine Async.Keeps.bind (Async.Keeps.mapError ((keeps_getPoolInfo host _ _).mono
    (fun pool p' _ => ?_) fun _ _ h => h))
  refine Async.Keeps.bind (Async.Keeps.mapError ((keeps_checkIcpswapBalance hne).mono ?_
    fun _ _ h => h))
  rintro ⟨baseBalance, quoteBalance⟩ p'' -
  dsimp only
  split_ifs
  · trivial
  all_goals
    exact Async.Keeps.bind (Async.Keeps.mapError ((keeps_approveToken _ _ _).mono
      (fun _ _ _ => Async.Keeps.bind (Async.keeps_modify (fun _ _ ht => ht)
        (Async.keeps_modify (fun _ _ ht => ht) trivial))) fun _ _ h => h))

theorem keeps_refreshBalance : Async.Keeps (Committed pair) (step pair) (fun _ _ => True)
    (fun _ _ => True) p (refreshBalance host) :=
  Async.Keeps.bind (Async.Keeps.mapError ((keeps_checkIcpswapBalance hne).mono
    (fun _ _ _ => trivial) fun _ _ h => h))

end Messages

end Purse

/-! ## Runs -/

namespace Log

/-- Once a strategy has an owner and trades two tokens, every conversation that begins sells and
withdraws no more than it was told of and has brought in since, but for the dust of a split. -/
theorem spending_kept (host : Host) {es : List CanisterEvent} {l : Log}
    (hrun : Runs.run (step host) (start .installed) es = some l)
    (howner : l.memory.state.owner ≠ .anonymous)
    (hne : l.memory.state.config.tradingPair.baseToken.canisterId ≠
      l.memory.state.config.tradingPair.quoteToken.canisterId) (es' : List CanisterEvent) :
    Runs.Throughout (step host)
      (Conforms (Purse.step l.memory.state.config.tradingPair) .start l.clock) l es' :=
  conforms_throughout (keeps_handler (Purse.keeps_start hne) (Purse.keeps_executeOnce hne)
    (Purse.keeps_depositToExchange hne) (Purse.keeps_withdrawFromExchange hne)
    (Purse.keeps_refreshBalance hne)) hrun ⟨howner, rfl⟩ es'

/-- The conversations of a strategy that is started and executes. -/
theorem spending_kept_executes : ∃ l, Runs.run (step sampleHost) (start .installed)
    [Sample.initialises] = some l ∧ Runs.Throughout (step sampleHost)
      (Conforms (Purse.step l.memory.state.config.tradingPair) .start l.clock) l
      Sample.startsAndExecutes := by
  obtain ⟨l, hrun, howner, hpair⟩ := exists_initialised
  have hproper : l.memory.state.owner ≠ .anonymous := ne_of_eq_of_ne howner (by decide)
  exact ⟨l, hrun, spending_kept sampleHost hrun hproper (hpair ▸ by decide)
    Sample.startsAndExecutes⟩

end Log

end HunterFi
