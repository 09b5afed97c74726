import HunterFi.Executions

/-!
# When an execution trades

The exchanges of an execution, in order : the pool and the balance, then the pool again, then the
swaps of stage 1 and, if these bring in anything, those of stage 2, and at last the balance once
more. `unfolds_executionTrades` and `unfolds_executeHedgeTrades` read this off the code.

`tradesWhileRunning_iff` : no execution submits its first swap while the strategy is paused or
terminated, if and only if none of those that have found their balance is told of its pool then.
The status is tested at the entry of `execute_once` and not after its calls.
-/

set_option linter.unusedSectionVars false

namespace HunterFi

open Icpswap SelfHedging

/-! ## Exchanges without a swap -/

/-- None of the calls asks for a swap. -/
def Swapless (xs : List (Async.Exchange Call Reply)) : Prop :=
  ∀ x ∈ xs, ∀ c ∈ x.calls, c.isSwap = false

instance (xs : List (Async.Exchange Call Reply)) : Decidable (Swapless xs) :=
  inferInstanceAs (Decidable (∀ x ∈ xs, ∀ c ∈ x.calls, c.isSwap = false))

theorem swapless_nil : Swapless [] :=
  fun _ hx => (nomatch hx)

theorem swapless_append {xs ys : List (Async.Exchange Call Reply)} :
    Swapless (xs ++ ys) ↔ Swapless xs ∧ Swapless ys :=
  List.forall_mem_append

theorem swapless_of_submits {α : Type} {p q : Handler α}
    {xs : List (Async.Exchange Call Reply)} (hp : p.Submits Asks) (h : Async.Unfolds p xs q) :
    Swapless xs :=
  fun x hx c hc => isSwap_of_asks (hp.exchanged h x hx c hc)

/-! ## The balance check -/

namespace SelfHedging

variable {host : Host} {xs : List (Async.Exchange Call Reply)}

theorem unfolds_getUnusedBalance {params : TradeParams} {user : Principal}
    {r : Async Env Memory Call Reply ExchangeError (ℕ × ℕ × String)}
    (h : Async.Unfolds (getUnusedBalance params user) xs r) :
    (∃ x, r = .ret x ∧ xs.length = 2 ∧ x.1 ≤ u128Max ∧ x.2.1 ≤ u128Max) ∨
      (∃ calls k, r = .call calls k ∧ xs.length < 2) ∨ ∃ e, r = .fail e ∧ xs.length ≤ 2 := by
  rcases Async.unfolds_run_bind h with ⟨rfl, rfl⟩ | ⟨r₁, ys, rfl, ⟨e, -, rfl, rfl⟩ | ⟨data, -, h⟩⟩
  · exact Or.inr (Or.inl ⟨_, _, rfl, Nat.two_pos⟩)
  · exact Or.inr (Or.inr ⟨e, rfl, by simp⟩)
  rcases Async.unfolds_run_bind h with ⟨rfl, rfl⟩ | ⟨r₂, zs, rfl, ⟨e, -, rfl, rfl⟩ | ⟨b, hb, h⟩⟩
  · exact Or.inr (Or.inl ⟨_, _, rfl, Nat.one_lt_two⟩)
  · exact Or.inr (Or.inr ⟨e, rfl, le_rfl⟩)
  · obtain ⟨rfl, rfl⟩ := Async.unfolds_ret.1 h
    obtain ⟨balance, -, hfits, rfl⟩ := outcome_callGetUserUnusedBalance hb
    exact Or.inl ⟨_, rfl, rfl, hfits⟩

/-- The balances of the base and of the quote token, from those of the pool. -/
def inOrder (m : Memory) (a : ℕ × ℕ × String) : ℕ × ℕ :=
  let isBaseToken0 : Bool := m.state.config.tradingPair.baseToken.canisterId.toText = a.2.2
  if isBaseToken0 then (a.1, a.2.1) else (a.2.1, a.1)

/-- The balance check, over the balances of the pool. -/
theorem unfolds_checkIcpswapBalance {r : Handler (ℕ × ℕ)}
    (h : Async.Unfolds (checkIcpswapBalance host) xs r) (hr : r.Stops) : ∃ m : Memory,
      Async.Unfolds (((getUnusedBalance (createTradeParams m.state.config) host.id).mapError
        fun e => "Failed to get unused balance: " ++ e.debug).bind fun a =>
          (Async.modify (updateUnusedBalance (inOrder m a).1 (inOrder m a).2)).bind fun _ =>
            .ret (inOrder m a)) xs r := by
  obtain ⟨m, hm⟩ := Async.unfolds_get_bind h hr
  refine ⟨m, ?_⟩
  rw [Async.bind_eq] at hm
  refine (congrArg (fun q => Async.Unfolds (Async.bind _ q) xs r) (funext fun a => ?_)).mp hm
  obtain ⟨balance0, balance1, token0⟩ := a
  dsimp only [inOrder]
  cases decide (m.state.config.tradingPair.baseToken.canisterId.toText = token0) <;> rfl

/-- A balance check that returns has had two exchanges. -/
theorem unfolds_checkIcpswapBalance_ret {x : ℕ × ℕ}
    (h : Async.Unfolds (checkIcpswapBalance host) xs (.ret x)) :
    xs.length = 2 ∧ x.1 ≤ u128Max ∧ x.2 ≤ u128Max := by
  obtain ⟨m, hm⟩ := unfolds_checkIcpswapBalance h trivial
  obtain ⟨a, ys, zs, rfl, hys, hzs⟩ := Async.unfolds_bind_ret hm
  have hlast := Async.unfolds_modify_bind hzs trivial
  obtain ⟨rfl, heq⟩ := Async.unfolds_ret.1 hlast
  rw [List.append_nil]
  rcases unfolds_getUnusedBalance (Async.unfolds_mapError_ret hys) with
    ⟨b, hb, hlen, h0, h1⟩ | ⟨calls, k, hk, -⟩ | ⟨e, he, -⟩
  · cases hb
    refine ⟨hlen, ?_⟩
    obtain rfl := Async.ret.inj heq
    unfold inOrder
    dsimp only
    split_ifs
    · exact ⟨h0, h1⟩
    · exact ⟨h1, h0⟩
  · cases hk
  · cases he

/-- A balance check that awaits a reply has had one exchange at most. -/
theorem unfolds_checkIcpswapBalance_call {calls : List Call} {k : List Reply → Handler (ℕ × ℕ)}
    (h : Async.Unfolds (checkIcpswapBalance host) xs (.call calls k)) : xs.length < 2 := by
  obtain ⟨m, hm⟩ := unfolds_checkIcpswapBalance h trivial
  rcases Async.unfolds_bind_call hm with ⟨k', hk, -⟩ | ⟨a, ys, zs, -, -, hzs⟩
  · obtain ⟨k'', hk'', -⟩ := Async.unfolds_mapError_call hk
    rcases unfolds_getUnusedBalance hk'' with ⟨b, hb, -⟩ | ⟨calls, k, hk, hlen⟩ | ⟨e, he, -⟩
    · cases hb
    · exact hlen
    · cases he
  · have hlast := Async.unfolds_modify_bind hzs trivial
    cases (Async.unfolds_ret.1 hlast).2

/-- A balance check that fails has had two exchanges at most. -/
theorem unfolds_checkIcpswapBalance_fail {e : String}
    (h : Async.Unfolds (checkIcpswapBalance host) xs (.fail e)) : xs.length ≤ 2 := by
  obtain ⟨m, hm⟩ := unfolds_checkIcpswapBalance h trivial
  rcases Async.unfolds_bind_fail hm with hfail | ⟨a, ys, zs, -, -, hzs⟩
  · obtain ⟨e', he'⟩ := Async.unfolds_mapError_fail hfail
    rcases unfolds_getUnusedBalance he' with ⟨b, hb, -⟩ | ⟨calls, k, hk, -⟩ | ⟨e, -, hlen⟩
    · cases hb
    · cases hk
    · exact hlen
  · have hlast := Async.unfolds_modify_bind hzs trivial
    cases (Async.unfolds_ret.1 hlast).2

/-- A balance check whose failure is reported, and what follows it. -/
theorem unfolds_balance {α : Type} {g : String → String} {q : ℕ × ℕ → Handler α} {r : Handler α}
    (h : Async.Unfolds (((checkIcpswapBalance host).mapError g).bind q) xs r) (hr : r.Stops) :
    (Swapless xs ∧ xs.length ≤ 2 ∧ ((∃ e, r = .fail e) ∨
      ∃ calls k, r = .call calls k ∧ xs.length < 2 ∧ ∀ c ∈ calls, c.isSwap = false)) ∨
    ∃ x ys zs, xs = ys ++ zs ∧ ys.length = 2 ∧ Swapless ys ∧ x.1 ≤ u128Max ∧ x.2 ≤ u128Max ∧
      Async.Unfolds (q x) zs r := by
  have hasks : ((checkIcpswapBalance host).mapError g).Submits Asks :=
    .mapError g (submits_checkIcpswapBalance host)
  have hpast : ∀ x ys zs, xs = ys ++ zs →
      Async.Unfolds ((checkIcpswapBalance host).mapError g) ys (.ret x) →
        Async.Unfolds (q x) zs r → ∃ x ys zs, xs = ys ++ zs ∧ ys.length = 2 ∧ Swapless ys ∧
          x.1 ≤ u128Max ∧ x.2 ≤ u128Max ∧ Async.Unfolds (q x) zs r := by
    intro x ys zs heq hys hzs
    obtain ⟨hlen, hbounds⟩ := unfolds_checkIcpswapBalance_ret (Async.unfolds_mapError_ret hys)
    exact ⟨x, ys, zs, heq, hlen, swapless_of_submits hasks hys, hbounds.1, hbounds.2, hzs⟩
  cases r with
  | ret a =>
    obtain ⟨x, ys, zs, heq, hys, hzs⟩ := Async.unfolds_bind_ret h
    exact Or.inr (hpast x ys zs heq hys hzs)
  | fail e =>
    rcases Async.unfolds_bind_fail h with hfail | ⟨x, ys, zs, heq, hys, hzs⟩
    · obtain ⟨e', he'⟩ := Async.unfolds_mapError_fail hfail
      exact Or.inl ⟨swapless_of_submits hasks hfail, unfolds_checkIcpswapBalance_fail he',
        Or.inl ⟨e, rfl⟩⟩
    · exact Or.inr (hpast x ys zs heq hys hzs)
  | access f k => exact hr.elim
  | call calls k =>
    rcases Async.unfolds_bind_call h with ⟨k', hk, -⟩ | ⟨x, ys, zs, heq, hys, hzs⟩
    · obtain ⟨k'', hk'', -⟩ := Async.unfolds_mapError_call hk
      have hlen := unfolds_checkIcpswapBalance_call hk''
      exact Or.inl ⟨swapless_of_submits hasks hk, hlen.le, Or.inr ⟨calls, k, rfl, hlen,
        fun c hc => isSwap_of_asks (hasks _ _ _ hk c hc)⟩⟩
    · exact Or.inr (hpast x ys zs heq hys hzs)

/-! ## The pool -/

/-- The texts of the token standards. -/
def standards : List String :=
  ["ICRC1", "ICRC2", "DIP20", "EXT", "ICP"]

/-- What the connector can read of a pool : the two tokens and the fee. -/
def Readable (host : Host) (data : IcpSwapPoolData) : Prop :=
  (∃ p, host.principalFromText data.token0.address = .ok p) ∧
    (∃ p, host.principalFromText data.token1.address = .ok p) ∧
      data.token0.standard ∈ standards ∧ data.token1.standard ∈ standards ∧ data.fee ≤ u64Max

theorem stringToTokenStandard_ok_iff {s : String} :
    (∃ t, stringToTokenStandard s = .ok t) ↔ s ∈ standards := by
  unfold stringToTokenStandard standards
  split <;> simp_all

theorem parseToken_eq_ok (name : String) {address : String} {p : Principal} :
    parseToken host name address = .ok p ↔ host.principalFromText address = .ok p := by
  unfold parseToken
  cases host.principalFromText address <;> simp

theorem parseToken_ok_iff (name : String) {address : String} :
    (∃ p, parseToken host name address = .ok p) ↔ ∃ p, host.principalFromText address = .ok p :=
  exists_congr fun _ => parseToken_eq_ok name

theorem toU64_ok_iff (what : String) {n : ℕ} : (∃ k, toU64 what n = .ok k) ↔ n ≤ u64Max := by
  unfold toU64 tryFrom
  split_ifs with h <;> simp [h]

/-- The pool is found exactly if all of it can be read. -/
theorem poolInfo_ok_iff (base quote : TokenInfo) {data : IcpSwapPoolData} :
    (∃ pool, poolInfo host base quote data = .ok pool) ↔ Readable host data := by
  rw [Readable, ← parseToken_ok_iff "token0", ← parseToken_ok_iff "token1",
    ← stringToTokenStandard_ok_iff, ← stringToTokenStandard_ok_iff,
    ← toU64_ok_iff "pool fee"]
  unfold poolInfo
  simp only [bind, Except.bind, pure, Except.pure]
  cases parseToken host "token0" data.token0.address with
  | error e => simp
  | ok token0 =>
    cases parseToken host "token1" data.token1.address with
    | error e => simp
    | ok token1 =>
      cases stringToTokenStandard data.token0.standard with
      | error e => simp
      | ok standard0 =>
        cases stringToTokenStandard data.token1.standard with
        | error e => simp
        | ok standard1 => cases toU64 "pool fee" data.fee <;> simp

/-- The reply tells of a pool that can be read. -/
def FindsPool (host : Host) (r : Reply) : Prop :=
  ∃ data, r = .pool (.ok data) ∧ Readable host data

/-- The pool is found exactly if the reply tells of one that can be read. -/
theorem getPoolInfo_ok_iff {base quote : TokenInfo} {r : Reply} :
    (∃ pool, (getPoolInfo host base quote).outcome r = .ok pool) ↔ FindsPool host r := by
  rw [getPoolInfo]
  simp only [Async.Job.outcome_andThen]
  cases h : (getPoolCanister base quote).outcome r with
  | ok data =>
    obtain rfl := outcome_getPoolCanister.1 h
    have hread : FindsPool host (.pool (.ok data)) ↔ Readable host data := by simp [FindsPool]
    rw [hread, ← poolInfo_ok_iff base quote]
    rfl
  | error e =>
    refine iff_of_false ?_ ?_
    · rintro ⟨pool, hpool⟩
      cases hpool
    · rintro ⟨data, rfl, -⟩
      rw [outcome_getPoolCanister.2 rfl] at h
      cases h

/-! ## The stages -/

/-- The stages of the trades that `execute_hedge_trades` makes in a pool. -/
def stages (host : Host) (params : TradeParams) (pool : PoolInfo) (splitType : OrderSplitType)
    (split : Bool) (amounts : List ℕ) : Handler ℕ :=
  (stageOne params pool split amounts).bind fun x =>
    afterStageOne host params pool splitType x.1 x.2

/-- The trades ask for the pool, and go through their stages if they find it. -/
theorem unfolds_executeHedgeTrades {direction : TradeDirection} {amounts : List ℕ}
    {splitType : OrderSplitType} {r : Handler ℕ}
    (h : Async.Unfolds (executeHedgeTrades host direction amounts splitType) xs r) (hr : r.Stops) :
    (xs = [] ∧ ∃ calls k, r = .call calls k ∧ (∀ c ∈ calls, c.isSwap = false) ∧
      ∀ reply, (¬FindsPool host reply ∧ ∃ e, k [reply] = .fail e) ∨
        FindsPool host reply ∧ ∃ params pool split,
          k [reply] = stages host params pool splitType split amounts) ∨
      ∃ calls reply ys, xs = ⟨calls, [reply]⟩ :: ys ∧ (∀ c ∈ calls, c.isSwap = false) ∧
        ((¬FindsPool host reply ∧ ys = [] ∧ ∃ e, r = .fail e) ∨
          (FindsPool host reply ∧ ∃ params pool split,
            Async.Unfolds (stages host params pool splitType split amounts) ys r)) := by
  obtain ⟨m, hm⟩ := Async.unfolds_get_bind h hr
  have hcall : ∀ c ∈ [(getPoolInfo host (createTradeParams m.state.config).baseToken
      (createTradeParams m.state.config).quoteToken).call], c.isSwap = false :=
    List.forall_mem_singleton.2 (isSwap_getPoolInfo host _ _)
  rcases Async.unfolds_run_mapError_bind hm with ⟨rfl, rfl⟩ | ⟨reply, ys, rfl, hrest⟩
  · refine Or.inl ⟨rfl, _, _, Async.run_mapError_bind _ _ _, hcall, fun reply => ?_⟩
    simp only [List.headD_cons]
    cases hpool : (getPoolInfo host (createTradeParams m.state.config).baseToken
        (createTradeParams m.state.config).quoteToken).outcome reply with
    | ok pool => exact Or.inr ⟨getPoolInfo_ok_iff.1 ⟨pool, hpool⟩, _, pool, _, rfl⟩
    | error e =>
      refine Or.inl ⟨fun hfound => ?_, _, rfl⟩
      obtain ⟨pool, hpool'⟩ := getPoolInfo_ok_iff.2 hfound
      exact nomatch hpool.symm.trans hpool'
  refine Or.inr ⟨_, reply, ys, rfl, hcall, ?_⟩
  rcases hrest with ⟨e, he, rfl, rfl⟩ | ⟨pool, hpool, hstages⟩
  · refine Or.inl ⟨fun hfound => ?_, rfl, _, rfl⟩
    obtain ⟨pool, hpool⟩ := getPoolInfo_ok_iff.2 hfound
    exact nomatch he.symm.trans hpool
  · exact Or.inr ⟨getPoolInfo_ok_iff.1 ⟨pool, hpool⟩, _, pool, _, hstages⟩

/-- Stage 1 submits swaps at once, if there is anything to sell. -/
theorem stages_eq_call (host : Host) (params : TradeParams) (pool : PoolInfo)
    (splitType : OrderSplitType) (split : Bool) {amounts : List ℕ} (hpos : 0 < amounts.sum)
    (hlt : amounts.sum < 2 ^ 128) :
    ∃ calls k, stages host params pool splitType split amounts = .call calls k ∧
      ∃ c ∈ calls, c.isSwap = true := by
  unfold stages stageOne
  cases split with
  | true =>
    have hsold := sold_trades params pool amounts
    have hne : orders amounts ≠ [] := by
      intro hnil
      rw [hnil] at hsold
      exact hpos.ne hsold
    simp only [if_true, List.isEmpty_iff, hne, if_false]
    refine ⟨_, _, rfl, ?_⟩
    obtain ⟨o, os, ho⟩ := List.exists_cons_of_ne_nil hne
    rw [ho]
    exact ⟨_, List.mem_cons_self, isSwap_trade⟩
  | false =>
    have htotal : wrappingSum amounts = amounts.sum := by
      rw [wrappingSum_eq, Nat.mod_eq_of_lt hlt]
    simp only [Bool.false_eq_true, if_false, htotal, if_pos hpos]
    exact ⟨_, _, rfl, _, List.mem_cons_self, isSwap_trade⟩

/-! ## The exchanges of an execution -/

/-- How an execution stands after exchanges : it looks for its balance and its pool, it has not
found the pool, or it is in the stages of its trades. -/
inductive Trading (host : Host) : List (Async.Exchange Call Reply) → Handler (Option ℕ) → Prop
  | asks {xs : List (Async.Exchange Call Reply)} {r : Handler (Option ℕ)} (few : xs.length ≤ 2)
    (swapless : Swapless xs) (volume : ∀ v, r ≠ .ret (some v))
    (calls : ∀ calls k, r = .call calls k → ∀ c ∈ calls, c.isSwap = false)
    (goes : ∀ calls k, r = .call calls k → xs.length = 2 → ∀ reply,
      (¬FindsPool host reply ∧ ∃ e, k [reply] = .fail e) ∨
        FindsPool host reply ∧ ∃ calls' k', k [reply] = .call calls' k' ∧
          ∃ c ∈ calls', c.isSwap = true) : Trading host xs r
  | lost {xs : List (Async.Exchange Call Reply)} {calls : List Call} {reply : Reply} (e : String)
    (two : xs.length = 2) (swapless : Swapless (xs ++ [⟨calls, [reply]⟩]))
    (lost : ¬FindsPool host reply) : Trading host (xs ++ [⟨calls, [reply]⟩]) (.fail e)
  | trades {xs zs : List (Async.Exchange Call Reply)} {calls : List Call} {reply : Reply}
    (two : xs.length = 2) (swapless : Swapless (xs ++ [⟨calls, [reply]⟩]))
    (found : FindsPool host reply) (params : TradeParams) (pool : PoolInfo)
    (splitType : OrderSplitType) (split : Bool) (amounts : List ℕ) (pos : 0 < amounts.sum)
    (lt : amounts.sum < 2 ^ 128) (p : Handler ℕ) (stops : p.Stops) (g : String → String)
    (unfolds : Async.Unfolds (stages host params pool splitType split amounts) zs p) :
    Trading host (xs ++ ⟨calls, [reply]⟩ :: zs) ((p.mapError g).bind fun v => .ret (some v))

/-- The trades of an execution that has an amount to sell. -/
theorem unfolds_hedge {direction : TradeDirection} {amounts : List ℕ} {splitType : OrderSplitType}
    {g : String → String} {ys zs : List (Async.Exchange Call Reply)} {r : Handler (Option ℕ)}
    (two : ys.length = 2) (swapless : Swapless ys) (hpos : 0 < amounts.sum)
    (hlt : amounts.sum < 2 ^ 128)
    (h : Async.Unfolds (((executeHedgeTrades host direction amounts splitType).mapError g).bind
      fun v => .ret (some v)) zs r) (hr : r.Stops) : Trading host (ys ++ zs) r := by
  obtain ⟨p, hp, rfl⟩ := Async.unfolds_mapError_bind h
  have hstops : p.Stops := by
    cases p with
    | access f k => exact hr
    | _ => trivial
  rcases unfolds_executeHedgeTrades hp hstops with ⟨rfl, calls, k, rfl, hcalls, hgoes⟩ |
    ⟨calls, reply, ws, rfl, hcalls, ⟨hlost, rfl, e, rfl⟩ | ⟨hfound, params, pool, split, hstages⟩⟩
  · rw [List.append_nil]
    refine .asks two.le swapless (fun v => nofun) (fun calls' k' heq => ?_)
      fun calls' k' heq _ reply => ?_
    · cases heq
      exact hcalls
    · cases heq
      rcases hgoes reply with ⟨hlost, e, he⟩ | ⟨hfound, params, pool, split, hstages⟩
      · refine Or.inl ⟨hlost, g e, ?_⟩
        show ((k [reply]).mapError g).bind _ = _
        rw [he]
        rfl
      · obtain ⟨calls', k', hcall, c, hc, hswap⟩ := stages_eq_call host params pool
          splitType split hpos hlt
        refine Or.inr ⟨hfound, calls', fun rs => ((k' rs).mapError g).bind fun v => .ret (some v),
          ?_, c, hc, hswap⟩
        show ((k [reply]).mapError g).bind _ = _
        rw [hstages, hcall]
        rfl
  all_goals
    have hall : Swapless (ys ++ [⟨calls, [reply]⟩]) :=
      swapless_append.2 ⟨swapless, List.forall_mem_singleton.2 hcalls⟩
  · exact .lost _ two hall hlost
  · exact .trades two hall hfound params pool splitType split amounts hpos hlt p hstops g hstages

/-- The exchanges of an execution. -/
theorem unfolds_executionTrades {r : Handler (Option ℕ)}
    (h : Async.Unfolds (executionTrades host) xs r) (hr : r.Stops) : Trading host xs r := by
  obtain ⟨m, hm⟩ := Async.unfolds_get_bind h hr
  obtain ⟨env, henv⟩ := Async.unfolds_env_bind hm hr
  have hfail : ∀ (ys : List (Async.Exchange Call Reply)) (e : String), ys.length ≤ 2 →
      Swapless ys → Trading host ys (.fail e) :=
    fun ys e hlen hys => .asks hlen hys (fun v => nofun) (fun calls k => nofun)
      fun calls k => nofun
  by_cases hsoon : (m.state.lastExecution.any fun t => env.time < saturatingAdd t cooldownNs) = true
  · rw [if_pos hsoon] at henv
    obtain ⟨rfl, rfl⟩ := Async.unfolds_fail.1 henv
    exact hfail [] _ (Nat.zero_le _) swapless_nil
  rw [if_neg hsoon] at henv
  rcases unfolds_balance henv hr with ⟨hxs, hlen, ⟨e, rfl⟩ | ⟨calls, k, rfl, hfew, hcalls⟩⟩ |
    ⟨x, ys, zs, rfl, hlen, hys, h0, h1, hrest⟩
  · exact hfail xs e hlen hxs
  · refine .asks hlen hxs (fun v => nofun) (fun calls' k' heq => ?_)
      fun _ _ _ two => absurd two hfew.ne
    cases heq
    exact hcalls
  dsimp only at hrest
  generalize hbalance : (if holdTokenIsBase m.state.config = true then x.1 else x.2) = balance
    at hrest
  have hle : balance ≤ u128Max := by
    rw [← hbalance]
    split_ifs
    · exact h0
    · exact h1
  generalize (if holdTokenIsBase m.state.config = true then TradeDirection.sell
    else TradeDirection.buy) = direction at hrest
  by_cases hshort : balance < m.state.transactionSize / 20
  · -- the strategy is paused, or fails to be
    rw [if_pos hshort] at hrest
    obtain ⟨paused, hpaused⟩ := Async.unfolds_update_attempt_bind hrest hr
    rcases paused with e | _
    all_goals
      obtain ⟨rfl, rfl⟩ := Async.unfolds_fail.1 hpaused
      rw [List.append_nil]
      exact hfail ys _ hlen.le hys
  rw [if_neg hshort] at hrest
  generalize hamount : (if m.state.transactionSize ≤ balance then m.state.transactionSize
    else balance) = amount at hrest
  by_cases hzero : amount = 0
  · rw [if_pos hzero] at hrest
    obtain ⟨rfl, rfl⟩ := Async.unfolds_ret.1 hrest
    rw [List.append_nil]
    exact .asks hlen.le hys (fun v => nofun) (fun calls k => nofun) fun calls k => nofun
  rw [if_neg hzero] at hrest
  obtain ⟨env', hhedge⟩ := Async.unfolds_env_bind hrest hr
  have hamount' : amount < 2 ^ 128 := by
    have : amount ≤ balance := by
      rw [← hamount]
      split_ifs with hfull
      · exact hfull
      · exact le_rfl
    unfold u128Max at hle
    omega
  have hcount : getSplitOrderCount env' ≤ 10 := by
    unfold getSplitOrderCount
    omega
  have hsum := sum_splitAmount env' (Nat.pos_of_ne_zero hzero) hamount'
    (hcount.trans_lt (by decide))
  exact unfolds_hedge hlen hys (by omega) (by omega) hhedge hr

/-- The replies are those to the question for the pool to trade in, and tell of it. -/
def PoolFound (host : Host) (xs : List (Async.Exchange Call Reply)) : Prop :=
  xs.length = 3 ∧ ∃ x ∈ xs.getLast?, ∃ r, x.replies = [r] ∧ FindsPool host r

theorem poolFound_snoc {x : Async.Exchange Call Reply} :
    PoolFound host (xs ++ [x]) ↔ xs.length = 2 ∧ ∃ r, x.replies = [r] ∧ FindsPool host r := by
  simp [PoolFound]

variable {calls : List Call} {k : List Reply → Handler (Option ℕ)}

/-- An execution that is told of its pool submits its first swaps. -/
theorem executionTrades_told (h : Async.Unfolds (executionTrades host) xs (.call calls k))
    {rs : List Reply} (hfound : PoolFound host (xs ++ [⟨calls, rs⟩])) :
    Swapless (xs ++ [⟨calls, rs⟩]) ∧
      ∃ calls' k', k rs = .call calls' k' ∧ ∃ c ∈ calls', c.isSwap = true := by
  obtain ⟨two, r, hrs, hr⟩ := poolFound_snoc.1 hfound
  obtain rfl : rs = [r] := hrs
  have htrading := unfolds_executionTrades h trivial
  generalize hcall : (Async.call calls k : Handler (Option ℕ)) = q at htrading
  cases htrading with
  | asks few swapless volume nocalls goes =>
    refine ⟨swapless_append.2 ⟨swapless,
      List.forall_mem_singleton.2 (nocalls calls k hcall.symm)⟩, ?_⟩
    rcases goes calls k hcall.symm two r with ⟨hlost, -⟩ | ⟨-, hgoes⟩
    · exact absurd hr hlost
    · exact hgoes
  | lost e two' swapless lost => cases hcall
  | trades two' swapless found params pool splitType split amounts pos lt p stops g unfolds =>
    simp [two'] at two

/-- An execution that submits its first swaps has just been told of its pool. -/
theorem poolFound_of_swap (h : Async.Unfolds (executionTrades host) xs (.call calls k))
    (hxs : Swapless xs) {c : Call} (hc : c ∈ calls) (hswap : c.isSwap = true) :
    PoolFound host xs := by
  have htrading := unfolds_executionTrades h trivial
  generalize hcall : (Async.call calls k : Handler (Option ℕ)) = q at htrading
  cases htrading with
  | asks few swapless volume nocalls goes =>
    have hno := nocalls calls k hcall.symm c hc
    rw [hswap] at hno
    cases hno
  | lost e two' swapless lost => cases hcall
  | @trades ws zs calls₀ reply two swapless found params pool splitType split amounts pos lt p
      stops g unfolds =>
    cases zs with
    | nil => exact poolFound_snoc.2 ⟨two, reply, rfl, found⟩
    | cons z zs =>
      -- the first swaps would be among the exchanges
      obtain ⟨sales, resume, hstages, c, hc, hswap⟩ := stages_eq_call host params pool
        splitType split pos lt
      rw [hstages] at unfolds
      rcases Async.unfolds_call.1 unfolds with ⟨hnil, -⟩ | ⟨rs, vs, -, hvs, -⟩
      · cases hnil
      · cases hvs
        have hno := hxs ⟨sales, rs⟩ (by simp) c hc
        rw [hswap] at hno
        cases hno

end SelfHedging

/-! ## No execution begins to trade once halted -/

/-- The strategy is paused or terminated. -/
def Memory.Halted (m : Memory) : Prop :=
  m.state.status = .paused ∨ m.state.status = .terminated

instance (m : Memory) : Decidable m.Halted :=
  inferInstanceAs (Decidable (_ ∨ _))

namespace Segment

/-- The calls that end the segment. -/
def submitted (s : Segment) : List Call :=
  match s.result.2 with
  | .calls calls _ => calls
  | _ => []

/-- The segment of an execution submits the first swap of it. -/
def FirstSwap (s : Segment) : Prop :=
  s.flight.message.isExecution = true ∧ Swapless s.flight.exchanges ∧
    ∃ c ∈ s.submitted, c.isSwap = true

instance (s : Segment) : Decidable s.FirstSwap :=
  inferInstanceAs (Decidable (_ ∧ _ ∧ _))

/-- The segment is that of an execution that is told of the pool to trade in. -/
def ToldPool (host : Host) (s : Segment) : Prop :=
  s.flight.message.isExecution = true ∧ PoolFound host s.flight.exchanges

end Segment

namespace Log

variable {host : Host} {l l' : Log} {e : CanisterEvent} {s : Segment}

/-- An execution that submits its first swap does so while the strategy is neither paused nor
terminated. -/
def TradesUnhalted (host : Host) (l : Log) (e : CanisterEvent) : Prop :=
  ∀ s ∈ l.segment host e, s.FirstSwap → ¬(l.land s).memory.Halted

instance (host : Host) (l : Log) (e : CanisterEvent) : Decidable (TradesUnhalted host l e) :=
  inferInstanceAs (Decidable (∀ s ∈ l.segment host e, s.FirstSwap → ¬(l.land s).memory.Halted))

/-- An execution that is told of its pool is told so while the strategy is neither paused nor
terminated. -/
def FindsPoolUnhalted (host : Host) (l : Log) (e : CanisterEvent) : Prop :=
  ∀ s ∈ l.segment host e, s.ToldPool host → ¬l.memory.Halted

theorem Enters.toldPool (he : l.Enters host e s) (hl : l.Serial host) (hs : s.FirstSwap) :
    s.ToldPool host := by
  obtain ⟨hm, hswapless, c, hc, hswap⟩ := hs
  refine ⟨hm, ?_⟩
  unfold Segment.submitted at hc
  cases he.executes hl (Message.eq_of_isExecution hm) with
  | refused e first result outcome others =>
    rw [result] at hc
    cases hc
  | goes p unfolds outcome guards alone cooled =>
    generalize s.result = r at guards hc
    cases guards with
    | done volume h => cases hc
    | failed e h => cases hc
    | calls calls k h =>
      have hall := unfolds.trans (Async.unfolds_segment h)
      rw [List.append_nil] at hall
      exact poolFound_of_swap hall hswapless hc hswap

/-- An execution that is told of its pool submits its first swap and changes nothing. -/
theorem Enters.firstSwap (he : l.Enters host e s) (hl : l.Serial host) (hs : s.ToldPool host) :
    s.FirstSwap ∧ s.result.1 = l.memory := by
  obtain ⟨hm, hfound⟩ := hs
  cases he with
  | message env message hself => cases hfound.1
  | timer time cycles hlive => cases hfound.1
  | replies i time cycles replies x hx hlen =>
    obtain ⟨k, hk, -, hresume⟩ := hl.follows x (List.mem_of_getElem? hx) hm
    have hexchanges := x.flight.exchanges_resumed x.waiting.calls replies
      ⟨time, x.waiting.caller, cycles⟩ l.memory
    rw [hexchanges] at hfound
    obtain ⟨hswapless, calls, k', hcalls, hswap⟩ := executionTrades_told hk hfound
    have hresult : (x.waiting.resume replies).segment ⟨time, x.waiting.caller, cycles⟩ l.memory =
        (l.memory, .calls calls fun rs => guarded ((k' rs).bind record)) := by
      rw [hresume]
      dsimp only
      rw [hcalls]
      rfl
    refine ⟨⟨hm, hexchanges ▸ hswapless, ?_⟩, congrArg Prod.fst hresult⟩
    unfold Segment.submitted Segment.result
    simp only [Flight.env_resumed, Flight.memory_resumed, hresult]
    exact hswap

/-- No execution of a run submits its first swap while the strategy is paused or terminated, if and
only if none is told of its pool then. -/
theorem tradesUnhalted_iff (host : Host) (es : List CanisterEvent) :
    Runs.Along (step host) (TradesUnhalted host) (start .installed) es ↔
      Runs.Along (step host) (FindsPoolUnhalted host) (start .installed) es := by
  refine Runs.along_iff_along (I := Serial host) (fun l e l' hl _ hs => ⟨step_serial hl hs, ?_⟩)
    (serial_start Timers.tidy_initial rfl) Runs.along_true
  refine forall₂_congr fun s hs => ?_
  have he := segment_eq_some hs
  rw [memory_land]
  constructor
  · intro h htold
    obtain ⟨hswap, hmemory⟩ := he.firstSwap hl htold
    exact hmemory ▸ h hswap
  · intro h hswap
    have htold := he.toldPool hl hswap
    rw [(he.firstSwap hl htold).2]
    exact h htold

/-- A strategy that is paused between the balance and the pool of an execution still trades. -/
theorem not_tradesUnhalted_paused : ¬Runs.Along (step sampleHost) (TradesUnhalted sampleHost)
    (start .installed) (Sample.initialises :: Sample.inquires ++ [Sample.approves, .timer 10 0,
      Sample.answers 0 11 Sample.poolFound, Sample.answers 0 12 Sample.balanceFound,
      Sample.asks 13 .pause, Sample.answers 0 14 Sample.poolFound]) := by
  decide +kernel

end Log

end HunterFi
