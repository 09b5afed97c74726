import HunterFi.Hedge

/-!
# Buying back what was sold

`execute_hedge_trades` over its first three turns : it asks for the pool, submits the swaps of
stage 1, and goes on with their replies. `BuysBack` says that it then submits swaps that sell
all that the swaps of stage 1 have brought in.

`buysBack_iff` : it does so exactly if no order of stage 1 failed, the total fits in a `u128`
and, where stage 2 is split, leaves one unit for each order but the last. An order that
failed ends the run, although the others have been carried out.
-/

set_option linter.unusedSectionVars false

namespace HunterFi

/-! ## Swaps -/

/-- The call asks a pool for a swap. -/
def Call.isSwap : Call → Bool
  | .swap _ _ => true
  | _ => false

/-- The amount that a swap sells. -/
def Call.sold : Call → ℕ
  | .swap _ args => Nat.ofDigitChars 10 args.amountIn.toList 0
  | _ => 0

/-- The amount that a swap has bought, by its reply. -/
def Call.bought : Call → Reply → ℕ
  | .swap _ _, .amount (.ok n) => n
  | _, _ => 0

/-- The exchange confirmed a swap. -/
def Reply.Confirms (r : Reply) : Prop :=
  ∃ n, r = .amount (.ok n)

/-- What the connector returns as the output of a swap with this reply. -/
def Reply.output? : Reply → Option ℕ
  | .amount (.ok n) => if n ≤ u128Max then some n else none
  | _ => none

/-- What the swaps among the calls sell. -/
def sold (calls : List Call) : ℕ :=
  (calls.map Call.sold).sum

/-- What the swaps among the calls have bought, by their replies. -/
def bought (calls : List Call) (replies : List Reply) : ℕ :=
  (List.zipWith Call.bought calls replies).sum

theorem Reply.eq_of_output? {r : Reply} {n : ℕ} (h : r.output? = some n) :
    r = .amount (.ok n) ∧ n ≤ u128Max := by
  unfold output? at h
  split at h
  · split_ifs at h with hn
    obtain rfl := Option.some.inj h
    exact ⟨rfl, hn⟩
  · cases h

theorem Reply.lt_of_output?_eq_none {n : ℕ} (h : (Reply.amount (.ok n)).output? = none) :
    u128Max < n := by
  simpa [output?] using h

theorem Call.bought_of_isSwap {c : Call} (hc : c.isSwap) (n : ℕ) :
    c.bought (.amount (.ok n)) = n := by
  unfold isSwap at hc
  split at hc
  · rfl
  · cases hc

theorem bought_eq_zero {calls : List Call} (h : ∀ c ∈ calls, c.isSwap = false)
    (replies : List Reply) : bought calls replies = 0 := by
  induction calls generalizing replies with
  | nil => simp [bought]
  | cons c calls ih =>
    obtain ⟨hc, hcalls⟩ := List.forall_mem_cons.1 h
    cases replies with
    | nil => simp [bought]
    | cons r replies =>
      have hzero : c.bought r = 0 := by
        cases c <;> simp_all [Call.isSwap, Call.bought]
      have := ih hcalls replies
      simp_all [bought]

/-- If the connector returns an output for every swap, the exchange confirmed them all and the
outputs are what they bought. -/
theorem bought_of_outputs {calls : List Call} (hcalls : ∀ c ∈ calls, c.isSwap) :
    ∀ {replies : List Reply} {outputs : List ℕ}, replies.length = calls.length →
      replies.mapM Reply.output? = some outputs →
        (∀ r ∈ replies, r.Confirms) ∧ bought calls replies = outputs.sum := by
  induction calls with
  | nil =>
    intro replies outputs hlen h
    obtain rfl := List.eq_nil_of_length_eq_zero hlen
    obtain rfl : outputs = [] := by simpa using h.symm
    exact ⟨by simp, rfl⟩
  | cons c calls ih =>
    intro replies outputs hlen h
    obtain ⟨hc, hcalls⟩ := List.forall_mem_cons.1 hcalls
    obtain ⟨r, replies, rfl⟩ := List.exists_cons_of_length_eq_add_one hlen
    simp only [List.mapM_cons, Option.bind_eq_bind, Option.pure_def, Option.bind_eq_some_iff,
      Option.some.injEq] at h
    obtain ⟨n, hn, ns, hns, rfl⟩ := h
    obtain ⟨rfl, -⟩ := Reply.eq_of_output? hn
    obtain ⟨hconfirms, hsum⟩ := ih hcalls (by simpa using hlen) hns
    refine ⟨List.forall_mem_cons.2 ⟨⟨n, rfl⟩, hconfirms⟩, ?_⟩
    simp only [bought, List.zipWith_cons_cons, List.sum_cons, Call.bought_of_isSwap hc] at hsum ⊢
    rw [hsum]

/-- If it does not, a swap was not confirmed, or they bought more than fits in a `u128`. -/
theorem bought_of_no_outputs {calls : List Call} (hcalls : ∀ c ∈ calls, c.isSwap) :
    ∀ {replies : List Reply}, replies.length = calls.length →
      replies.mapM Reply.output? = none →
        (∃ r ∈ replies, ¬r.Confirms) ∨ 2 ^ 128 ≤ bought calls replies := by
  induction calls with
  | nil =>
    intro replies hlen h
    obtain rfl := List.eq_nil_of_length_eq_zero hlen
    simp at h
  | cons c calls ih =>
    intro replies hlen h
    obtain ⟨hc, hcalls⟩ := List.forall_mem_cons.1 hcalls
    obtain ⟨r, replies, rfl⟩ := List.exists_cons_of_length_eq_add_one hlen
    by_cases hr : r.Confirms
    · obtain ⟨n, rfl⟩ := hr
      have hsum : bought (c :: calls) (.amount (.ok n) :: replies) = n + bought calls replies := by
        simp [bought, Call.bought_of_isSwap hc]
      cases hn : (Reply.amount (.ok n)).output? with
      | none =>
        have := Reply.lt_of_output?_eq_none hn
        exact Or.inr (by simp only [hsum, u128Max] at *; omega)
      | some m =>
        simp only [List.mapM_cons, hn, Option.bind_eq_bind, Option.bind_some, Option.pure_def,
          Option.bind_eq_none_iff, reduceCtorEq, imp_false] at h
        have hnone : replies.mapM Reply.output? = none := Option.eq_none_iff_forall_ne_some.2 h
        rcases ih hcalls (by simpa using hlen) hnone with ⟨s, hs, hn⟩ | hle
        · exact Or.inl ⟨s, List.mem_cons_of_mem _ hs, hn⟩
        · exact Or.inr (by omega)
    · exact Or.inl ⟨r, List.mem_cons_self, hr⟩

namespace SelfHedging

open Icpswap

/-! ## Trades -/

variable {params : TradeParams} {pool : PoolInfo}

theorem isSwap_trade : (executeCallTradeNoSlippage params pool).call.isSwap = true := by
  rfl

theorem sold_trade : (executeCallTradeNoSlippage params pool).call.sold = params.amount := by
  show Nat.ofDigitChars 10 (toString params.amount).toList 0 = params.amount
  rw [Nat.toString_eq_repr, Nat.toList_repr, Nat.ofDigitChars_ten_toDigits]

theorem outcome_amount (n : ℕ) :
    (executeCallTradeNoSlippage params pool).outcome (.amount (.ok n)) =
      (toU128 "final swap result" n).bind fun output => .ok ⟨params.amount, output⟩ :=
  rfl

theorem outcome_trade {r : Reply} {n : ℕ} (h : r.output? = some n) :
    (executeCallTradeNoSlippage params pool).outcome r = .ok ⟨params.amount, n⟩ := by
  obtain ⟨rfl, hn⟩ := Reply.eq_of_output? h
  rw [outcome_amount, toU128, tryFrom, if_pos hn]
  rfl

theorem outcome_trade_of_none (params : TradeParams) (pool : PoolInfo) {r : Reply}
    (h : r.output? = none) :
    ∃ e, (executeCallTradeNoSlippage params pool).outcome r = .error e := by
  cases r with
  | amount result =>
    cases result with
    | error e => exact ⟨_, rfl⟩
    | ok n =>
      have hn : ¬n ≤ u128Max := by simpa using Reply.lt_of_output?_eq_none h
      rw [outcome_amount, toU128, tryFrom, if_neg hn]
      exact ⟨_, rfl⟩
  | _ => exact ⟨_, rfl⟩

theorem map_call_trades (os : List (ℕ × ℕ)) : (trades params pool os).map Async.Job.call =
    os.map fun o => (executeCallTradeNoSlippage { params with amount := o.1 } pool).call :=
  List.map_map

theorem isSwap_of_mem_trades (os : List (ℕ × ℕ)) :
    ∀ c ∈ (trades params pool os).map Async.Job.call, c.isSwap := by
  intro c hc
  rw [map_call_trades] at hc
  obtain ⟨o, -, rfl⟩ := List.mem_map.1 hc
  exact isSwap_trade

theorem sum_filter_ne_zero (xs : List ℕ) : (xs.filter fun x => x ≠ 0).sum = xs.sum := by
  induction xs with
  | nil => rfl
  | cons x xs ih =>
    rw [List.filter_cons]
    split_ifs with hx
    · rw [List.sum_cons, List.sum_cons, ih]
    · simp_all

/-- The amounts of the orders of a split. -/
theorem map_fst_orders (amounts : List ℕ) :
    (orders amounts).map Prod.fst = amounts.filter fun a => a ≠ 0 := by
  conv_rhs => rw [← List.zipIdx_map_fst 0 amounts, List.filter_map]
  rfl

/-- Each trade sells the amount of its order. -/
theorem map_sold_trades (params : TradeParams) (pool : PoolInfo) (os : List (ℕ × ℕ)) :
    ((trades params pool os).map Async.Job.call).map Call.sold = os.map Prod.fst := by
  rw [map_call_trades, List.map_map]
  exact List.map_congr_left fun o _ => sold_trade

/-- The trades of a split sell what its amounts add up to. -/
theorem sold_trades (params : TradeParams) (pool : PoolInfo) (amounts : List ℕ) :
    sold ((trades params pool (orders amounts)).map Async.Job.call) = amounts.sum := by
  rw [sold, map_sold_trades, map_fst_orders, sum_filter_ne_zero]

/-! ## Stage 1 -/

theorem collectOutputs_of_outputs (os : List (ℕ × ℕ)) :
    ∀ {replies : List Reply} {outputs : List ℕ} (volume : ℕ) (before : List ℕ),
      replies.length = os.length → replies.mapM Reply.output? = some outputs →
        ∃ volume', collectOutputs
          (os.zip (List.zipWith Async.Job.outcome (trades params pool os) replies)) volume before =
            .ok (volume', before ++ outputs) := by
  induction os with
  | nil =>
    intro replies outputs volume before hlen h
    obtain rfl := List.eq_nil_of_length_eq_zero hlen
    obtain rfl : outputs = [] := by simpa using h.symm
    exact ⟨volume, by simp [collectOutputs]⟩
  | cons o os ih =>
    intro replies outputs volume before hlen h
    obtain ⟨r, replies, rfl⟩ := List.exists_cons_of_length_eq_add_one hlen
    simp only [List.mapM_cons, Option.bind_eq_bind, Option.pure_def, Option.bind_eq_some_iff,
      Option.some.injEq] at h
    obtain ⟨n, hn, ns, hns, rfl⟩ := h
    obtain ⟨volume', hrest⟩ := ih (addVolume volume o.1) (before ++ [n]) (by simpa using hlen) hns
    refine ⟨volume', ?_⟩
    simp only [trades, List.map_cons, List.zipWith_cons_cons, List.zip_cons_cons, outcome_trade hn,
      collectOutputs]
    simpa [trades] using hrest

theorem collectOutputs_of_no_outputs (os : List (ℕ × ℕ)) :
    ∀ {replies : List Reply} (volume : ℕ) (before : List ℕ),
      replies.length = os.length → replies.mapM Reply.output? = none →
        ∃ e, collectOutputs
          (os.zip (List.zipWith Async.Job.outcome (trades params pool os) replies)) volume before =
            .error e := by
  induction os with
  | nil =>
    intro replies volume before hlen h
    obtain rfl := List.eq_nil_of_length_eq_zero hlen
    simp at h
  | cons o os ih =>
    intro replies volume before hlen h
    obtain ⟨r, replies, rfl⟩ := List.exists_cons_of_length_eq_add_one hlen
    simp only [trades, List.map_cons, List.zipWith_cons_cons, List.zip_cons_cons]
    cases hr : r.output? with
    | none =>
      obtain ⟨e, he⟩ := outcome_trade_of_none { params with amount := o.1 } pool hr
      exact ⟨_, by rw [he, collectOutputs]⟩
    | some n =>
      simp only [List.mapM_cons, hr, Option.bind_eq_bind, Option.bind_some, Option.pure_def,
        Option.bind_eq_none_iff, reduceCtorEq, imp_false] at h
      obtain ⟨e, he⟩ := ih (addVolume volume o.1) (before ++ [n]) (by simpa using hlen)
        (Option.eq_none_iff_forall_ne_some.2 h)
      rw [outcome_trade hr, collectOutputs]
      exact ⟨e, he⟩

/-- What a swap adds to the volume. -/
theorem sold_trades_cons (o : ℕ × ℕ) (os : List (ℕ × ℕ)) :
    sold ((trades params pool (o :: os)).map Async.Job.call) =
      o.1 + sold ((trades params pool os).map Async.Job.call) := by
  rw [sold, map_call_trades, List.map_cons, List.map_cons, List.sum_cons, sold_trade, sold,
    map_call_trades]

/-- The volume of the split orders of stage 1, if none of them failed. -/
theorem collectOutputs_volume (os : List (ℕ × ℕ)) :
    ∀ {replies : List Reply} {volume volume' : ℕ} {before outputs : List ℕ},
      replies.length = os.length → volume ≤ u128Max → collectOutputs
        (os.zip (List.zipWith Async.Job.outcome (trades params pool os) replies)) volume before =
          .ok (volume', outputs) →
        volume' = min (volume + sold ((trades params pool os).map Async.Job.call)) u128Max := by
  induction os with
  | nil =>
    intro replies volume volume' before outputs hlen hvolume h
    obtain ⟨rfl, rfl⟩ : volume = volume' ∧ before = outputs := by
      simpa [collectOutputs] using h
    simp [trades, sold, hvolume]
  | cons o os ih =>
    intro replies volume volume' before outputs hlen hvolume h
    obtain ⟨r, replies, rfl⟩ := List.exists_cons_of_length_eq_add_one hlen
    simp only [trades, List.map_cons, List.zipWith_cons_cons, List.zip_cons_cons] at h
    cases hr : r.output? with
    | none =>
      obtain ⟨e, he⟩ := outcome_trade_of_none { params with amount := o.1 } pool hr
      rw [he, collectOutputs] at h
      cases h
    | some n =>
      rw [outcome_trade hr, collectOutputs] at h
      have hrest := ih (by simpa using hlen) (Nat.min_le_right _ _) h
      simp only [hrest, sold_trades_cons]
      omega

/-- The outputs of a batch of swaps as a stage returns them, or its failure. -/
def Settles (jobs : List (Async.Job Call Reply ExchangeError TradeResult))
    (settle : List Reply → Except String (ℕ × List ℕ)) : Prop :=
  ∀ replies : List Reply, replies.length = jobs.length →
    (∀ outputs, replies.mapM Reply.output? = some outputs →
      ∃ volume, settle replies = .ok (volume, outputs)) ∧
    (replies.mapM Reply.output? = none → ∃ e, settle replies = .error e)

/-- The volume of a batch of swaps as a stage returns it with the outputs. -/
def Sums (jobs : List (Async.Job Call Reply ExchangeError TradeResult))
    (settle : List Reply → Except String (ℕ × List ℕ)) : Prop :=
  ∀ (replies : List Reply) (volume : ℕ) (outputs : List ℕ), replies.length = jobs.length →
    settle replies = .ok (volume, outputs) → volume = min (sold (jobs.map Async.Job.call)) u128Max

/-- Stage 1 trades nothing, or it submits swaps and returns their outputs if there are any. -/
theorem stageOne_cases (params : TradeParams) (pool : PoolInfo) (split : Bool)
    (amounts : List ℕ) :
    stageOne params pool split amounts = .ret (0, []) ∨
      ∃ jobs settle, Settles jobs settle ∧ Sums jobs settle ∧
        (∀ c ∈ jobs.map Async.Job.call, c.isSwap) ∧ stageOne params pool split amounts =
          .call (jobs.map Async.Job.call) fun replies => .ofExcept (settle replies) := by
  simp only [stageOne]
  split_ifs with hsplit hos hpos
  · exact Or.inl rfl
  · refine Or.inr ⟨trades params pool (orders amounts), fun replies => collectOutputs
      ((orders amounts).zip (List.zipWith Async.Job.outcome (trades params pool (orders amounts))
        replies)) 0 [], fun replies hlen => ⟨fun outputs h => ?_, fun h => ?_⟩,
      fun replies volume outputs hlen h => ?_, ?_, rfl⟩
    · exact collectOutputs_of_outputs _ _ _ (by simpa [trades] using hlen) h
    · exact collectOutputs_of_no_outputs _ _ _ (by simpa [trades] using hlen) h
    · have hvolume := collectOutputs_volume _ (by simpa [trades] using hlen) (Nat.zero_le _) h
      rwa [Nat.zero_add] at hvolume
    · exact isSwap_of_mem_trades _
  · refine Or.inr ⟨[executeCallTradeNoSlippage { params with amount := wrappingSum amounts } pool],
      fun replies => (((executeCallTradeNoSlippage
          { params with amount := wrappingSum amounts } pool).outcome (replies.headD default)).map
        fun result => (addVolume 0 result.inputAmount, [result.outputAmount])).mapError
        fun e => "Stage 1 trade failed (Single order): " ++ e.debug,
      fun replies hlen => ?_, fun replies volume outputs hlen h => ?_, by simp [isSwap_trade], ?_⟩
    · obtain ⟨r, rfl⟩ := List.length_eq_one_iff.1 hlen
      simp only [List.headD_cons, List.mapM_cons, List.mapM_nil]
      cases hr : r.output? with
      | none =>
        obtain ⟨e, he⟩ := outcome_trade_of_none { params with amount := wrappingSum amounts }
          pool hr
        simp [he, Except.map, Except.mapError]
      | some n => simp [outcome_trade hr, Except.map, Except.mapError]
    · obtain ⟨r, rfl⟩ := List.length_eq_one_iff.1 hlen
      simp only [List.headD_cons] at h
      cases hr : r.output? with
      | none =>
        obtain ⟨e, he⟩ := outcome_trade_of_none { params with amount := wrappingSum amounts }
          pool hr
        simp [he, Except.map, Except.mapError] at h
      | some n =>
        simp only [outcome_trade hr, Except.map, Except.mapError, Except.ok.injEq,
          Prod.mk.injEq] at h
        rw [← h.1, addVolume, Nat.zero_add]
        simp [sold, sold_trade]
    · rw [Async.bind_eq, Async.run_mapError_bind]
      refine congrArg (Async.call _) (funext fun replies => ?_)
      dsimp only
      cases (executeCallTradeNoSlippage { params with amount := wrappingSum amounts }
        pool).outcome (replies.headD default) <;> rfl
  · exact Or.inl rfl

/-! ## Stage 2 -/

theorem isSwap_getPoolCanister (base quote : TokenInfo) :
    (getPoolCanister base quote).call.isSwap = false := by
  unfold getPoolCanister
  split_ifs <;> rfl

/-- The balance check submits no swap. -/
theorem batches_checkIcpswapBalance (host : Host) (t : Async.Turn Env Memory Reply)
    (q : Except String (ℕ × ℕ) → Handler ℕ) : ∃ calls,
      Async.batches [t] ((checkIcpswapBalance host).attempt.bind q) = [calls] ∧
        ∀ c ∈ calls, c.isSwap = false := by
  refine ⟨[(getPoolCanister (createTradeParams t.state.state.config).baseToken
    (createTradeParams t.state.state.config).quoteToken).call], rfl, ?_⟩
  exact List.forall_mem_singleton.2 (isSwap_getPoolCanister _ _)

/-- Stage 2 submits swaps that sell the total, or one unit in each order but the last of a split,
if that is more. -/
theorem batches_stageTwo (params : TradeParams) (pool : PoolInfo) {total : ℕ} (hpos : 0 < total)
    (hlt : total < 2 ^ 128) (split : Bool)
    (volume : ℕ) (t : Async.Turn Env Memory Reply) (q : ℕ → Handler ℕ) : ∃ buys,
      Async.batches [t] ((stageTwo params pool split total volume).bind q) = [buys] ∧
        (∀ c ∈ buys, c.isSwap) ∧
        sold buys = if split then max total (getSplitOrderCount t.env - 1) else total := by
  unfold stageTwo
  cases split with
  | false =>
    simp only [Bool.false_eq_true, if_false, if_pos hpos]
    rw [Async.bind_eq, Async.bind_assoc, Async.run_mapError_bind]
    refine ⟨_, rfl, by simp [isSwap_trade], ?_⟩
    simp [sold, sold_trade]
  | true =>
    simp only [if_true]
    rw [Async.bind_eq, Async.bind_assoc, Async.batches_env_bind]
    have hcount : getSplitOrderCount t.env < 2 ^ 64 :=
      (getSplitOrderCount_le t.env).trans_lt (by decide)
    have hsold := sold_trades params pool (splitAmount t.env total (getSplitOrderCount t.env))
    rw [sum_splitAmount t.env hpos hlt hcount] at hsold
    split_ifs with hos
    · rw [List.isEmpty_iff.1 hos] at hsold
      simp [trades, sold] at hsold
      omega
    · exact ⟨_, rfl, isSwap_of_mem_trades _, hsold⟩

/-! ## The whole -/

/-- Stage 1 has submitted `sales`, and the replies are those to them. -/
structure StageOneSold (p : Handler ℕ) (t₀ t₁ : Async.Turn Env Memory Reply) (sales : List Call) :
    Prop where
  submitted : ∃ opening, Async.batches [t₀, t₁] p = [opening, sales]
  answered : t₁.replies.length = sales.length

/-- If stage 1 has bought anything, the next turn submits swaps that sell all of it. -/
def BuysBack (p : Handler ℕ) (t₀ t₁ t₂ : Async.Turn Env Memory Reply) (sales : List Call) : Prop :=
  0 < bought sales t₁.replies →
    ∃ opening buys, Async.batches [t₀, t₁, t₂] p = [opening, sales, buys] ∧
      (∀ c ∈ buys, c.isSwap) ∧ sold buys = bought sales t₁.replies

/-- When stage 2 sells all that stage 1 has bought : every order of stage 1 was confirmed, the
total fits in a `u128`, and a split of it has a unit for each order but the last. -/
def Rebuyable (splitType : OrderSplitType) (direction : TradeDirection) (env : Env)
    (replies : List Reply) (total : ℕ) : Prop :=
  (∀ r ∈ replies, r.Confirms) ∧ total < 2 ^ 128 ∧
    (shouldSplitSecond splitType direction.reverse → getSplitOrderCount env ≤ total + 1)

/-- What follows stage 1, with the outputs of all its swaps. -/
theorem batches_afterStageOne (host : Host) (params : TradeParams) (pool : PoolInfo)
    (splitType : OrderSplitType) (volume : ℕ) (outputs : List ℕ)
    (t : Async.Turn Env Memory Reply) (hpos : 0 < outputs.sum) :
    (∃ buys, Async.batches [t] (afterStageOne host params pool splitType volume outputs) = [buys] ∧
      (∀ c ∈ buys, c.isSwap) ∧ sold buys = outputs.sum) ↔
    outputs.sum < 2 ^ 128 ∧ (shouldSplitSecond splitType params.direction.reverse →
      getSplitOrderCount t.env ≤ outputs.sum + 1) := by
  have hcount := getSplitOrderCount_le t.env
  have hmod : outputs.sum % 2 ^ 128 < 2 ^ 128 := Nat.mod_lt _ (by decide)
  unfold afterStageOne
  dsimp only
  rw [wrappingSum_eq]
  split_ifs with hzero
  · -- the total has wrapped to zero
    obtain ⟨calls, hcalls, hno⟩ := batches_checkIcpswapBalance host t fun _ => .ret volume
    rw [Async.bind_eq]
    refine iff_of_false ?_ fun h => by omega
    rintro ⟨buys, hbuys, hswap, hsold⟩
    obtain rfl : calls = buys := by simpa using hcalls.symm.trans hbuys
    cases calls with
    | nil => exact hpos.ne hsold
    | cons c calls => simpa [hno c List.mem_cons_self] using hswap c List.mem_cons_self
  · obtain ⟨buys, hbuys, hswap, hsold⟩ := batches_stageTwo
      { params with direction := params.direction.reverse } pool
      (Nat.pos_of_ne_zero hzero) hmod (shouldSplitSecond splitType params.direction.reverse) volume
      t fun volume => (checkIcpswapBalance host).attempt.bind fun _ => .ret volume
    rw [Async.bind_eq]
    constructor
    · rintro ⟨buys', hbuys', -, hsold'⟩
      obtain rfl : buys = buys' := by simpa using hbuys.symm.trans hbuys'
      rw [hsold'] at hsold
      split_ifs at hsold with hsplit
      · exact ⟨by omega, fun _ => by omega⟩
      · exact ⟨by omega, fun h => absurd h hsplit⟩
    · rintro ⟨hlt, hunits⟩
      refine ⟨buys, hbuys, hswap, ?_⟩
      rw [hsold, Nat.mod_eq_of_lt hlt]
      split_ifs with hsplit
      · have := hunits hsplit
        omega
      · rfl

theorem isSwap_getPoolInfo (host : Host) (base quote : TokenInfo) :
    (getPoolInfo host base quote).call.isSwap = false := by
  rw [getPoolInfo, Async.Job.call_andThen, isSwap_getPoolCanister]

/-- The trades of a cycle that begins to trade in `direction`. -/
def hedgeParams (config : SelfHedgingConfig) (direction : TradeDirection) : TradeParams :=
  { createTradeParams config with direction := direction }

/-- The first turn asks for the pool, and the stages follow if it is found. -/
theorem batches_executeHedgeTrades (host : Host) (direction : TradeDirection) (amounts : List ℕ)
    (splitType : OrderSplitType) (t : Async.Turn Env Memory Reply) : ∃ opening,
      (∀ c ∈ opening, c.isSwap = false) ∧
      ((∀ ts, Async.batches (t :: ts) (executeHedgeTrades host direction amounts splitType) =
        [opening]) ∨
      ∃ pool split, ∀ ts,
        Async.batches (t :: ts) (executeHedgeTrades host direction amounts splitType) =
          opening :: Async.batches ts
            ((stageOne (hedgeParams t.state.state.config direction) pool split amounts).bind
              fun x => afterStageOne host (hedgeParams t.state.state.config direction) pool
                splitType x.1 x.2)) := by
  simp only [executeHedgeTrades, Async.bind_eq, Async.batches_get_bind, Async.run_mapError_bind,
    Async.batches_call]
  refine ⟨[(getPoolInfo host (createTradeParams t.state.state.config).baseToken
    (createTradeParams t.state.state.config).quoteToken).call],
    List.forall_mem_singleton.2 (isSwap_getPoolInfo host _ _), ?_⟩
  cases (getPoolInfo host (createTradeParams t.state.state.config).baseToken
    (createTradeParams t.state.state.config).quoteToken).outcome (t.replies.headD default) with
  | ok pool => exact Or.inr ⟨pool, _, fun ts => rfl⟩
  | error e => exact Or.inl fun ts => by rw [Async.batches_fail]

/-- Stage 2 sells all that stage 1 has bought exactly if no order of stage 1 failed, the total
fits in a `u128`, and a split of it has a unit for each order but the last. -/
theorem buysBack_iff (host : Host) (direction : TradeDirection) (amounts : List ℕ)
    (splitType : OrderSplitType) (t₀ t₁ t₂ : Async.Turn Env Memory Reply) (sales : List Call)
    (h : StageOneSold (executeHedgeTrades host direction amounts splitType) t₀ t₁ sales) :
    BuysBack (executeHedgeTrades host direction amounts splitType) t₀ t₁ t₂ sales ↔
      (0 < bought sales t₁.replies →
        Rebuyable splitType direction t₂.env t₁.replies (bought sales t₁.replies)) := by
  refine imp_congr_right fun hpos => ?_
  obtain ⟨opening, hfirst⟩ := h.submitted
  obtain ⟨opening', -, hpool | ⟨pool, split, hpool⟩⟩ :=
    batches_executeHedgeTrades host direction amounts splitType t₀
  · rw [hpool] at hfirst
    cases hfirst
  generalize hparams : hedgeParams t₀.state.state.config direction = params at hpool
  obtain rfl : params.direction = direction := hparams ▸ rfl
  rw [hpool] at hfirst
  obtain ⟨rfl, hsales⟩ : opening' = opening ∧ _ := List.cons_eq_cons.1 hfirst
  rcases stageOne_cases params pool split amounts with
    hnone | ⟨jobs, settle, hsettle, -, hjobs, hone⟩
  · -- without orders the second turn checks the balance
    rw [hnone] at hsales
    obtain ⟨calls, hcalls, hno⟩ := batches_checkIcpswapBalance host t₁ fun _ => .ret 0
    obtain rfl : calls = sales := by simpa using hcalls.symm.trans hsales
    exact absurd (bought_eq_zero hno _) hpos.ne'
  · have hsecond : ∀ ts, Async.batches (t₁ :: ts) ((stageOne params pool split amounts).bind
        fun x => afterStageOne host params pool splitType x.1 x.2) =
        jobs.map Async.Job.call :: Async.batches ts ((Async.ofExcept (settle t₁.replies)).bind
          fun x => afterStageOne host params pool splitType x.1 x.2) := by
      intro ts
      rw [hone]
      rfl
    rw [hsecond, Async.batches_nil] at hsales
    obtain rfl := List.singleton_inj.1 hsales
    simp only [hpool, hsecond, List.cons.injEq]
    have hlen : t₁.replies.length = jobs.length := by simpa using h.answered
    cases houtputs : t₁.replies.mapM Reply.output? with
    | none =>
      obtain ⟨e, he⟩ := (hsettle _ hlen).2 houtputs
      rw [he]
      refine iff_of_false (by simp [Async.ofExcept]) ?_
      rintro ⟨hconfirms, hlt, -⟩
      rcases bought_of_no_outputs hjobs h.answered houtputs with ⟨r, hr, hno⟩ | hle
      · exact hno (hconfirms r hr)
      · omega
    | some outputs =>
      obtain ⟨volume, hvolume⟩ := (hsettle _ hlen).1 outputs houtputs
      obtain ⟨hconfirms, hsum⟩ := bought_of_outputs hjobs h.answered houtputs
      rw [hvolume, hsum]
      rw [hsum] at hpos
      have hafter := batches_afterStageOne host params pool splitType volume outputs t₂ hpos
      rw [Rebuyable, ← hafter, and_iff_right hconfirms]
      simp [Async.ofExcept]

/-! ## Two runs -/

/-- The memory of a strategy that trades the pair of the sample configuration. -/
def sampleMemory : Memory :=
  Memory.installed.withState fun s => { s with config := Sample.config }

/-- The strategy and the parser of the texts of its two tokens. -/
def sampleHost : Host where
  id := Sample.canister
  principalFromText := fun s =>
    if s = Sample.icp.toText then .ok Sample.icp
    else if s = Sample.ckUsdc.toText then .ok Sample.ckUsdc
    else .error "unknown"

/-- The pool of the sample runs. -/
def samplePool : Principal :=
  ⟨[8], by decide⟩

/-- A turn in which the exchange answers with `replies`. -/
def sampleTurn (replies : List Reply) : Async.Turn Env Memory Reply :=
  ⟨⟨0, sampleHost.id, 0⟩, sampleMemory, replies⟩

/-- The pool is found. -/
def poolTurn : Async.Turn Env Memory Reply :=
  sampleTurn [.pool (.ok ⟨3000, ⟨Sample.icp.toText, "ICRC1"⟩, ⟨Sample.ckUsdc.toText, "ICRC1"⟩,
    samplePool⟩)]

/-- The call that asks for the pool. -/
def sampleOpening : List Call :=
  [(getPoolInfo sampleHost (createTradeParams Sample.config).baseToken
    (createTradeParams Sample.config).quoteToken).call]

/-- A swap of the base token. -/
def sampleSale (amount : String) : Call :=
  .swap samplePool ⟨true, amount, "0"⟩

/-- A single order that brings in 300 is bought back. -/
theorem buysBack_iff_confirmed : BuysBack
    (executeHedgeTrades sampleHost .sell [500, 500] .noSplit) poolTurn
    (sampleTurn [.amount (.ok 300)]) (sampleTurn []) [sampleSale "1000"] := by
  have hsold : StageOneSold (executeHedgeTrades sampleHost .sell [500, 500] .noSplit) poolTurn
      (sampleTurn [.amount (.ok 300)]) [sampleSale "1000"] :=
    ⟨⟨sampleOpening, by decide +kernel⟩, rfl⟩
  refine (buysBack_iff sampleHost .sell [500, 500] .noSplit poolTurn _ (sampleTurn []) _ hsold).2
    fun _ => ⟨?_, ?_, ?_⟩
  · simp [sampleTurn, Reply.Confirms]
  · decide
  · decide

/-- The replies to two orders of which the first brings in 300 and the second is rejected. -/
def rejectedTurn : Async.Turn Env Memory Reply :=
  sampleTurn [.amount (.ok 300), .rejected .sysTransient "busy"]

/-- The two orders have been submitted, and nothing of what the first one brought in is bought
back. -/
theorem not_buysBack_rejected :
    StageOneSold (executeHedgeTrades sampleHost .sell [500, 500] .splitSell) poolTurn rejectedTurn
      [sampleSale "500", sampleSale "500"] ∧
    ¬BuysBack (executeHedgeTrades sampleHost .sell [500, 500] .splitSell) poolTurn rejectedTurn
      (sampleTurn []) [sampleSale "500", sampleSale "500"] := by
  refine ⟨⟨⟨sampleOpening, by decide +kernel⟩, rfl⟩, fun h => ?_⟩
  obtain ⟨opening, buys, hbuys, -⟩ := h (by decide)
  have hstop : (Async.batches [poolTurn, rejectedTurn, sampleTurn []]
      (executeHedgeTrades sampleHost .sell [500, 500] .splitSell)).length = 2 := by
    decide +kernel
  rw [hbuys] at hstop
  cases hstop

end SelfHedging

end HunterFi
