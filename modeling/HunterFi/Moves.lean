import HunterFi.Trading

/-!
# Deposits and withdrawals of a strategy

The calls by which a strategy moves its tokens at the exchange, `depositFrom` and `withdraw`.
`deposit_to_exchange` submits the one when its approval is given (`deposit_moves_iff`),
`withdraw_from_exchange` the other when it is told of the pool to withdraw from
(`withdraw_moves_iff`), and no other message submits either (`submits_of_not_moves`).
-/

set_option linter.unusedSectionVars false

namespace HunterFi

open Icpswap SelfHedging

/-- The call moves tokens of the strategy into or out of a pool. -/
def Call.isMove : Call → Bool
  | .depositFrom _ _ => true
  | .withdraw _ _ => true
  | _ => false

/-- The message is there to move tokens. -/
def Message.moves : Message → Bool
  | depositToExchange _ _ => true
  | withdrawFromExchange _ _ => true
  | _ => false

/-- The call moves no tokens. -/
def Stays (c : Call) : Prop :=
  c.isMove = false

/-- A call that asks moves nothing. -/
theorem stays_of_asks {c : Call} (h : Asks c) : Stays c := by
  cases c <;> first | rfl | exact h.elim

theorem stays_of_isApproval {c : Call} (h : c.isApproval = true) : Stays c := by
  cases c <;> first | rfl | cases h

theorem stays_of_isSwap {c : Call} (h : c.isSwap = true) : Stays c := by
  cases c <;> first | rfl | cases h

namespace SelfHedging

variable {host : Host} {xs : List (Async.Exchange Call Reply)} {calls : List Call}
  {k : List Reply → Handler Unit}

/-! ## Messages that move nothing -/

theorem submits_check_stays (host : Host) : (checkIcpswapBalance host).Submits Stays :=
  (submits_checkIcpswapBalance host).mono fun _ => stays_of_asks

/-- Nor does an approval. -/
theorem submits_approveToken (token : TokenInfo) (spender : Principal) (amount : ℕ) :
    (approveToken token spender amount :
      Async Env Memory Call Reply ExchangeError Unit).Submits Stays := by
  rcases approveToken_cases token spender amount with ⟨e, he⟩ | ⟨j, hj, hcall, -⟩
  · rw [he]
    exact Async.submits_fail e
  · rw [hj]
    exact Async.submits_run (stays_of_isApproval hcall)

/-- Nor do swaps, which leave the tokens in the pool. -/
theorem submits_stageOne (params : TradeParams) (pool : PoolInfo) (split : Bool)
    (amounts : List ℕ) : (stageOne params pool split amounts).Submits Stays := by
  rcases stageOne_cases params pool split amounts with hnone | ⟨jobs, settle, -, -, hjobs, hone⟩
  · rw [hnone]
    exact Async.submits_ret _
  · rw [hone]
    exact Async.submits_call (fun c hc => stays_of_isSwap (hjobs c hc)) fun _ =>
      Async.submits_ofExcept _

theorem submits_stageTwo (params : TradeParams) (pool : PoolInfo) (split : Bool)
    (total volume : ℕ) : (stageTwo params pool split total volume).Submits Stays := by
  unfold stageTwo
  split_ifs
  · refine .bind Async.submits_env fun env => ?_
    dsimp only
    split_ifs
    · exact Async.submits_ret _
    · exact .bind (Async.submits_call (fun c hc => stays_of_isSwap (isSwap_of_mem_trades _ c hc))
        fun _ => Async.submits_ret _) fun _ => Async.submits_ret _
  · exact .bind (.mapError _ (Async.submits_run (stays_of_isSwap isSwap_trade))) fun _ =>
      Async.submits_ret _
  · exact Async.submits_ret _

theorem submits_executeHedgeTrades (host : Host) (direction : TradeDirection) (amounts : List ℕ)
    (splitType : OrderSplitType) :
    (executeHedgeTrades host direction amounts splitType).Submits Stays := by
  have hcheck := submits_check_stays host
  refine .bind Async.submits_get fun m =>
    .bind (.mapError _ ((submits_getPoolInfo host _ _).mono fun _ => stays_of_asks)) fun pool =>
      .bind (submits_stageOne _ _ _ _) fun x => ?_
  simp only [afterStageOne]
  split_ifs
  · exact .bind hcheck.attempt fun _ => Async.submits_ret _
  · exact .bind (submits_stageTwo _ _ _ _ _) fun _ => .bind hcheck.attempt fun _ =>
      Async.submits_ret _

/-- An execution moves nothing out of the exchange or into it. -/
theorem submits_executionTrades (host : Host) : (executionTrades host).Submits Stays := by
  refine .bind Async.submits_get fun m => .bind Async.submits_env fun env => ?_
  dsimp only
  split_ifs
  · exact Async.submits_fail _
  all_goals
    refine .bind (.mapError _ (submits_check_stays host)) fun x => ?_
    split_ifs
    · refine .bind (.attempt (Async.submits_update _)) fun paused => ?_
      cases paused <;> exact Async.submits_fail _
    all_goals first
      | exact Async.submits_ret _
      | exact .bind Async.submits_env fun env =>
          .bind (.mapError _ (submits_executeHedgeTrades host _ _ _)) fun volume =>
            Async.submits_ret _

/-- Nor does a start. -/
theorem submits_start (host : Host) : (start host).Submits Stays := by
  rw [start_eq]
  refine .bind ((submits_startInquiry host).mono fun _ => stays_of_asks) fun plan => ?_
  exact .bind (.mapError _ (submits_approveToken _ _ _)) fun _ => .bind (Async.submits_modify _)
    fun _ => Async.submits_modify _

theorem submits_executeOnce (host : Host) : (executeOnce host).Submits Stays := by
  intro xs calls k h
  obtain ⟨k', hk, -⟩ := executeOnce_resumes h
  exact submits_executionTrades host xs calls k' hk

/-- Only deposits and withdrawals move tokens. -/
theorem submits_of_not_moves (host : Host) {message : Message} (h : message.moves = false) :
    (message.handler host).Submits Stays := by
  cases message with
  | start => exact submits_start host
  | executeOnce => exact submits_executeOnce host
  | depositToExchange tokenType amount => cases h
  | withdrawFromExchange tokenType amount => cases h
  | refreshBalance =>
    exact .bind (.mapError _ (submits_check_stays host)) fun _ => Async.submits_ret _
  | _ => exact Async.submits_update _

/-! ## Deposits -/

/-- `deposit_to_exchange` up to the approval : the token and the pool. -/
def depositInquiry (host : Host) (tokenType : String) : Handler (TokenInfo × Principal) := do
  .check (verifyOwner host)
  let m ← .get
  let params := createTradeParams m.state.config
  let token ← .ofExcept (tokenOf params tokenType)
  if token.standard = .icrc1 then
    .fail ("Failed to deposit token: " ++
      (ExchangeError.internalError "Unsupported type: ICRC1").debug)
  else do
    let data ← (getPoolCanister params.baseToken params.quoteToken).run.mapError fun e =>
      "Failed to deposit token: " ++ e.debug
    .ret (token, data.canisterId)

/-- `deposit_to_exchange` after the approval. -/
def depositConclusion (host : Host) (amount : ℕ) (x : TokenInfo × Principal) : Handler Unit := do
  let result ← (callDepositFrom x.2
    ⟨tokenFee x.1.standard, x.1.canisterId.toText, amount⟩).run.mapError fun e =>
      "Failed to deposit token: " ++ e.debug
  let _ ← (Async.ofExcept (toU128 "withdraw result" result)).mapError fun e =>
    "Failed to deposit token: " ++ e.debug
  let _ ← (checkIcpswapBalance host).attempt
  .ret ()

theorem depositToken_of_ne {params : TradeParams} {token : TokenInfo} {amount : ℕ}
    (h : token.standard ≠ .icrc1) :
    (depositToken params token amount : Async Env Memory Call Reply ExchangeError ℕ) =
      (getPoolCanister params.baseToken params.quoteToken).run.bind fun data =>
        (approveToken token data.canisterId (amount * 100 % 2 ^ 128)).bind fun _ =>
          (callDepositFrom data.canisterId
            ⟨tokenFee token.standard, token.canisterId.toText, amount⟩).run.bind fun result =>
              .ofExcept (toU128 "withdraw result" result) := by
  unfold depositToken
  split
  · exact absurd ‹_› h
  · rfl

/-- A deposit inquires, approves and then deposits. -/
theorem depositToExchange_eq (host : Host) (tokenType : String) (amount : ℕ) :
    depositToExchange host tokenType amount = (depositInquiry host tokenType).bind fun x =>
      ((approveToken x.1 x.2 (amount * 100 % 2 ^ 128)).mapError fun e =>
        "Failed to deposit token: " ++ e.debug).bind fun _ => depositConclusion host amount x := by
  simp only [depositToExchange, depositInquiry, Async.bind_eq, Async.bind_assoc]
  refine congrArg _ (funext fun _ => congrArg _ (funext fun m => congrArg _
    (funext fun token => ?_)))
  split_ifs with hstandard
  · unfold depositToken
    rw [hstandard]
    rfl
  · simp only [depositToken_of_ne hstandard, Async.mapError_bind, Async.bind_assoc]
    rfl

/-- The inquiry of a deposit asks. -/
theorem submits_depositInquiry (host : Host) (tokenType : String) :
    (depositInquiry host tokenType).Submits Asks := by
  refine .bind (Async.submits_check _) fun _ => .bind Async.submits_get fun m =>
    .bind (Async.submits_ofExcept _) fun token => ?_
  split_ifs
  · exact Async.submits_fail _
  · exact .bind (.mapError _ (submits_getPoolCanister _ _)) fun data => Async.submits_ret _

/-- The next calls of the handler move no tokens. -/
def StaysNext (p : Handler Unit) : Prop :=
  ∀ calls k, Async.Unfolds p [] (.call calls k) → ∀ c ∈ calls, Stays c

theorem staysNext_of_submits {p : Handler Unit} (h : p.Submits Stays) : StaysNext p :=
  fun calls k hk => h [] calls k hk

/-- After a job whose call is no approval, a handler that only asks moves nothing. -/
theorem unfolds_job_asks {α : Type} {j : Async.Job Call Reply ExchangeError α}
    (hj : j.call.isApproval = false) {g : ExchangeError → String} {q : α → Handler Unit}
    (hq : ∀ a, (q a).Submits Asks)
    (h : Async.Unfolds ((j.run.mapError g).bind q) xs (.call calls k)) {rs : List Reply}
    (hlen : rs.length = calls.length) : approved calls rs = false ∧ StaysNext (k rs) := by
  have hlater : ∀ {y ys calls' k'}, Async.Unfolds ((j.run.mapError g).bind q) (y :: ys)
      (.call calls' k') → ∀ c ∈ calls', Asks c := by
    intro y ys calls' k' h'
    rcases Async.unfolds_run_mapError_bind h' with ⟨hnil, -⟩ |
      ⟨reply, zs, -, ⟨e, -, -, he⟩ | ⟨a, -, ha⟩⟩
    · cases hnil
    · cases he
    · exact hq a _ _ _ ha
  refine ⟨approved_eq_false (fun c hc => ?_) rs, fun calls' k' hnext c hc => ?_⟩
  · cases xs with
    | nil =>
      rcases Async.unfolds_run_mapError_bind h with ⟨-, heq⟩ | ⟨reply, zs, hnil, -⟩
      · rw [Async.run_mapError_bind] at heq
        cases heq
        rw [List.mem_singleton.1 hc]
        exact hj
      · cases hnil
    | cons y ys => exact isApproval_of_asks (hlater h c hc)
  · have hall := (h.snoc hlen).trans hnext
    rw [List.append_nil] at hall
    cases xs with
    | nil => exact stays_of_asks (hlater hall c hc)
    | cons y ys => exact stays_of_asks (hlater hall c hc)

theorem submits_attempt_check (host : Host) :
    ((checkIcpswapBalance host).attempt.bind fun _ => .ret () : Handler Unit).Submits Asks :=
  .bind (.attempt (submits_checkIcpswapBalance host)) fun _ => Async.submits_ret _

/-- With replies, a deposit submits its `depositFrom` if they approve the spender, and moves nothing
otherwise. -/
theorem deposit_resumes {tokenType : String} {amount : ℕ}
    (h : Async.Unfolds (depositToExchange host tokenType amount) xs (.call calls k))
    {rs : List Reply} (hlen : rs.length = calls.length) :
    (approved calls rs = true ∧ ∃ c k', k rs = .call [c] k' ∧ c.isMove = true) ∨
      approved calls rs = false ∧ StaysNext (k rs) := by
  rw [depositToExchange_eq] at h
  rcases Async.unfolds_bind_call h with ⟨k', hk, rfl⟩ | ⟨x, ys, zs, -, -, hk⟩
  · refine Or.inr ⟨approved_eq_false (fun c hc => isApproval_of_asks
      (submits_depositInquiry host tokenType _ _ _ hk c hc)) rs, fun calls' k'' hnext => ?_⟩
    rcases Async.unfolds_bind_call hnext with ⟨k₂, hk₂, -⟩ | ⟨x, ys, zs, heq, -, hk₂⟩
    · exact fun c hc => stays_of_asks
        (submits_depositInquiry host tokenType _ _ _ (hk.snoc hlen |>.trans hk₂) c hc)
    · obtain ⟨rfl, rfl⟩ := List.append_eq_nil_iff.1 heq.symm
      rcases unfolds_approval hk₂ with ⟨-, happrovals, -⟩ | ⟨y, ys', hys, -⟩
      · exact fun c hc => stays_of_isApproval (happrovals c hc)
      · cases hys
  · rcases unfolds_approval hk with ⟨-, -, hgoes⟩ | ⟨y, ys', -, hrest⟩
    · rcases hgoes rs hlen with ⟨hyes, heq⟩ | ⟨hno, e, heq⟩
      · refine Or.inl ⟨hyes, ?_⟩
        rw [heq]
        exact ⟨_, _, rfl, rfl⟩
      · refine Or.inr ⟨hno, ?_⟩
        rw [heq]
        exact staysNext_of_submits (Async.submits_fail e)
    · exact Or.inr (unfolds_job_asks rfl (fun result => .bind (.mapError _
        (Async.submits_ofExcept _)) fun _ => submits_attempt_check host) hrest hlen)

/-! ## Withdrawals -/

/-- `withdraw_from_exchange` up to the call of `withdraw_token`, with the arguments of it. -/
def withdrawInquiry (host : Host) (tokenType : String) (amount : ℕ) :
    Handler (TradeParams × TokenInfo) := do
  .check (verifyOwner host)
  let m ← .get
  let params := createTradeParams m.state.config
  let token ← .ofExcept (tokenOf params tokenType)
  let (baseBalance, quoteBalance) ← (checkIcpswapBalance host).mapError fun e =>
    "Failed to check exchange balance: " ++ e
  let available := if tokenType.toLower = "base" then baseBalance else quoteBalance
  if available < amount then
    .fail ("Insufficient unused balance. Available: " ++ toString available ++ ", Requested: " ++
      toString amount)
  else .ret (params, token)

/-- `withdraw_from_exchange` from the reply to `withdraw` on. -/
def withdrawConclusion (host : Host) (result : ℕ) : Handler Unit := do
  let _ ← (Async.ofExcept (toU128 "withdraw result" result)).mapError fun e =>
    "Failed to withdraw token: " ++ e.debug
  let _ ← (checkIcpswapBalance host).attempt
  .ret ()

/-- `withdraw_from_exchange` from the question for the pool on. -/
def withdrawal (host : Host) (amount : ℕ) (x : TradeParams × TokenInfo) : Handler Unit :=
  ((getPoolCanister x.1.baseToken x.1.quoteToken).run.mapError fun e =>
    "Failed to withdraw token: " ++ e.debug).bind fun data =>
      ((callWithdraw data.canisterId
        ⟨tokenFee x.2.standard, x.2.canisterId.toText, amount⟩).run.mapError fun e =>
          "Failed to withdraw token: " ++ e.debug).bind (withdrawConclusion host)

/-- A withdrawal inquires and then withdraws. -/
theorem withdrawFromExchange_eq (host : Host) (tokenType : String) (amount : ℕ) :
    withdrawFromExchange host tokenType amount =
      (withdrawInquiry host tokenType amount).bind (withdrawal host amount) := by
  simp only [withdrawFromExchange, withdrawInquiry, Async.bind_eq, Async.bind_assoc]
  refine congrArg _ (funext fun _ => congrArg _ (funext fun m => congrArg _ (funext fun token =>
    congrArg _ (funext fun x => ?_))))
  generalize (if tokenType.toLower = "base" then x.1 else x.2) = available
  by_cases hshort : available < amount
  · rw [if_pos hshort, if_pos hshort]
    rfl
  · rw [if_neg hshort, if_neg hshort]
    simp only [withdrawToken, withdrawal, Async.bind_eq, Async.mapError_bind,
      Async.bind_assoc, Async.ret_bind]
    rfl

/-- So does that of a withdrawal. -/
theorem submits_withdrawInquiry (host : Host) (tokenType : String) (amount : ℕ) :
    (withdrawInquiry host tokenType amount).Submits Asks := by
  refine .bind (Async.submits_check _) fun _ => .bind Async.submits_get fun m =>
    .bind (Async.submits_ofExcept _) fun token =>
      .bind (.mapError _ (submits_checkIcpswapBalance host)) fun x => ?_
  dsimp only
  split_ifs
  all_goals first
    | exact Async.submits_fail _
    | exact Async.submits_ret _

theorem withdrawInquiry_failed {α : Type} {e : String} {n : ℕ} :
    (∀ calls k, (.fail e : Handler α) = .call calls k → n < 2) ∧
      ∀ x, (.fail e : Handler α) = .ret x → n = 2 :=
  ⟨fun _ _ h => (nomatch h), fun _ h => (nomatch h)⟩

/-- A withdrawal that has found its balance has had two exchanges, and before that fewer. -/
theorem unfolds_withdrawInquiry {tokenType : String} {amount : ℕ}
    {r : Handler (TradeParams × TokenInfo)}
    (h : Async.Unfolds (withdrawInquiry host tokenType amount) xs r) (hr : r.Stops) :
    (∀ calls k, r = .call calls k → xs.length < 2) ∧ ∀ x, r = .ret x → xs.length = 2 := by
  rcases Async.unfolds_check_bind h hr with ⟨e, -, rfl⟩ | h
  · exact withdrawInquiry_failed
  obtain ⟨m, hm⟩ := Async.unfolds_get_bind h hr
  rcases Async.unfolds_ofExcept_bind hm with ⟨e, -, -, rfl⟩ | ⟨token, -, htoken⟩
  · exact withdrawInquiry_failed
  rcases unfolds_balance htoken hr with ⟨-, -, ⟨e, rfl⟩ | ⟨calls, k, rfl, hfew, -⟩⟩ |
    ⟨x, ys, zs, rfl, hlen, -, -, -, hrest⟩
  · exact withdrawInquiry_failed
  · exact ⟨fun _ _ _ => hfew, nofun⟩
  · dsimp only at hrest
    generalize (if tokenType.toLower = "base" then x.1 else x.2) = available at hrest
    split_ifs at hrest
    · obtain ⟨rfl, rfl⟩ := Async.unfolds_fail.1 hrest
      exact withdrawInquiry_failed
    · obtain ⟨rfl, rfl⟩ := Async.unfolds_ret.1 hrest
      exact ⟨nofun, fun _ _ => by rw [List.append_nil, hlen]⟩

theorem stays_getPoolCanister (base quote : TokenInfo) :
    Stays (getPoolCanister base quote).call := by
  unfold getPoolCanister
  split
  rfl

/-- The replies tell a withdrawal of its pool. -/
def WithdrawalPool (xs : List (Async.Exchange Call Reply)) : Prop :=
  xs.length = 3 ∧ ∃ x ∈ xs.getLast?, ∃ data, x.replies = [.pool (.ok data)]

/-- The pool of a withdrawal is found by its third call. -/
theorem withdrawalPool_snoc {x : Async.Exchange Call Reply} :
    WithdrawalPool (xs ++ [x]) ↔ xs.length = 2 ∧ ∃ data, x.replies = [.pool (.ok data)] := by
  simp [WithdrawalPool]

/-- With replies, a withdrawal submits its `withdraw` if they tell it of its pool, and moves nothing
otherwise. -/
theorem withdraw_resumes {tokenType : String} {amount : ℕ}
    (h : Async.Unfolds (withdrawFromExchange host tokenType amount) xs (.call calls k))
    {rs : List Reply} (hlen : rs.length = calls.length) :
    (WithdrawalPool (xs ++ [⟨calls, rs⟩]) ∧ ∃ c k', k rs = .call [c] k' ∧ c.isMove = true) ∨
      ¬WithdrawalPool (xs ++ [⟨calls, rs⟩]) ∧ StaysNext (k rs) := by
  rw [withdrawalPool_snoc]
  rw [withdrawFromExchange_eq] at h
  rcases Async.unfolds_bind_call h with ⟨k', hk, rfl⟩ | ⟨x, ys, zs, rfl, hys, hk⟩
  · have hfew := (unfolds_withdrawInquiry hk trivial).1 _ _ rfl
    refine Or.inr ⟨fun htold => hfew.ne htold.1, fun calls' k'' hnext => ?_⟩
    rcases Async.unfolds_bind_call hnext with ⟨k₂, hk₂, -⟩ | ⟨x, ys, zs, heq, -, hk₂⟩
    · exact fun c hc => stays_of_asks
        (submits_withdrawInquiry host tokenType amount _ _ _ ((hk.snoc hlen).trans hk₂) c hc)
    · obtain ⟨rfl, rfl⟩ := List.append_eq_nil_iff.1 heq.symm
      rcases Async.unfolds_run_mapError_bind hk₂ with ⟨-, hcall⟩ | ⟨reply, ws, hnil, -⟩
      · rw [Async.run_mapError_bind] at hcall
        cases hcall
        exact List.forall_mem_singleton.2 (stays_getPoolCanister _ _)
      · cases hnil
  · have htwo := (unfolds_withdrawInquiry hys trivial).2 x rfl
    rcases Async.unfolds_run_mapError_bind hk with ⟨rfl, heq⟩ | ⟨reply, ws, rfl, hrest⟩
    · rw [Async.run_mapError_bind] at heq
      cases heq
      obtain ⟨r, rfl⟩ := List.length_eq_one_iff.1 hlen
      simp only [List.append_nil, htwo, true_and, List.headD_cons, List.cons.injEq, and_true]
      have htold : (∃ data, r = .pool (.ok data)) ↔
          ∃ data, (getPoolCanister x.1.baseToken x.1.quoteToken).outcome r = .ok data :=
        exists_congr fun _ => outcome_getPoolCanister.symm
      rw [htold]
      cases houtcome : (getPoolCanister x.1.baseToken x.1.quoteToken).outcome r with
      | ok data =>
        refine Or.inl ⟨⟨data, rfl⟩, ?_⟩
        dsimp only
        rw [Async.run_mapError_bind]
        exact ⟨_, _, rfl, rfl⟩
      | error e =>
        exact Or.inr ⟨fun ⟨_, h⟩ => (nomatch h), staysNext_of_submits (Async.submits_fail _)⟩
    · refine Or.inr ⟨fun htold => ?_, ?_⟩
      · simp [htwo] at htold
      · rcases hrest with ⟨e, -, -, he⟩ | ⟨data, -, hdata⟩
        · cases he
        · exact (unfolds_job_asks rfl (fun result => .bind (.mapError _
            (Async.submits_ofExcept _)) fun _ => submits_attempt_check host) hdata hlen).2

end SelfHedging

end HunterFi
