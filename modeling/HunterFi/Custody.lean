import HunterFi.Handlers
import HunterFi.Workflow

/-!
# Where the tokens of a trade are

The abstract trade : its tokens are in the wallet, then in the pool's hands, then swapped, then
back in the wallet. A `Ticket` is where they are as far as the replies have confirmed it, and
`Ticket.step` says which call may be made there and what its reply moves. After a call that
failed no other may be made.

`executeTrade_custody` : every run of `execute_trade`, whatever comes back, is a run of the
ticket, and the trade succeeds only with its tokens back. `Ticket.step_rank` orders the calls
of a ticket, so none is made twice. `batch_sessions` takes a batch apart into its trades.
-/

set_option linter.unusedSectionVars false

namespace HunterFi

/-! ## What replies confirm -/

namespace TradeReply

/-- The pool that the reply names. -/
def poolId? (r : TradeReply) : Option Principal :=
  match r.toReply with
  | .pool (.ok data) => some data.canisterId
  | _ => none

/-- The amount that the reply confirms. -/
def confirmed? (r : TradeReply) : Option ℕ :=
  match r.toReply with
  | .amount (.ok n) => some n
  | _ => none

/-- The reply confirms a transfer. -/
def isTransferred : TradeReply → Bool
  | transferred (.ok _) => true
  | _ => false

end TradeReply

/-- The call that lets `spender` take an amount of the token, by the token's standard. An ICRC-1
token has none. -/
def TokenInfo.approval? (token : TokenInfo) (spender : Principal) (amount : ℕ) : Option Call :=
  match token.standard with
  | .dip20 => some (.approveDip20 token.canisterId spender amount)
  | .ext => some (.approveExt token.canisterId none spender amount)
  | .icrc2 | .icp => some (.icrc2Approve token.canisterId ⟨spender, none⟩ amount)
  | .icrc1 => none

/-! ## Tickets -/

/-- How far a trade has come. In `sent` the input is in a subaccount of the pool, before it in
the wallet, in `approved` too ; `deposited` and `swapped` are in the pool. -/
inductive TradeStage
  | start
  | found (pool : Principal)
  | quoted (pool : Principal) (quote : ℕ)
  | sent (pool : Principal) (quote : ℕ)
  | approved (pool : Principal) (quote : ℕ)
  | deposited (pool : Principal) (quote : ℕ)
  | swapped (pool : Principal) (output : ℕ)
  | withdrawn (output : ℕ)
  deriving DecidableEq

/-- A trade under way : how far it has come, and whether a call has failed. -/
structure Ticket where
  stage : TradeStage
  failed : Bool
  deriving DecidableEq

namespace Ticket

open Icpswap

/-- A trade that has made no call. -/
def start : Ticket :=
  ⟨.start, false⟩

/-- The ticket after a reply that confirms `next`, or that confirms nothing. -/
def confirm (t : Ticket) : Option TradeStage → Ticket
  | some stage => ⟨stage, false⟩
  | none => ⟨t.stage, true⟩

variable (params : TradeRequest)

/-- The token that the trade sells. -/
def input : TokenInfo :=
  (TradeParams.tokens params.toTradeParams).1

/-- The token that the trade buys. -/
def output : TokenInfo :=
  (TradeParams.tokens params.toTradeParams).2

/-- The arguments by which an amount of a token is moved into the pool or out of it. -/
def moveArgs (token : TokenInfo) (amount : ℕ) : IcpSwapMoveArgs :=
  ⟨tradeFee token.standard, token.canisterId.toText, amount⟩

/-- What the reply to a call confirms, if the call may be made at the stage. A quote has to fit
in a `u128`. Only an ICRC-1 token is sent, to the pool's subaccount for its own principal, and
any other is approved for a hundred times the amount. -/
def reach : TradeStage → TradeCall → TradeReply → Option (Option TradeStage)
  | .start, call, r =>
    if call = .connector (getPoolCanister params.baseToken params.quoteToken).call then
      some (r.poolId?.map .found)
    else none
  | .found pool, call, r =>
    if call = .quote pool (quoteArgs params) then
      some ((r.confirmed?.filter (· ≤ u128Max)).map (.quoted pool))
    else none
  | .quoted pool q, .icrc1Transfer token args, r =>
    if (input params).standard = .icrc1 ∧ token = (input params).canisterId ∧
        args.toAccount = ⟨pool, some (principalToSubaccount pool)⟩ ∧
        args.amount = params.amount then
      some (if r.isTransferred then some (.sent pool q) else none)
    else none
  | .quoted pool q, .connector call, r =>
    if (input params).approval? pool (params.amount * 100 % 2 ^ 128) = some call then
      some (if call.approves r.toReply then some (.approved pool q) else none)
    else none
  | .sent pool q, call, r =>
    if call = .deposit pool (moveArgs (input params) params.amount) then
      some (r.confirmed?.map fun _ => .deposited pool q)
    else none
  | .approved pool q, call, r =>
    if call = .connector (.depositFrom pool (moveArgs (input params) params.amount)) then
      some (r.confirmed?.map fun _ => .deposited pool q)
    else none
  | .deposited pool q, call, r =>
    if call = .connector (.swap pool (swapArgs params q)) then
      some (r.confirmed?.map (.swapped pool))
    else none
  | .swapped pool n, call, r =>
    if call = .connector (.withdraw pool (moveArgs (output params) n)) then
      some (r.confirmed?.map fun _ => .withdrawn n)
    else none
  | _, _, _ => none

/-- The ticket after a call and its reply, by rules that say what replies confirm. -/
def stepBy (rules : TradeStage → TradeCall → TradeReply → Option (Option TradeStage))
    (t : Ticket) (x : TradeCall × TradeReply) : Option Ticket :=
  if t.failed then none else (rules t.stage x.1 x.2).map t.confirm

/-- The ticket of a trade after a call and its reply. -/
def step : Ticket → TradeCall × TradeReply → Option Ticket :=
  stepBy (reach params)

/-- The output of the trade is not back in the wallet. -/
def Unreturned (t : Ticket) : Prop :=
  ∀ n ≤ u128Max, t.stage ≠ .withdrawn n

/-! ## The order of calls -/

/-- The number of calls that have confirmed something when the stage is reached. -/
def stageRank : TradeStage → ℕ
  | .start => 0
  | .found _ => 1
  | .quoted _ _ => 2
  | .sent _ _ => 3
  | .approved _ _ => 3
  | .deposited _ _ => 4
  | .swapped _ _ => 5
  | .withdrawn _ => 6

/-- The place of a call in a trade. -/
def callRank : TradeCall → ℕ
  | .connector (.getPool _ _) => 0
  | .quote _ _ => 1
  | .connector (.swap _ _) => 4
  | .connector (.depositFrom _ _) => 3
  | .connector (.withdraw _ _) => 5
  | .connector _ => 2
  | .deposit _ _ => 3
  | _ => 2

/-- The place of the next call, past all places after a failed call. -/
def rank (t : Ticket) : ℕ :=
  if t.failed then 6 else stageRank t.stage

variable {params}

/-- A call that may be made has the place that the stage asks for, and confirms the next one. -/
theorem reach_rank {stage : TradeStage} {call : TradeCall} {r : TradeReply}
    {v : Option TradeStage} (h : reach params stage call r = some v) :
    callRank call = stageRank stage ∧ stageRank stage < 6 ∧
      ∀ next, v = some next → stageRank next = stageRank stage + 1 := by
  unfold reach at h
  split at h
  case h_9 => cases h
  all_goals
    obtain ⟨hcall, hv⟩ := Option.ite_none_right_eq_some.1 h
    replace hv := Option.some.inj hv
    refine ⟨?_, by simp [stageRank], fun next hnext => ?_⟩
    on_goal 2 => replace hv := hv.trans hnext
  case h_3.refine_2 | h_4.refine_2 =>
    obtain ⟨-, hs⟩ := Option.ite_none_right_eq_some.1 hv
    cases hs
    rfl
  case h_3.refine_1 => rfl
  case h_4.refine_1 =>
    unfold TokenInfo.approval? at hcall
    split at hcall <;> cases hcall <;> rfl
  case h_1.refine_1 | h_2.refine_1 | h_5.refine_1 | h_6.refine_1 | h_7.refine_1 |
      h_8.refine_1 => exact hcall ▸ rfl
  all_goals
    obtain ⟨_, -, rfl⟩ := Option.map_eq_some_iff.1 hv
    rfl

/-- Every step of a trade is the call at its place, and moves past it. -/
theorem step_rank (t : Ticket) (x : TradeCall × TradeReply) (t' : Ticket)
    (h : step params t x = some t') : callRank x.1 = t.rank ∧ t.rank < t'.rank := by
  unfold step stepBy at h
  split_ifs at h with hfailed
  obtain ⟨v, hv, rfl⟩ := Option.map_eq_some_iff.1 h
  obtain ⟨hcall, hlt, hnext⟩ := reach_rank hv
  have hrank : t.rank = stageRank t.stage := if_neg hfailed
  rw [hrank]
  refine ⟨hcall, ?_⟩
  cases v with
  | none => exact hlt
  | some next =>
    have hone := hnext next rfl
    show stageRank t.stage < stageRank next
    omega

end Ticket

/-! ## The calls of a trade -/

namespace Icpswap

open Ticket

variable {α : Type} {params : TradeRequest} {stage : TradeStage}
  {rules : TradeStage → TradeCall → TradeReply → Option (Option TradeStage)} {Q : α → Ticket → Prop}
  {R : TradeError → Ticket → Prop} {pool : Principal} {q : ℕ}

/-- A job of the connector as a job of a trade. -/
def lift (j : Async.Job Call Reply ExchangeError α) :
    Async.Job TradeCall TradeReply TradeError α where
  call := .connector j.call
  outcome := fun r => (j.outcome r.toReply).mapError .connector

@[simp] theorem call_lift (j : Async.Job Call Reply ExchangeError α) :
    (lift j).call = .connector j.call :=
  rfl

@[simp] theorem outcome_lift (j : Async.Job Call Reply ExchangeError α) (r : TradeReply) :
    (lift j).outcome r = (j.outcome r.toReply).mapError .connector :=
  rfl

/-- A job of the connector runs as one of a trade. -/
theorem connector_run (j : Async.Job Call Reply ExchangeError α) :
    connector j.run = (lift j).run := by
  refine congrArg (Async.call _) (funext fun rs => ?_)
  have hhead : (rs.map TradeReply.toReply).headD default = (rs.headD default).toReply := by
    cases rs <;> rfl
  show (Async.ofExcept (j.outcome _)).embed _ _ _ = Async.ofExcept ((j.outcome _).mapError _)
  rw [hhead]
  cases j.outcome (rs.headD default).toReply <;> rfl

/-- A job that the rules allow, whose outcome goes with what its reply confirms. -/
theorem keeps_job {j : Async.Job TradeCall TradeReply TradeError α}
    {v : TradeReply → Option TradeStage}
    (hcall : ∀ r, rules stage j.call r = some (v r))
    (hview : ∀ r, (∃ a next, j.outcome r = .ok a ∧ v r = some next ∧ Q a ⟨next, false⟩) ∨
      ∃ e, j.outcome r = .error e ∧ v r = none ∧ R e ⟨stage, true⟩) :
    Async.Keeps (fun _ => True) (Ticket.stepBy rules) Q R ⟨stage, false⟩ (j.run : Trade α) := by
  refine Async.keeps_run fun r => ?_
  have hstep : Ticket.stepBy rules ⟨stage, false⟩ (j.call, r) =
      some (Ticket.confirm ⟨stage, false⟩ (v r)) := by
    simp [Ticket.stepBy, hcall r]
  refine ⟨_, hstep, fun a ha => ?_, fun e he => ?_⟩
  · rcases hview r with ⟨b, next, hok, hnext, hQ⟩ | ⟨e, herr, -⟩
    · rw [hnext]
      exact Except.ok.inj (hok.symm.trans ha) ▸ hQ
    · rw [herr] at ha
      cases ha
  · rcases hview r with ⟨b, next, hok, -⟩ | ⟨e', herr, hnone, hR⟩
    · rw [hok] at he
      cases he
    · rw [hnone]
      exact Except.error.inj (herr.symm.trans he) ▸ hR

/-- A call of the exchange that returns an amount : the amount is the one confirmed. -/
theorem outcome_amount_cases (method : String) (call : Call) (r : TradeReply) :
    (∃ n, (callExchange method Reply.amount? call).outcome r.toReply = .ok n ∧
      r.confirmed? = some n) ∨
    ∃ e, (callExchange method Reply.amount? call).outcome r.toReply = .error e ∧
      r.confirmed? = none := by
  unfold TradeReply.confirmed?
  cases r.toReply with
  | amount result =>
    cases result with
    | ok n => exact Or.inl ⟨n, rfl, rfl⟩
    | error e => exact Or.inr ⟨_, rfl, rfl⟩
  | _ => exact Or.inr ⟨_, rfl, rfl⟩

/-- A call that returns an amount and confirms it. -/
theorem keeps_amount {j : Async.Job TradeCall TradeReply TradeError ℕ} {g : ℕ → TradeStage}
    {method : String} {call : Call} (hj : ∀ r, j.outcome r =
      ((callExchange method Reply.amount? call).outcome r.toReply).mapError .connector)
    (hcall : ∀ r, rules stage j.call r = some (r.confirmed?.map g))
    (hstage : ∀ e, R e ⟨stage, true⟩) :
    Async.Keeps (fun _ => True) (Ticket.stepBy rules) (fun n t => t = ⟨g n, false⟩)
      R ⟨stage, false⟩ (j.run : Trade ℕ) := by
  refine keeps_job hcall fun r => ?_
  rw [hj]
  rcases outcome_amount_cases method call r with ⟨n, hok, hn⟩ | ⟨e, herr, hn⟩
  · exact Or.inl ⟨n, g n, by rw [hok]; rfl, by rw [hn]; rfl, rfl⟩
  · exact Or.inr ⟨_, by rw [herr]; rfl, by rw [hn]; rfl, hstage _⟩

/-- The pool is found if the reply names it. -/
theorem keeps_getPoolCanister (hrules : rules .start = reach params .start)
    (hR : ∀ e, R e ⟨.start, true⟩) : Async.Keeps (fun _ => True) (Ticket.stepBy rules)
    (fun data t => t = ⟨.found data.canisterId, false⟩) R Ticket.start
    (connector (getPoolCanister params.baseToken params.quoteToken).run) := by
  rw [connector_run]
  have hcall : ∀ r, rules .start (.connector (getPoolCanister params.baseToken
      params.quoteToken).call) r = some (r.poolId?.map .found) := by
    intro r
    rw [hrules]
    exact if_pos rfl
  refine keeps_job hcall fun r => ?_
  cases hout : (getPoolCanister params.baseToken params.quoteToken).outcome r.toReply with
  | ok data =>
    refine Or.inl ⟨data, .found data.canisterId, ?_, ?_, rfl⟩
    · rw [outcome_lift, hout]
      rfl
    · rw [TradeReply.poolId?, outcome_getPoolCanister.1 hout]
      rfl
  | error e =>
    refine Or.inr ⟨.connector e, ?_, ?_, hR _⟩
    · rw [outcome_lift, hout]
      rfl
    · -- a reply that names a pool would have been an outcome
      unfold TradeReply.poolId?
      split
      · rename_i data hr
        rw [outcome_getPoolCanister.2 hr] at hout
        cases hout
      · rfl

/-- The quote is the one confirmed, if it fits in a `u128`. -/
theorem keeps_getQuoteInternal (hrules : rules (.found pool) = reach params (.found pool))
    (hR : ∀ e, R e ⟨.found pool, true⟩) : Async.Keeps (fun _ => True) (Ticket.stepBy rules)
    (fun quote t => t = ⟨.quoted pool quote.outputAmount, false⟩) R
    ⟨.found pool, false⟩ (getQuoteInternal pool params) := by
  have hcall : Async.Keeps (fun _ => True) (Ticket.stepBy rules)
      (fun n t => if n ≤ u128Max then t = ⟨.quoted pool n, false⟩ else t = ⟨.found pool, true⟩)
      R ⟨.found pool, false⟩ ((callQuote pool (quoteArgs params)).run : Trade ℕ) := by
    refine Async.keeps_run fun r => ⟨Ticket.confirm ⟨.found pool, false⟩
      ((r.confirmed?.filter (· ≤ u128Max)).map (.quoted pool)), ?_, ?_⟩
    · simp [Ticket.stepBy, hrules, reach, callQuote]
    rcases outcome_amount_cases "quote" (.swap pool (quoteArgs params)) r with
      ⟨n, hok, hn⟩ | ⟨e, herr, hn⟩
    · have hout : (callQuote pool (quoteArgs params)).outcome r = .ok n :=
        congrArg (Except.mapError _) hok
      rw [hout, hn]
      refine ⟨?_, nofun⟩
      rintro _ ⟨⟩
      split_ifs with hle <;> simp [hle, Option.filter, Ticket.confirm]
    · have hout : (callQuote pool (quoteArgs params)).outcome r = .error (.connector e) :=
        congrArg (Except.mapError _) herr
      rw [hout, hn]
      exact ⟨nofun, fun e _ => hR e⟩
  refine Async.Keeps.bind (hcall.mono ?_ fun _ _ h => h)
  intro n t ht
  split_ifs at ht ⊢
  · exact ht
  · subst ht
    exact hR _

/-- A token that is not ICRC-1 is approved by its own standard. -/
theorem keeps_approveToken {token : TokenInfo} (htoken : token = input params) :
    Async.Keeps (fun _ => True) (Ticket.step params) (fun _ t => t = ⟨.approved pool q, false⟩)
      (fun _ t => t.Unreturned) ⟨.quoted pool q, false⟩
      (connector (approveToken token pool (params.amount * 100 % 2 ^ 128))) := by
  subst htoken
  unfold approveToken
  split
  case h_5 => exact fun n _ h => nomatch h
  all_goals
    rename_i hstandard
    rw [connector_run]
    refine keeps_job (v := fun r =>
      if Call.approves _ r.toReply then some (.approved pool q) else none)
      (fun r => if_pos (by simp [TokenInfo.approval?, hstandard, approveCall])) fun r => ?_
    rw [outcome_lift]
    generalize r.toReply = reply
    cases reply with
    | approved result | icrc2Approved result =>
      cases result <;> simp [approveCall, Call.approves, Reply.decode, Reply.approved?,
        Reply.icrc2Approved?, Except.mapError, Unreturned]
    | _ => simp [approveCall, Call.approves, Reply.decode, Reply.approved?, Reply.icrc2Approved?,
        Except.mapError, Unreturned]

/-- An ICRC-1 token is sent to the pool's subaccount. -/
theorem keeps_transferTokenToPoolSubaccount {token : TokenInfo} (htoken : token = input params)
    (hstandard : token.standard = .icrc1) (fee : ℕ) :
    Async.Keeps (fun _ => True) (Ticket.step params) (fun _ t => t = ⟨.sent pool q, false⟩)
      (fun _ t => t.Unreturned) ⟨.quoted pool q, false⟩
      (transferTokenToPoolSubaccount token pool params.amount fee) := by
  subst htoken
  refine Async.Keeps.bind (Async.keeps_env fun env => ?_)
  rw [hstandard]
  refine keeps_job (v := fun r => if r.isTransferred then some (.sent pool q) else none)
    (fun r => if_pos ⟨hstandard, rfl, rfl, rfl⟩) fun r => ?_
  cases r with
  | transferred result =>
    cases result <;> simp [transferCall, TradeReply.decode, TradeReply.transferred?,
      TradeReply.isTransferred, Unreturned]
  | connector reply =>
    cases reply <;> simp [transferCall, TradeReply.decode, TradeReply.transferred?,
      TradeReply.isTransferred, Unreturned]
  | _ => simp [transferCall, TradeReply.decode, TradeReply.transferred?,
      TradeReply.isTransferred, Unreturned]

/-- What was sent is deposited. -/
theorem keeps_callDeposit (params : TradeRequest) (pool : Principal) (q : ℕ) :
    Async.Keeps (fun _ => True) (Ticket.step params)
    (fun _ t => t = ⟨.deposited pool q, false⟩) (fun _ t => t.Unreturned) ⟨.sent pool q, false⟩
    ((callDeposit pool (moveArgs (input params) params.amount)).run : Trade ℕ) :=
  keeps_amount (fun _ => rfl) (fun _ => if_pos rfl) fun _ _ _ h => nomatch h

/-- What was approved is pulled by the pool. -/
theorem keeps_callDepositFrom (params : TradeRequest) (pool : Principal) (q : ℕ) :
    Async.Keeps (fun _ => True) (Ticket.step params)
    (fun _ t => t = ⟨.deposited pool q, false⟩) (fun _ t => t.Unreturned)
    ⟨.approved pool q, false⟩
    (connector (callDepositFrom pool (moveArgs (input params) params.amount)).run) := by
  rw [connector_run]
  exact keeps_amount (outcome_lift _) (fun _ => if_pos rfl) fun _ _ _ h => nomatch h

/-- By either way the input is deposited, or nothing is. -/
theorem keeps_bringIn : Async.Keeps (fun _ => True) (Ticket.step params)
    (fun _ t => t = ⟨.deposited pool q, false⟩) (fun _ t => t.Unreturned) ⟨.quoted pool q, false⟩
    (bringIn params (input params) pool) := by
  unfold bringIn
  cases hstandard : (input params).standard with
  | icrc1 =>
    refine Async.Keeps.bind ((keeps_transferTokenToPoolSubaccount rfl hstandard _).mono ?_
      fun _ _ h => h)
    rintro _ t rfl
    have hdeposit := keeps_callDeposit params pool q
    rw [moveArgs, hstandard] at hdeposit
    exact Async.Keeps.bind (hdeposit.mono (fun _ _ h => h) fun _ _ h => h)
  | _ =>
    refine Async.Keeps.bind ((keeps_approveToken rfl).mono ?_ fun _ _ h => h)
    rintro _ t rfl
    have hdeposit := keeps_callDepositFrom params pool q
    rw [moveArgs, hstandard] at hdeposit
    exact Async.Keeps.bind (hdeposit.mono (fun _ _ h => h) fun _ _ h => h)

/-- The swap asks for at least what the quote leaves. -/
theorem keeps_callSwap (hrules : rules stage = reach params (.deposited pool q))
    (hR : ∀ e, R e ⟨stage, true⟩) : Async.Keeps (fun _ => True) (Ticket.stepBy rules)
    (fun n t => t = ⟨.swapped pool n, false⟩) R ⟨stage, false⟩
    (connector (callSwap pool (swapArgs params q)).run) := by
  rw [connector_run]
  refine keeps_amount (outcome_lift _) (fun r => ?_) hR
  rw [hrules]
  exact if_pos rfl

/-- All that the swap has brought is withdrawn. -/
theorem keeps_callWithdraw (n : ℕ) : Async.Keeps (fun _ => True) (Ticket.step params)
    (fun _ t => t = ⟨.withdrawn n, false⟩) (fun _ t => t.Unreturned) ⟨.swapped pool n, false⟩
    (connector (callWithdraw pool (moveArgs (output params) n)).run) := by
  rw [connector_run]
  exact keeps_amount (outcome_lift _) (fun _ => if_pos rfl) fun _ _ _ h => nomatch h

theorem keeps_connector_ofExcept {x : Except ExchangeError α} {t : Ticket}
    (hQ : ∀ a, x = .ok a → Q a t) (hR : ∀ e, x = .error e → R (.connector e) t) :
    Async.Keeps (fun _ => True) (Ticket.stepBy rules) Q R t (connector (.ofExcept x)) := by
  cases x with
  | ok a => exact hQ a rfl
  | error e => exact hR e rfl

/-! ## Whole trades -/

/-- A whole trade is a run of its ticket. -/
theorem keeps_executeTrade (params : TradeRequest) :
    Async.Keeps (fun _ => True) (Ticket.step params)
      (fun receipt t => t.stage = .withdrawn receipt.outputAmount ∧
        receipt.inputAmount = params.amount) (fun _ t => t.Unreturned) Ticket.start
      (executeTrade params) := by
  refine Async.Keeps.bind (Async.keeps_env fun env => ?_)
  refine Async.Keeps.bind (Async.keeps_ofExcept (fun _ _ => ?_) fun _ _ _ _ h => nomatch h)
  refine Async.Keeps.bind ((keeps_getPoolCanister rfl fun _ _ _ h => nomatch h).mono ?_
    fun _ _ h => h)
  rintro data t rfl
  refine Async.Keeps.bind ((keeps_getQuoteInternal rfl fun _ _ _ h => nomatch h).mono ?_
    fun _ _ h => h)
  rintro quote t rfl
  refine Async.Keeps.bind (keeps_connector_ofExcept (fun poolFee _ => ?_)
    fun _ _ _ _ h => nomatch h)
  refine Async.Keeps.bind (keeps_bringIn.mono ?_ fun _ _ h => h)
  rintro _ t rfl
  refine Async.Keeps.bind ((keeps_callSwap rfl fun _ _ _ h => nomatch h).mono ?_
    fun _ _ h => h)
  rintro n t rfl
  refine Async.Keeps.bind ((keeps_callWithdraw n).mono ?_ fun _ _ h => h)
  rintro _ t rfl
  refine Async.Keeps.bind (keeps_connector_ofExcept (fun output hout => ?_)
    fun e he m hm hn => ?_)
  · obtain ⟨-, rfl⟩ := toU128_eq hout
    exact Async.Keeps.bind (Async.keeps_env fun env' => ⟨rfl, rfl⟩)
  · obtain rfl : n = m := TradeStage.withdrawn.inj hn
    rw [toU128, tryFrom, if_pos hm] at he
    cases he

/-- A trade with what was said for it and how it ended. -/
structure Session where
  request : TradeRequest
  said : List (TradeCall × TradeReply)
  result : Except TradeError TradeReceipt

/-- What was said is a run of the ticket. The output is back if the trade has returned, and is not
if it has failed, unless it does not fit in a `u128`. -/
def Session.Sound (x : Session) : Prop :=
  ∃ t, Runs.run (Ticket.step x.request) Ticket.start x.said = some t ∧
    (∀ receipt, x.result = .ok receipt →
      t.stage = .withdrawn receipt.outputAmount ∧ receipt.inputAmount = x.request.amount) ∧
    ∀ e, x.result = .error e → t.Unreturned

/-- The calls of a sound session are made in their order, none of them twice. -/
theorem Session.Sound.ordered {x : Session} (h : x.Sound) :
    (x.said.map fun y => callRank y.1).Pairwise (· < ·) := by
  obtain ⟨t, ht, -⟩ := h
  exact (Runs.run_pairwise_lt step_rank x.said ht).1

variable (peer : Async.Peer Env Unit TradeCall TradeReply) (log : List (TradeCall × TradeReply))

/-- The conversation of `execute_trade`. -/
def session (params : TradeRequest) : Session where
  request := params
  said := (Async.talkTo peer log (executeTrade params)).1
  result := (Async.talkTo peer log (executeTrade params)).2

theorem session_sound (params : TradeRequest) : (session peer log params).Sound :=
  (keeps_executeTrade params).talkTo peer (fun _ => trivial) log

/-- `execute_trade` against whatever answers : its calls are a run of the ticket in their order,
and it returns only with the output of the swap withdrawn. -/
theorem executeTrade_custody (params : TradeRequest) :
    (session peer log params).Sound ∧
      ((session peer log params).said.map fun y => callRank y.1).Pairwise (· < ·) :=
  ⟨session_sound peer log params, (session_sound peer log params).ordered⟩

/-! ## Batches -/

/-- What a batch shows of a trade. -/
def Session.shown (x : Session) : Except String TradeReceipt :=
  x.result.mapError TradeError.text

/-- The trade has returned. -/
def Session.succeeded (x : Session) : Bool :=
  x.result.isOk

/-- The conversations of `execute_trade` on one request after the other, each after all that was
said before. -/
def sessions (peer : Async.Peer Env Unit TradeCall TradeReply) :
    List (TradeCall × TradeReply) → List TradeRequest → List Session
  | _, [] => []
  | log, params :: rest =>
    session peer log params :: sessions peer (log ++ (session peer log params).said) rest

/-- The error of a batch that ends early. -/
def batchError : TradeError :=
  .transactionFailed "Batch trade failed, one or more trades errored"

/-- The last session is the one that failed. -/
def Broken (made : List Session) : Prop :=
  ∃ done last, made = done ++ [last] ∧ (∀ x ∈ done, x.succeeded) ∧ last.succeeded = false

theorem Broken.cons {x : Session} {made : List Session} (hx : x.succeeded) (h : Broken made) :
    Broken (x :: made) := by
  obtain ⟨done, last, rfl, hdone, hlast⟩ := h
  exact ⟨x :: done, last, rfl, List.forall_mem_cons.2 ⟨hx, hdone⟩, hlast⟩

/-- Each session of a batch is a run of its ticket. -/
theorem sessions_sound (trades : List TradeRequest) : ∀ log,
    ∀ x ∈ sessions peer log trades, x.Sound := by
  induction trades with
  | nil => exact fun _ _ hx => nomatch hx
  | cons params rest ih =>
    exact fun log => List.forall_mem_cons.2 ⟨session_sound peer log params, ih _⟩

/-- One more trade of a batch. -/
theorem talkTo_batchLoop_cons (all : Bool) (params : TradeRequest) (rest : List TradeRequest)
    (results : List (Except String TradeReceipt)) (ok : Bool) :
    let x := session peer log params
    Async.talkTo peer log (batchLoop all (params :: rest) results ok) =
      if all && !x.succeeded then (x.said, .error batchError)
      else
        let y := Async.talkTo peer (log ++ x.said)
          (batchLoop all rest (results ++ [x.shown]) (ok && x.succeeded))
        (x.said ++ y.1, y.2) := by
  intro x
  have hx : Async.talkTo peer log (executeTrade params) = (x.said, x.result) := rfl
  clear_value x
  rw [batchLoop, Async.bind_eq, Async.talkTo_bind, Async.talkTo_attempt, hx]
  unfold Session.shown Session.succeeded
  rcases x with ⟨request, said, e | receipt⟩
  · cases all
    · simp [Except.mapError, Except.isOk, Except.toBool]
    · simp [Async.talkTo, batchError, Except.isOk, Except.toBool]
  · simp [Except.mapError, Except.isOk, Except.toBool]

/-- The loop makes the first sessions of its trades : all of them, or up to one that failed. -/
theorem talkTo_batchLoop (all : Bool) (trades : List TradeRequest) : ∀ (results) (ok : Bool) (log),
    ∃ made skipped, sessions peer log trades = made ++ skipped ∧
      (Async.talkTo peer log (batchLoop all trades results ok)).1 = made.flatMap Session.said ∧
      (skipped = [] ∧ (all = true → ∀ x ∈ made, x.succeeded) ∧
          (Async.talkTo peer log (batchLoop all trades results ok)).2 =
            .ok (results ++ made.map Session.shown, ok && made.all Session.succeeded) ∨
        all = true ∧ Broken made ∧
          (Async.talkTo peer log (batchLoop all trades results ok)).2 = .error batchError) := by
  induction trades with
  | nil =>
    intro results ok log
    refine ⟨[], [], rfl, rfl, Or.inl ⟨rfl, by simp, ?_⟩⟩
    simp [batchLoop, Async.talkTo]
  | cons params rest ih =>
    intro results ok log
    rw [talkTo_batchLoop_cons, sessions]
    generalize session peer log params = x
    by_cases hbreak : (all && !x.succeeded) = true
    · rw [if_pos hbreak]
      obtain ⟨hall, hx⟩ : all = true ∧ x.succeeded = false := by simpa using hbreak
      exact ⟨[x], _, rfl, by simp, Or.inr ⟨hall, ⟨[], x, rfl, by simp, hx⟩, rfl⟩⟩
    rw [if_neg hbreak]
    have hx : all = true → x.succeeded := by simpa using hbreak
    obtain ⟨made, skipped, hsessions, hsaid, hend⟩ :=
      ih (results ++ [x.shown]) (ok && x.succeeded) (log ++ x.said)
    refine ⟨x :: made, skipped, congrArg (x :: ·) hsessions, congrArg (x.said ++ ·) hsaid, ?_⟩
    rcases hend with ⟨hskipped, hmade, hresult⟩ | ⟨hall, hbroken, hresult⟩
    · refine Or.inl ⟨hskipped, fun hall => List.forall_mem_cons.2 ⟨hx hall, hmade hall⟩,
        hresult.trans ?_⟩
      simp [Bool.and_assoc]
    · exact Or.inr ⟨hall, hbroken.cons (hx hall), hresult⟩

/-- `execute_batch_trade` against whatever answers : its conversation is those of `execute_trade`
on its trades, one after the other, and it shows how each has ended. If all have to succeed, it
fails right after the first that has not, and what was withdrawn before stays withdrawn. -/
theorem executeBatchTrade_sessions (params : BatchTradeParams) :
    ∃ made skipped, sessions peer log params.trades = made ++ skipped ∧
      (∀ x ∈ made, x.Sound) ∧
      (Async.talkTo peer log (executeBatchTrade params)).1 = made.flatMap Session.said ∧
      (skipped = [] ∧ (params.requireAllSuccess = true → ∀ x ∈ made, x.succeeded) ∧
          (Async.talkTo peer log (executeBatchTrade params)).2 =
            .ok ⟨made.map Session.shown, made.all Session.succeeded,
              timestampSecs (peer.env (log ++ made.flatMap Session.said))⟩ ∨
        params.requireAllSuccess = true ∧ Broken made ∧
          (Async.talkTo peer log (executeBatchTrade params)).2 = .error batchError) := by
  obtain ⟨made, skipped, hsessions, hsaid, hend⟩ :=
    talkTo_batchLoop peer params.requireAllSuccess params.trades [] true log
  have hsound : ∀ x ∈ made, x.Sound := fun x hx =>
    sessions_sound peer params.trades log x (hsessions ▸ List.mem_append_left _ hx)
  refine ⟨made, skipped, hsessions, hsound, ?_⟩
  rw [executeBatchTrade, Async.bind_eq, Async.talkTo_bind]
  generalize Async.talkTo peer log _ = out at hsaid hend ⊢
  obtain ⟨said, result⟩ := out
  obtain rfl : said = made.flatMap Session.said := hsaid
  rcases hend with ⟨hskipped, hmade, rfl⟩ | ⟨hall, hbroken, rfl⟩
  · exact ⟨List.append_nil _, Or.inl ⟨hskipped, hmade, rfl⟩⟩
  · exact ⟨rfl, Or.inr ⟨hall, hbroken, rfl⟩⟩

end Icpswap

end HunterFi
