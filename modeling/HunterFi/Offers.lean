import HunterFi.Slippage

/-!
# Quotes, and trades of what is in the pool

`execute_call_trade` swaps what is in the pool already. `Ticket.stepInPool` is the ticket of such
a trade : the quote is followed by the swap, and the output stays in the pool. The pool's fee is
converted after the swap, and before anything is moved in `execute_trade`, so here a trade may fail
though its swap was confirmed (`executeCallTrade_custody`). `get_quote` and `is_pair_supported`
are the first calls of such a ticket, and no more.

A market is `Unmoved` if its answers do not depend on what was said before. There the quote that
`get_quote` shows before a trade or after it is the one that the trade was measured by
(`executeTrade_meetsQuote`).
-/

set_option linter.unusedSectionVars false

namespace HunterFi

namespace Ticket

variable (params : TradeRequest)

/-- What the reply to a call confirms in a trade of what is in the pool. -/
def reachInPool : TradeStage → TradeCall → TradeReply → Option (Option TradeStage)
  | .start => reach params .start
  | .found pool => reach params (.found pool)
  | .quoted pool q => reach params (.deposited pool q)
  | _ => fun _ _ => none

/-- The ticket of a trade of what is in the pool. -/
def stepInPool : Ticket → TradeCall × TradeReply → Option Ticket :=
  stepBy (reachInPool params)

variable {params} {pool : Principal} {q : ℕ}

theorem reachInPool_start : reachInPool params .start = reach params .start :=
  rfl

theorem reachInPool_found : reachInPool params (.found pool) = reach params (.found pool) :=
  rfl

theorem reachInPool_quoted :
    reachInPool params (.quoted pool q) = reach params (.deposited pool q) :=
  rfl

end Ticket

namespace Icpswap

open Ticket

variable {params : TradeRequest}

/-! ## Asking -/

/-- `get_quote` ends with the quote that was confirmed, and otherwise before one was. -/
theorem keeps_getQuote (params : TradeRequest) :
    Async.Keeps (fun _ => True) (Ticket.stepInPool params)
      (fun quote t => ∃ pool, t = ⟨.quoted pool quote.outputAmount, false⟩)
      (fun _ t => t.failed = true ∧ (t.stage = .start ∨ ∃ pool, t.stage = .found pool))
      Ticket.start (getQuote params) := by
  refine Async.Keeps.bind ((keeps_getPoolCanister reachInPool_start
    fun _ => ⟨rfl, Or.inl rfl⟩).mono ?_ fun _ _ h => h)
  rintro data t rfl
  exact (keeps_getQuoteInternal reachInPool_found fun _ => ⟨rfl, Or.inr ⟨_, rfl⟩⟩).mono
    (fun quote t ht => ⟨data.canisterId, ht⟩) fun _ _ h => h

/-- `is_pair_supported` never returns `false`. -/
theorem keeps_isPairSupported (params : TradeRequest) :
    Async.Keeps (fun _ => True) (Ticket.stepInPool params)
      (fun supported t => supported = true ∧ ∃ pool, t = ⟨.found pool, false⟩)
      (fun _ t => t = ⟨.start, true⟩) Ticket.start
      (isPairSupported params.baseToken params.quoteToken) := by
  have hpool := keeps_getPoolCanister (@reachInPool_start params)
    (R := fun _ t => t = ⟨.start, true⟩) fun _ => rfl
  refine Async.Keeps.bind (Async.Keeps.mono ?_ (fun _ _ h => h) hpool)
  rintro data t rfl
  exact ⟨rfl, data.canisterId, rfl⟩

/-! ## Trades of what is in the pool -/

/-- An error of the conversions that follow the swap : of its output, or of the pool's fee. -/
def Unconverted (n : ℕ) (e : TradeError) : Prop :=
  (∃ e', toU128 "final swap result" n = .error e' ∧ e = .connector e') ∨
    ∃ fee e', toU64 "pool fee" fee = .error e' ∧ e = .connector e'

theorem keeps_executeCallTrade (params : TradeRequest) :
    Async.Keeps (fun _ => True) (Ticket.stepInPool params)
      (fun receipt t => (∃ pool, t = ⟨.swapped pool receipt.outputAmount, false⟩) ∧
        receipt.inputAmount = params.amount)
      (fun e t => ∀ pool n, t.stage = .swapped pool n → Unconverted n e) Ticket.start
      (executeCallTrade params) := by
  refine Async.Keeps.bind ((keeps_getPoolCanister reachInPool_start
    fun _ _ _ h => nomatch h).mono ?_ fun _ _ h => h)
  rintro data t rfl
  refine Async.Keeps.bind ((keeps_getQuoteInternal reachInPool_found
    fun _ _ _ h => nomatch h).mono ?_ fun _ _ h => h)
  rintro quote t rfl
  refine Async.Keeps.bind ((keeps_callSwap reachInPool_quoted fun _ _ _ h => nomatch h).mono ?_
    fun _ _ h => h)
  rintro n t rfl
  refine Async.Keeps.bind (keeps_connector_ofExcept (fun output hout => ?_) fun e he => ?_)
  · obtain ⟨-, rfl⟩ := toU128_eq hout
    refine Async.Keeps.bind (keeps_connector_ofExcept (fun poolFee _ => ?_) fun e he => ?_)
    · exact Async.Keeps.bind (Async.keeps_env fun env => ⟨⟨data.canisterId, rfl⟩, rfl⟩)
    · exact fun _ _ _ => Or.inr ⟨data.fee, e, he, rfl⟩
  · rintro _ _ ⟨⟩
    exact Or.inl ⟨e, he, rfl⟩

variable (peer : Async.Peer Env Unit TradeCall TradeReply) (log : List (TradeCall × TradeReply))

/-- `execute_call_trade` against whatever answers : it swaps once and moves nothing else, it returns
only what the swap has brought, and after a confirmed swap only a conversion can fail. -/
theorem executeCallTrade_custody (params : TradeRequest) :
    ∃ t, Runs.run (Ticket.stepInPool params) Ticket.start
        (Async.talkTo peer log (executeCallTrade params)).1 = some t ∧
      (∀ receipt, (Async.talkTo peer log (executeCallTrade params)).2 = .ok receipt →
        (∃ pool, t = ⟨.swapped pool receipt.outputAmount, false⟩) ∧
          receipt.inputAmount = params.amount) ∧
      ∀ e, (Async.talkTo peer log (executeCallTrade params)).2 = .error e →
        ∀ pool n, t.stage = .swapped pool n → Unconverted n e :=
  (keeps_executeCallTrade params).talkTo peer (fun _ => trivial) log

/-- A pool whose fee does not fit in a `u64`. -/
def exchangeOfLargeFee : Async.Peer Env Unit TradeCall TradeReply :=
  { exchange with
    answer := fun log call => match call with
      | .connector (.getPool _ _) =>
        .connector (.pool (.ok ⟨2 ^ 64, default, default, SelfHedging.samplePool⟩))
      | _ => exchange.answer log call }

/-- The swap has brought 996, and the trade fails. -/
example :
    let out := Async.talkTo exchangeOfLargeFee [] (executeCallTrade halfPercent)
    (out.1.getLast?.map fun x => (x.1, x.2.confirmed?)) =
        some (.connector (.swap SelfHedging.samplePool (swapArgs halfPercent 1000)), some 996) ∧
      out.2.isOk = false := by
  decide +kernel

/-! ## Unmoved markets -/

/-- The answers do not depend on what was said before. -/
def Unmoved (peer : Async.Peer Env Unit TradeCall TradeReply) (answer : TradeCall → TradeReply) :
    Prop :=
  ∀ log call, peer.answer log call = answer call

section Answers

variable (params) (answer : TradeCall → TradeReply)

/-- The market names this pool for the tokens of the trade. -/
def Lists (pool : Principal) : Prop :=
  (answer (.connector (getPoolCanister params.baseToken params.quoteToken).call)).poolId? =
    some pool

/-- Its pool quotes `q` for the trade. -/
def Quotes (pool : Principal) (q : ℕ) : Prop :=
  Lists params answer pool ∧
    (answer (.quote pool (quoteArgs params))).confirmed?.filter (· ≤ u128Max) = some q

/-- Its pool swaps for `n` what the trade puts in. -/
def Swaps (pool : Principal) (q n : ℕ) : Prop :=
  Quotes params answer pool q ∧
    (answer (.connector (.swap pool (swapArgs params q)))).confirmed? = some n

/-- What a stage says of the market. -/
def Knows : TradeStage → Prop
  | .start => True
  | .found pool => Lists params answer pool
  | .quoted pool q | .sent pool q | .approved pool q | .deposited pool q =>
    Quotes params answer pool q
  | .swapped pool n => ∃ q, Swaps params answer pool q n
  | .withdrawn n => ∃ pool q, Swaps params answer pool q n

/-- What it says if the next call has failed. -/
def Refuses : TradeStage → Prop
  | .start => ∀ pool, ¬Lists params answer pool
  | .found pool => ∀ q, ¬Quotes params answer pool q
  | _ => True

/-- What a ticket says of the market. -/
def Informs (t : Ticket) : Prop :=
  Knows params answer t.stage ∧ (t.failed = true → Refuses params answer t.stage)

end Answers

variable {peer log} {answer : TradeCall → TradeReply} {stage : TradeStage} {call : TradeCall}
  {pool pool' : Principal} {q q' n n' : ℕ}

theorem Lists.unique (h : Lists params answer pool) (h' : Lists params answer pool') :
    pool = pool' :=
  Option.some.inj (h.symm.trans h')

theorem Quotes.unique (h : Quotes params answer pool q) (h' : Quotes params answer pool' q') :
    pool = pool' ∧ q = q' := by
  obtain rfl := h.1.unique h'.1
  exact ⟨rfl, Option.some.inj (h.2.symm.trans h'.2)⟩

theorem Swaps.unique (h : Swaps params answer pool q n) (h' : Swaps params answer pool' q' n') :
    q = q' ∧ n = n' := by
  obtain ⟨rfl, rfl⟩ := h.1.unique h'.1
  exact ⟨rfl, Option.some.inj (h.2.symm.trans h'.2)⟩

/-- What the ticket says of the market after a reply that may tell `next` or refuse. -/
theorem informs_confirm {β : Type} {x : Option β} {next : β → TradeStage}
    (h : Knows params answer stage) (hnext : ∀ b, x = some b → Knows params answer (next b))
    (hnone : x = none → Refuses params answer stage) :
    Informs params answer ((⟨stage, false⟩ : Ticket).confirm (x.map next)) := by
  cases x with
  | none => exact ⟨h, fun _ => hnone rfl⟩
  | some b => exact ⟨hnext b rfl, nofun⟩

/-- The same of a step that asks nothing of the market. -/
theorem informs_ite {next : TradeStage} {p : Prop} [Decidable p] (h : Knows params answer stage)
    (hnext : Knows params answer next) (hrefuses : Refuses params answer stage) :
    Informs params answer
      ((⟨stage, false⟩ : Ticket).confirm (if p then some next else none)) := by
  split_ifs
  · exact ⟨hnext, nofun⟩
  · exact ⟨h, fun _ => hrefuses⟩

/-- A reply of the market tells more of it. -/
theorem informs_reach {v : Option TradeStage} (h : Knows params answer stage)
    (hv : reach params stage call (answer call) = some v) :
    Informs params answer ((⟨stage, false⟩ : Ticket).confirm v) := by
  unfold reach at hv
  split at hv
  case h_9 => cases hv
  all_goals
    obtain ⟨hcall, hr⟩ := Option.ite_none_right_eq_some.1 hv
    obtain rfl := Option.some.inj hr
  case h_1 =>
    subst hcall
    refine informs_confirm h (fun pool hpool => hpool) fun hnone pool hpool => ?_
    exact nomatch hnone.symm.trans hpool
  case h_2 pool =>
    subst hcall
    refine informs_confirm h (fun q hq => ⟨h, hq⟩) fun hnone q hq => ?_
    exact nomatch hnone.symm.trans hq.2
  case h_3 | h_4 => exact informs_ite h h trivial
  case h_5 | h_6 => exact informs_confirm h (fun _ _ => h) fun _ => trivial
  case h_7 pool q =>
    subst hcall
    exact informs_confirm h (fun n hn => ⟨q, h, hn⟩) fun _ => trivial
  case h_8 pool n => exact informs_confirm h (fun _ _ => ⟨pool, h⟩) fun _ => trivial

theorem informs_reachInPool {v : Option TradeStage} (h : Knows params answer stage)
    (hv : reachInPool params stage call (answer call) = some v) :
    Informs params answer ((⟨stage, false⟩ : Ticket).confirm v) := by
  cases stage with
  | start | found => exact informs_reach h hv
  | quoted pool q =>
    have hswap : Informs params answer ((⟨.deposited pool q, false⟩ : Ticket).confirm v) :=
      informs_reach h hv
    cases v <;> exact hswap
  | _ => cases hv

/-- A conversation with an unmoved market by rules whose replies tell of it. -/
theorem informs_talkTo {α : Type}
    {rules : TradeStage → TradeCall → TradeReply → Option (Option TradeStage)} {p : Trade α}
    {t : Ticket} (hpeer : Unmoved peer answer)
    (hrules : ∀ stage call v, Knows params answer stage → rules stage call (answer call) = some v →
      Informs params answer ((⟨stage, false⟩ : Ticket).confirm v))
    (hr : Runs.run (Ticket.stepBy rules) Ticket.start (Async.talkTo peer log p).1 = some t) :
    Informs params answer t := by
  have hanswered : ∀ x ∈ (Async.talkTo peer log p).1, x.2 = answer x.1 := fun x hx => by
    obtain ⟨log', hx⟩ := Async.answered_talkTo peer p log x hx
    exact hx.trans (hpeer log' x.1)
  have hstep : ∀ t x t', Informs params answer t → x.2 = answer x.1 →
      Ticket.stepBy rules t x = some t' → Informs params answer t' := by
    intro t x t' h hx ht'
    unfold Ticket.stepBy at ht'
    split_ifs at ht' with hfailed
    obtain ⟨v, hv, rfl⟩ := Option.map_eq_some_iff.1 ht'
    obtain ⟨stage, failed⟩ := t
    obtain rfl : failed = false := Bool.eq_false_iff.2 hfailed
    exact hrules stage x.1 v h.1 (hx ▸ hv)
  have hstart : Informs params answer Ticket.start := ⟨trivial, nofun⟩
  exact (Runs.throughout_of_along hstep hstart (Runs.along_of_forall hanswered)).last hr

/-- A trade that succeeds has swapped by the quote of the market. -/
theorem swaps_of_executeTrade (hpeer : Unmoved peer answer) {receipt : TradeReceipt}
    (h : (session peer log params).result = .ok receipt) :
    ∃ pool q, Swaps params answer pool q receipt.outputAmount := by
  obtain ⟨t, hr, hok, -⟩ := session_sound peer log params
  have hinforms := informs_talkTo hpeer (fun _ _ _ => informs_reach) hr
  have hknows := hinforms.1
  rwa [(hok receipt h).1] at hknows

theorem swaps_of_executeCallTrade (hpeer : Unmoved peer answer) {receipt : TradeReceipt}
    (h : (Async.talkTo peer log (executeCallTrade params)).2 = .ok receipt) :
    ∃ pool q, Swaps params answer pool q receipt.outputAmount := by
  obtain ⟨t, hr, hok, -⟩ := executeCallTrade_custody peer log params
  obtain ⟨⟨pool, rfl⟩, -⟩ := hok receipt h
  exact ⟨pool, (informs_talkTo hpeer (fun _ _ _ => informs_reachInPool) hr).1⟩

/-- A market that quotes for a trade shows the quote. -/
theorem getQuote_of_quotes (hpeer : Unmoved peer answer) (h : Quotes params answer pool q)
    (log : List (TradeCall × TradeReply)) :
    ∃ quote, (Async.talkTo peer log (getQuote params)).2 = .ok quote ∧ quote.outputAmount = q := by
  obtain ⟨t, hr, hok, herror⟩ := (keeps_getQuote params).talkTo peer (fun _ => trivial) log
  have hinforms := informs_talkTo hpeer (fun _ _ _ => informs_reachInPool) hr
  cases hresult : (Async.talkTo peer log (getQuote params)).2 with
  | ok quote =>
    obtain ⟨pool', rfl⟩ := hok quote hresult
    exact ⟨quote, rfl, (Quotes.unique hinforms.1 h).2⟩
  | error e =>
    obtain ⟨hfailed, hstage⟩ := herror e hresult
    have hrefuses := hinforms.2 hfailed
    have hknows := hinforms.1
    rcases hstage with hstage | ⟨pool', hstage⟩ <;> rw [hstage] at hrefuses hknows
    · exact absurd h.1 (hrefuses pool)
    · obtain rfl := hknows.unique h.1
      exact absurd h (hrefuses q)

/-- A pair that the market lists is supported. -/
theorem isPairSupported_of_lists (hpeer : Unmoved peer answer) (h : Lists params answer pool)
    (log : List (TradeCall × TradeReply)) :
    (Async.talkTo peer log (isPairSupported params.baseToken params.quoteToken)).2 = .ok true := by
  obtain ⟨t, hr, hok, herror⟩ :=
    (keeps_isPairSupported params).talkTo peer (fun _ => trivial) log
  cases hresult : (Async.talkTo peer log
      (isPairSupported params.baseToken params.quoteToken)).2 with
  | ok supported => rw [(hok supported hresult).1]
  | error e =>
    obtain rfl := herror e hresult
    have hrefuses := (informs_talkTo hpeer (fun _ _ _ => informs_reachInPool) hr).2 rfl
    exact absurd h (hrefuses pool)

/-- In an unmoved market a trade that succeeds is a trade of a supported pair, it is measured by
the quote that `get_quote` shows at any time, and a trade of what is in the pool brings as much. -/
theorem executeTrade_meetsQuote (hpeer : Unmoved peer answer) (hhonours : Honours peer)
    {receipt : TradeReceipt} (h : (session peer log params).result = .ok receipt)
    (log' : List (TradeCall × TradeReply)) :
    (Async.talkTo peer log' (isPairSupported params.baseToken params.quoteToken)).2 = .ok true ∧
      (∃ quote, (Async.talkTo peer log' (getQuote params)).2 = .ok quote ∧
        (params.slippageTolerance.isNaN = true ∨ ∃ t, params.slippageTolerance.value? = some t ∧
          Tolerates t quote.outputAmount receipt.outputAmount)) ∧
      ∀ receipt', (Async.talkTo peer log' (executeCallTrade params)).2 = .ok receipt' →
        receipt'.outputAmount = receipt.outputAmount := by
  obtain ⟨pool, q, hswaps⟩ := swaps_of_executeTrade hpeer h
  obtain ⟨quote, hquote, rfl⟩ := getQuote_of_quotes hpeer hswaps.1 log'
  refine ⟨isPairSupported_of_lists hpeer hswaps.1.1 log', ⟨quote, hquote, ?_⟩, fun r' hr' => ?_⟩
  · have hleast : minimumOut quote.outputAmount params.slippageTolerance ≤ receipt.outputAmount :=
      hhonours [] pool (swapArgs params quote.outputAmount) _ _ rfl
        ((hpeer [] _).symm ▸ hswaps.2)
    obtain ⟨-, hle⟩ := Option.filter_eq_some_iff.1 hswaps.1.2
    exact (tolerates_of_minimumOut_le (validated_of_executeTrade peer log h)
      (of_decide_eq_true hle) hleast).imp_right fun ⟨t, ht, _, _, htol⟩ => ⟨t, ht, htol⟩
  · obtain ⟨pool', q', hswaps'⟩ := swaps_of_executeCallTrade hpeer hr'
    exact (hswaps'.unique hswaps).2

example : Unmoved exchange (exchange.answer []) ∧
    ((Async.talkTo exchange [] (getQuote halfPercent)).2.toOption.map (·.outputAmount)) =
      some 1000 ∧
    ((Async.talkTo exchange [] (executeCallTrade halfPercent)).2.toOption.map (·.outputAmount)) =
      some 996 :=
  ⟨fun _ _ => rfl, by decide +kernel, by decide +kernel⟩

end Icpswap

end HunterFi
