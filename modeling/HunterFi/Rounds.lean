import HunterFi.Conversations

/-!
# How long a conversation takes

No handler of a strategy loops : a message awaits replies at most as often as `Message.rounds` says.
`rounds_bounded` : so in every run a conversation that gets its replies comes to an end, and
`EXECUTION_IN_PROGRESS` is set only while an execution awaits the replies of one of its rounds.
-/

set_option linter.unusedSectionVars false

namespace HunterFi

open Icpswap SelfHedging

/-- How often a message awaits replies at most. -/
def Message.rounds : Message → ℕ
  | start => 4
  | executeOnce => 7
  | depositToExchange _ _ => 5
  | withdrawFromExchange _ _ => 6
  | refreshBalance => 2
  | _ => 0

namespace SelfHedging

variable (host : Host)

/-! ## Handlers -/

/-- For the pool and for the balance. -/
theorem atMost_checkIcpswapBalance : (checkIcpswapBalance host).AtMost 2 := by
  refine .then Async.atMost_get fun m => Async.AtMost.bind (n := 0) (.mapError _ ?_) fun x => ?_
  · exact Async.AtMost.bind (Async.atMost_run _) fun data =>
      Async.AtMost.bind (n := 0) (Async.atMost_run _) fun balances => .ret 0 _
  · exact .then (Async.atMost_modify _) fun _ => .ret 0 _

/-- The last look at the balance. -/
theorem atMost_recheck {α : Type} (a : α) : ((checkIcpswapBalance host).attempt.bind
    fun _ : Except String (ℕ × ℕ) => (.ret a : Handler α)).AtMost 2 :=
  Async.AtMost.bind (n := 0) (atMost_checkIcpswapBalance host).attempt fun _ => .ret 0 _

theorem atMost_approveToken (token : TokenInfo) (spender : Principal) (amount : ℕ) :
    (approveToken token spender amount :
      Async Env Memory Call Reply ExchangeError Unit).AtMost 1 := by
  unfold approveToken
  split <;> first | exact Async.atMost_run _ | exact .fail 1 _

/-- One order, or all of them at once. -/
theorem atMost_stageOne (params : TradeParams) (pool : PoolInfo) (split : Bool)
    (amounts : List ℕ) : (stageOne params pool split amounts).AtMost 1 := by
  simp only [stageOne]
  split_ifs
  · exact .ret 1 _
  · exact Async.AtMost.bind (n := 0) (Async.atMost_joinAll _) fun _ => Async.atMost_ofExcept 0 _
  · exact Async.AtMost.bind (n := 0) (.mapError _ (Async.atMost_run _)) fun _ => .ret 0 _
  · exact .ret 1 _

theorem atMost_stageTwo (params : TradeParams) (pool : PoolInfo) (split : Bool)
    (total volume : ℕ) : (stageTwo params pool split total volume).AtMost 1 := by
  simp only [stageTwo]
  split_ifs
  · refine .then Async.atMost_env fun env => ?_
    split_ifs
    · exact .ret 1 _
    · exact Async.AtMost.bind (n := 0) (Async.atMost_joinAll _) fun _ => .ret 0 _
  · exact Async.AtMost.bind (n := 0) (.mapError _ (Async.atMost_run _)) fun _ => .ret 0 _
  · exact .ret 1 _

/-- For the pool, for each stage, and for the balance at the end. -/
theorem atMost_executeHedgeTrades (direction : TradeDirection) (amounts : List ℕ)
    (splitType : OrderSplitType) :
    (executeHedgeTrades host direction amounts splitType).AtMost 5 := by
  refine .then Async.atMost_get fun m => Async.AtMost.bind (m := 1) (n := 4)
    (.mapError _ (Async.atMost_run _)) fun pool => Async.AtMost.bind (m := 1) (n := 3)
      (atMost_stageOne _ _ _ _) fun x => ?_
  simp only [afterStageOne]
  split_ifs
  · exact (atMost_recheck host _).mono (by decide)
  · exact Async.AtMost.bind (m := 1) (n := 2) (atMost_stageTwo _ _ _ _ _) fun v =>
      atMost_recheck host v

/-- For the balance, and for the trades. -/
theorem atMost_executionTrades : (executionTrades host).AtMost 7 := by
  refine .then Async.atMost_get fun m => .then Async.atMost_env fun env => ?_
  dsimp only
  split_ifs
  · exact .fail 7 _
  all_goals
    refine Async.AtMost.bind (m := 2) (n := 5) (.mapError _ (atMost_checkIcpswapBalance host))
      fun x => ?_
    split_ifs
    · refine .then (Async.AtMost.attempt (Async.atMost_update _)) fun paused => ?_
      cases paused <;> exact .fail 5 _
    all_goals first
      | exact .ret 5 _
      | exact .then Async.atMost_env fun env => Async.AtMost.bind (m := 5) (n := 0)
          (.mapError _ (atMost_executeHedgeTrades host _ _ _)) fun volume => .ret 0 _

theorem atMost_executeOnce : (executeOnce host).AtMost 7 := by
  have hcycle : (executionCycle host).AtMost 7 := by
    rw [executionCycle_eq]
    refine Async.AtMost.bind (m := 7) (n := 0) (atMost_executionTrades host) fun volume => ?_
    cases volume with
    | none => exact .ret 0 _
    | some v => exact Async.atMost_modify _
  refine .then (Async.atMost_check _) fun _ => .then Async.atMost_get fun m => ?_
  split_ifs
  · exact .fail 7 _
  · exact .then (Async.atMost_modify _) fun _ => Async.AtMost.bind (m := 7) (n := 0) hcycle.attempt
      fun result => .then (Async.atMost_modify _) fun _ => Async.atMost_ofExcept 0 _

/-- For the pool, for the balance, and for the approval. -/
theorem atMost_start : (start host).AtMost 4 := by
  refine .then (Async.atMost_check _) fun _ => .then (Async.atMost_check _) fun _ =>
    .then Async.atMost_get fun m => Async.AtMost.bind (m := 1) (n := 3)
      (.mapError _ (Async.atMost_run _)) fun pool => Async.AtMost.bind (m := 2) (n := 1)
        (.mapError _ (atMost_checkIcpswapBalance host)) fun x => ?_
  dsimp only
  split_ifs
  · exact .fail 1 _
  all_goals
    exact Async.AtMost.bind (m := 1) (n := 0) (.mapError _ (atMost_approveToken _ _ _)) fun _ =>
      .then (Async.atMost_modify _) fun _ => Async.atMost_modify _

/-- For the pool, the approval, the deposit, and the balance. -/
theorem atMost_depositToExchange (tokenType : String) (amount : ℕ) :
    (depositToExchange host tokenType amount).AtMost 5 := by
  refine .then (Async.atMost_check _) fun _ => .then Async.atMost_get fun m =>
    .then (Async.atMost_ofExcept 0 _) fun token => Async.AtMost.bind (m := 3) (n := 2)
      (.mapError _ ?_) fun n => atMost_recheck host ()
  unfold depositToken
  split
  · exact .fail 3 _
  · exact Async.AtMost.bind (m := 1) (n := 2) (Async.atMost_run _) fun data =>
      Async.AtMost.bind (m := 1) (n := 1) (atMost_approveToken _ _ _) fun _ =>
        Async.AtMost.bind (n := 0) (Async.atMost_run _) fun n => Async.atMost_ofExcept 0 _

/-- For the balance, the pool, the withdrawal, and the balance again. -/
theorem atMost_withdrawFromExchange (tokenType : String) (amount : ℕ) :
    (withdrawFromExchange host tokenType amount).AtMost 6 := by
  refine .then (Async.atMost_check _) fun _ => .then Async.atMost_get fun m =>
    .then (Async.atMost_ofExcept 0 _) fun token => Async.AtMost.bind (m := 2) (n := 4)
      (.mapError _ (atMost_checkIcpswapBalance host)) fun x => ?_
  dsimp only
  split_ifs
  all_goals first
    | exact .fail 4 _
    | exact Async.AtMost.bind (m := 2) (n := 2) (.mapError _ (Async.AtMost.bind (m := 1) (n := 1)
        (Async.atMost_run _) fun data => Async.AtMost.bind (n := 0) (Async.atMost_run _) fun n =>
          Async.atMost_ofExcept 0 _)) fun n => atMost_recheck host ()

end SelfHedging

/-- A message awaits replies no more often than it says. -/
theorem atMost_handler (host : Host) (message : Message) :
    (message.handler host).AtMost message.rounds := by
  cases message with
  | start => exact atMost_start host
  | executeOnce => exact atMost_executeOnce host
  | depositToExchange tokenType amount => exact atMost_depositToExchange host tokenType amount
  | withdrawFromExchange tokenType amount => exact atMost_withdrawFromExchange host tokenType amount
  | refreshBalance =>
    exact Async.AtMost.bind (n := 0) (.mapError _ (atMost_checkIcpswapBalance host)) fun _ =>
      .ret 0 _
  | _ => exact Async.atMost_update _

/-! ## Runs -/

/-- A handler that waits has the rounds left that its message says, less those it has been
through. -/
def Pending.HasRounds (x : Pending) : Prop :=
  ∃ n, x.flight.rounds.length + n + 1 = x.flight.message.rounds ∧
    ∀ replies, (x.waiting.resume replies).AtMost n

namespace Log

variable {host : Host} {l l' : Log} {e : CanisterEvent} {s : Segment}

/-- No flight of the log is past its rounds. -/
structure InRounds (l : Log) : Prop where
  rounds : ∀ f ∈ l.flights, f.rounds.length ≤ f.message.rounds
  waiting : ∀ x ∈ l.pending, x.HasRounds

theorem inRounds_start (m : Memory) : (start m).InRounds :=
  ⟨fun _ hf => absurd hf List.not_mem_nil, fun _ hx => absurd hx List.not_mem_nil⟩

/-- The segment that an event runs has the rounds left that its message says. -/
theorem Enters.atMost (he : l.Enters host e s) (hl : l.InRounds) :
    ∃ n, s.flight.rounds.length + n = s.flight.message.rounds ∧ s.handler.AtMost n := by
  cases he with
  | message env message hself => exact ⟨_, Nat.zero_add _, atMost_handler host message⟩
  | timer time cycles hlive => exact ⟨_, Nat.zero_add _, atMost_handler host .executeOnce⟩
  | replies i time cycles replies x hx hlen =>
    obtain ⟨n, hn, hrest⟩ := hl.waiting x (List.mem_of_getElem? hx)
    refine ⟨n, ?_, hrest replies⟩
    simp only [Flight.resumed, List.length_append, List.length_singleton]
    omega

/-- A segment uses up one of the rounds that are left. -/
theorem Enters.inRounds (he : l.Enters host e s) (hl : l.InRounds) : (l.land s).InRounds := by
  obtain ⟨n, hn, hatMost⟩ := he.atMost hl
  refine ⟨fun f hf => ?_, fun x hx => ?_⟩
  · rcases mem_flights_land he hf with rfl | hf
    · omega
    · exact hl.rounds f hf
  · rcases mem_pending_land hx with hx | ⟨calls, k, hcalls, rfl⟩
    · exact hl.waiting x (he.others x hx)
    · obtain ⟨k', rfl, hrest⟩ := hatMost.segment _ hcalls
      exact ⟨k', by omega, hrest⟩

theorem step_inRounds (hl : l.InRounds) (hs : l.step host e = some l') : l'.InRounds := by
  rcases step_cases hs with ⟨-, rfl⟩ | ⟨s, he, rfl⟩
  · exact ⟨fun f hf => hl.rounds f (mem_flights_upgraded hf), fun _ hx => (nomatch hx)⟩
  · exact he.inRounds hl

/-- No conversation has had more rounds than its message says, one that waits has had fewer, and the
flag of the executions is set only while one of them waits. -/
structure Bounded (l : Log) : Prop where
  rounds : ∀ f ∈ l.flights, f.rounds.length ≤ f.message.rounds
  waiting : ∀ x ∈ l.pending, x.flight.rounds.length < x.flight.message.rounds
  flag : l.memory.executionInProgress = true →
    ∃ x ∈ l.pending, x.flight.message = .executeOnce ∧ x.flight.rounds.length < 7

/-- The rounds of a log, and the flag, bound what waits. -/
theorem bounded_of_inRounds (hl : l.InRounds) (hserial : l.Serial host) : l.Bounded := by
  have hwaiting : ∀ x ∈ l.pending, x.flight.rounds.length < x.flight.message.rounds := by
    intro x hx
    obtain ⟨n, hn, -⟩ := hl.waiting x hx
    omega
  refine ⟨hl.rounds, hwaiting, fun hflag => ?_⟩
  have hone := hserial.exclusive
  rw [Exclusive, hflag, executing] at hone
  have hpos : 0 < l.pending.countP Pending.isExecution := by
    rw [hone]
    exact Nat.one_pos
  obtain ⟨x, hx, hexecution⟩ := List.countP_pos_iff.1 hpos
  have hmessage := Message.eq_of_isExecution hexecution
  have hlt := hwaiting x hx
  rw [hmessage] at hlt
  exact ⟨x, hx, hmessage, hlt⟩

/-- In every run a conversation ends after as many answers as its message says at the latest, and
the flag of the executions is set only while one of them awaits one of its seven rounds. -/
theorem rounds_bounded (host : Host) (es : List CanisterEvent) :
    Runs.Throughout (step host) Bounded (start .installed) es := by
  refine (Runs.throughout_of_step (P := fun l => l.InRounds ∧ l.Serial host) ?_ es
    ⟨inRounds_start _, serial_start Timers.tidy_initial rfl⟩).mono fun l h =>
      bounded_of_inRounds h.1 h.2
  exact fun l e l' h hs => ⟨step_inRounds h.1 hs, step_serial h.2 hs⟩

end Log

end HunterFi
