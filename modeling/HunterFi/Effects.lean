import HunterFi.Handlers
import HunterFi.History

/-!
# What a segment of a strategy does

Every segment that a strategy canister ever runs has one of the effects of `Effect` : it is
refused, stores balances, initialises the strategy, sets it running, halts it, reconfigures it,
or belongs to an execution. `Enters.effect` reads the effect off the message, its rounds and the
memory. Later results are about the effects and no longer about the handlers.
-/

set_option linter.unusedSectionVars false

namespace HunterFi

open SelfHedging

/-! ## Updates of the configuration -/

namespace SelfHedging

variable {host : Host} {env : Env} {m m' : Memory}

/-- The state after `update_volume_config`. -/
def volumeUpdated (size : ℕ) (splitType : OrderSplitType) (s : SelfHedgingState) :
    SelfHedgingState :=
  { s with
    config := { s.config with
      transactionSize := size
      orderSplitType := splitType }
    transactionSize := size
    orderSplitType := splitType }

/-- The state after `update_config`. -/
def configUpdated (size : ℕ) (splitType : OrderSplitType) (interval : ℕ) (slippage : F64)
    (holdToken : Principal) (s : SelfHedgingState) : SelfHedgingState :=
  { s with
    config := { s.config with
      transactionSize := size
      orderSplitType := splitType
      checkIntervalSecs := interval
      slippageTolerance := slippage
      holdToken := holdToken }
    transactionSize := size
    orderSplitType := splitType }

theorem updateVolumeConfig_eq_ok {size : ℕ} {splitType : OrderSplitType} :
    updateVolumeConfig host size splitType env m = .ok m' ↔
      verifyUpdate host env m = .ok () ∧ size ≠ 0 ∧
        m' = m.withState (volumeUpdated size splitType) := by
  unfold updateVolumeConfig
  cases verifyUpdate host env m with
  | error e => exact iff_of_false nofun fun h => nomatch h.1
  | ok _ =>
    show (if size = 0 then _ else _) = _ ↔ _
    split_ifs with hsize
    · exact iff_of_false nofun fun h => h.2.1 hsize
    · rw [and_iff_right rfl, and_iff_right hsize]
      show Except.ok (m.withState (volumeUpdated size splitType)) = .ok m' ↔ _
      rw [Except.ok.injEq, eq_comm]

theorem updateConfig_eq_ok {size : ℕ} {splitType : OrderSplitType} {interval : ℕ} {slippage : F64}
    {holdToken : Principal} :
    updateConfig host size splitType interval slippage holdToken env m = .ok m' ↔
      verifyUpdate host env m = .ok () ∧ (holdToken ≠ .anonymous ∧ size ≠ 0 ∧ interval ≠ 0 ∧
        ¬(slippage.le .zero ∨ F64.lt .hundred slippage)) ∧
        m' = m.withState (configUpdated size splitType interval slippage holdToken) := by
  unfold updateConfig
  cases verifyUpdate host env m with
  | error e => exact iff_of_false nofun fun h => nomatch h.1
  | ok _ =>
    show (if holdToken = .anonymous then _ else _) = _ ↔ _
    split_ifs with hhold hsize hinterval hslippage
    · exact iff_of_false nofun fun h => h.2.1.1 hhold
    · exact iff_of_false nofun fun h => h.2.1.2.1 hsize
    · exact iff_of_false nofun fun h => h.2.1.2.2.1 hinterval
    · exact iff_of_false nofun fun h => h.2.1.2.2.2 hslippage
    · rw [and_iff_right rfl, and_iff_right ⟨hhold, hsize, hinterval, hslippage⟩]
      show Except.ok (m.withState (configUpdated size splitType interval slippage holdToken)) =
        .ok m' ↔ _
      rw [Except.ok.injEq, eq_comm]

end SelfHedging

/-! ## Effects -/

namespace Flight

/-- The last replies approve a spender. -/
def approved (f : Flight) : Bool :=
  f.rounds.getLast?.any fun r => HunterFi.approved r.calls r.replies

@[simp] theorem approved_resumed (f : Flight) (calls : List Call) (replies : List Reply)
    (env : Env) (m : Memory) :
    (f.resumed calls replies env m).approved = HunterFi.approved calls replies := by
  simp [approved, resumed]

end Flight

/-- The message awaits calls and leaves all but the balances alone. -/
def Message.Rebalances : Message → Prop
  | .depositToExchange _ _ => True
  | .withdrawFromExchange _ _ => True
  | .refreshBalance => True
  | _ => False

theorem Message.Rebalances.ne {message : Message} (h : message.Rebalances) :
    message ≠ .start ∧ message ≠ .pause ∧ message ≠ .stop ∧ message ≠ .executeOnce := by
  cases message <;> first | exact h.elim | exact ⟨nofun, nofun, nofun, nofun⟩

/-- What a segment of the flight does in the memory `m`, by the memory after it and how it
ends. -/
inductive Effect (host : Host) (f : Flight) (m : Memory) :
    Memory × Async.Await Env Memory Call Reply String Unit → Prop
  | refused (e : String) (message : f.message ≠ .start) : Effect host f m (m, .failed e)
  | rebalances (r : Memory × Async.Await Env Memory Call Reply String Unit)
    (message : f.message.Rebalances) (memory : Rebalanced m r.1) : Effect host f m r
  | inquires (r : Memory × Async.Await Env Memory Call Reply String Unit)
    (message : f.message = .start) (refused : f.approved = false) (inquires : Inquires m r) :
    Effect host f m r
  | runs (secs : ℕ) (message : f.message = .start) (approved : f.approved = true) :
    Effect host f m (running secs m, .done ())
  | pauses (message : f.message = .pause) (owner : verifyOwner host f.env m = .ok ())
    (ran : m.state.status = .running) : Effect host f m (halt .paused m, .done ())
  | stops (message : f.message = .stop) (owner : verifyOwner host f.env m = .ok ()) :
    Effect host f m (halt .terminated m, .done ())
  | initialises (owner : Principal) (config : SelfHedgingConfig)
    (message : f.message = .initSelfHedging owner config)
    (blank : m.state.owner = .anonymous) (valid : config.Initialises) :
    Effect host f m ({ m with state := newState owner config }, .done ())
  | updatesVolume (size : ℕ) (splitType : OrderSplitType)
    (message : f.message = .updateVolumeConfig size splitType)
    (verified : verifyUpdate host f.env m = .ok ()) (pos : size ≠ 0) :
    Effect host f m (m.withState (volumeUpdated size splitType), .done ())
  | updatesConfig (size : ℕ) (splitType : OrderSplitType) (interval : ℕ) (slippage : F64)
    (holdToken : Principal)
    (message : f.message = .updateConfig size splitType interval slippage holdToken)
    (verified : verifyUpdate host f.env m = .ok ())
    (valid : holdToken ≠ .anonymous ∧ size ≠ 0 ∧ interval ≠ 0 ∧
      ¬(slippage.le .zero ∨ F64.lt .hundred slippage)) :
    Effect host f m (m.withState (configUpdated size splitType interval slippage holdToken),
      .done ())
  | executes (r : Memory × Async.Await Env Memory Call Reply String Unit) (m' : Memory)
    (volume : Option ℕ) (flag : Bool) (message : f.message = .executeOnce)
    (trades : Trades host f.env m m') (memory : r.1 = withFlag flag (recordIn volume f.env m'))
    (commits : ∀ v, volume = some v → Rebalanced m m') : Effect host f m r

/-- A message that awaits nothing. -/
theorem effect_update {host : Host} {f : Flight} {m : Memory} (hf : f.message ≠ .start)
    (g : Env → Memory → Except String Memory)
    (h : ∀ m', g f.env m = .ok m' → Effect host f m (m', .done ())) :
    Effect host f m ((Async.update g : Handler Unit).segment f.env m) := by
  unfold Async.update
  simp only [Async.segment]
  cases hg : g f.env m with
  | ok m' => exact h m' hg
  | error e => exact .refused e hf

/-- A message that awaits calls and leaves all but the balances alone does so all along. -/
theorem Message.Rebalances.changes {message : Message} (h : message.Rebalances) (host : Host) :
    (message.handler host).Changes fun _ => Rebalanced := by
  have hrefl : ∀ (env : Env) (m : Memory), Rebalanced m m := fun _ => .refl
  have hbalance : ∀ (env : Env) (m : Memory) (b q : ℕ),
      Rebalanced m (updateUnusedBalance b q env m) :=
    fun env m b q => .updateUnusedBalance b q env m
  cases message with
  | depositToExchange tokenType amount =>
    exact changes_depositToExchange hrefl hbalance host tokenType amount
  | withdrawFromExchange tokenType amount =>
    exact changes_withdrawFromExchange hrefl hbalance host tokenType amount
  | refreshBalance => exact changes_refreshBalance hrefl hbalance host
  | _ => exact h.elim

theorem Message.Rebalances.effect {host : Host} {f : Flight} {m : Memory}
    (h : f.message.Rebalances) {p : Handler Unit} (hp : p.Changes fun _ => Rebalanced) :
    Effect host f m (p.segment f.env m) :=
  .rebalances _ h (hp.segment .refl (fun _ _ _ => .trans) m).1

theorem Rebalanced.withFlag {m m' : Memory} (h : Rebalanced m m') (flag : Bool) :
    Rebalanced (withFlag flag m) (withFlag flag m') := by
  obtain ⟨b, q, t, rfl⟩ := h
  exact ⟨b, q, t, rfl⟩

theorem SelfHedging.Trades.withFlag {host : Host} {env : Env} {m m' : Memory}
    (h : Trades host env m m') (flag : Bool) :
    Trades host env (withFlag flag m) (withFlag flag m') := by
  rcases h with h | ⟨howner, hrunning, b, q, t, rfl⟩
  · exact Or.inl (h.withFlag flag)
  · exact Or.inr ⟨howner, hrunning, b, q, t, rfl⟩

/-- The effect of an execution, by how its trades go on. -/
theorem SelfHedging.Guards.effect {host : Host} {f : Flight} {m : Memory}
    (hf : f.message = .executeOnce) (flag : Bool)
    {r : Memory × Async.Await Env Memory Call Reply String (Option ℕ)}
    {r' : Memory × Async.Await Env Memory Call Reply String Unit}
    (hr : Trades host f.env (withFlag flag m) r.1)
    (hcommits : (∃ e, r.2 = .failed e) ∨ Rebalanced (withFlag flag m) r.1)
    (h : Guards f.env r r') : Effect host f m r' := by
  -- the flag as it was before
  have htrades : Trades host f.env m (withFlag m.executionInProgress r.1) :=
    hr.withFlag m.executionInProgress
  cases h with
  | done volume h =>
    refine .executes _ _ volume false hf htrades ?_ fun _ _ => ?_
    · cases volume <;> rfl
    · rcases hcommits with ⟨e, he⟩ | hm
      · exact nomatch he.symm.trans h
      · exact hm.withFlag m.executionInProgress
  | failed e h => exact .executes _ _ none false hf htrades rfl nofun
  | calls calls k h => exact .executes _ _ none r.1.executionInProgress hf htrades rfl nofun

/-- The first segment of an execution. -/
theorem effect_executeOnce {host : Host} {f : Flight} {m : Memory}
    (hf : f.message = .executeOnce) :
    Effect host f m ((executeOnce host).segment f.env m) := by
  rcases executeOnce_segment host f.env m with ⟨-, e, he, -⟩ | ⟨-, -, hguards⟩
  · rw [he]
    exact .refused e (hf ▸ nofun)
  · exact hguards.effect hf true
      ((changes_trades host).segment (Trades.refl host f.env) (fun _ _ _ => .trans) _).1
      ((commits_trades host).segment .refl (fun _ _ _ => .trans) _)

/-- A later segment of an execution. -/
theorem effect_executeOnce_resumes {host : Host} {f : Flight} {m : Memory}
    (hf : f.message = .executeOnce) {xs : List (Async.Exchange Call Reply)} {calls : List Call}
    {k : List Reply → Handler Unit} (h : Async.Unfolds (executeOnce host) xs (.call calls k))
    {rs : List Reply} (hlen : rs.length = calls.length) :
    Effect host f m ((k rs).segment f.env m) := by
  obtain ⟨k', hk, rfl⟩ := executeOnce_resumes h
  have hnext := hk.snoc hlen
  have htrades := (((changes_trades host).unfolds hnext).segment (i := f.env)
    (Trades.refl host f.env) (fun _ _ _ => .trans) m).1
  have hcommits := ((commits_trades host).unfolds hnext).segment (i := f.env) .refl
    (fun _ _ _ => .trans) m
  exact (guarded_segment (k' rs) f.env m).effect hf m.executionInProgress htrades hcommits

/-- A segment has one of the effects. -/
theorem Log.Enters.effect {host : Host} {l : Log} {e : CanisterEvent} {s : Segment}
    (h : l.Enters host e s) (hl : ∀ x ∈ l.pending, Log.Traced host x) :
    Effect host s.flight l.memory s.result := by
  cases h with
  | message env message hself =>
    cases message with
    | initSelfHedging owner config =>
      refine effect_update (f := ⟨_, _, _, env, _⟩) (by simp) _ fun m' h => ?_
      obtain ⟨hblank, hvalid, rfl⟩ := initSelfHedging_eq_ok.1 h
      exact .initialises owner config rfl hblank hvalid
    | start => exact .inquires _ rfl rfl (start_segment host env l.memory)
    | pause =>
      refine effect_update (f := ⟨_, _, _, env, _⟩) (by simp) _ fun m' h => ?_
      obtain ⟨howner, hrunning, rfl⟩ := pause_eq_ok.1 h
      exact .pauses rfl howner hrunning
    | stop =>
      refine effect_update (f := ⟨_, _, _, env, _⟩) (by simp) _ fun m' h => ?_
      obtain ⟨howner, rfl⟩ := stop_eq_ok.1 h
      exact .stops rfl howner
    | executeOnce => exact effect_executeOnce (f := ⟨_, _, _, env, _⟩) rfl
    | updateVolumeConfig size splitType =>
      refine effect_update (f := ⟨_, _, _, env, _⟩) (by simp) _ fun m' h => ?_
      obtain ⟨hverified, hpos, rfl⟩ := updateVolumeConfig_eq_ok.1 h
      exact .updatesVolume size splitType rfl hverified hpos
    | updateConfig size splitType interval slippage holdToken =>
      refine effect_update (f := ⟨_, _, _, env, _⟩) (by simp) _ fun m' h => ?_
      obtain ⟨hverified, hvalid, rfl⟩ := updateConfig_eq_ok.1 h
      exact .updatesConfig size splitType interval slippage holdToken rfl hverified hvalid
    | depositToExchange tokenType amount =>
      have hm : (Message.depositToExchange tokenType amount).Rebalances := trivial
      exact hm.effect (f := ⟨_, _, _, env, _⟩) (hm.changes host)
    | withdrawFromExchange tokenType amount =>
      have hm : (Message.withdrawFromExchange tokenType amount).Rebalances := trivial
      exact hm.effect (f := ⟨_, _, _, env, _⟩) (hm.changes host)
    | refreshBalance =>
      have hm : Message.refreshBalance.Rebalances := trivial
      exact hm.effect (f := ⟨_, _, _, env, _⟩) (hm.changes host)
  | timer time cycles hlive => exact effect_executeOnce (f := ⟨_, _, _, _, _⟩) rfl
  | replies i time cycles replies x hx hlen =>
    have htraced := (hl x (List.mem_of_getElem? hx)).unfolds
    have hrebalances : x.flight.message.Rebalances →
        Effect host (x.flight.resumed x.waiting.calls replies ⟨time, x.waiting.caller, cycles⟩
          l.memory) l.memory
          ((x.waiting.resume replies).segment ⟨time, x.waiting.caller, cycles⟩ l.memory) := by
      intro h
      cases (h.changes host).unfolds htraced with
      | call _ hk => exact h.effect (f := x.flight.resumed _ _ _ _) (hk replies)
    cases hm : x.flight.message with
    | start =>
      rw [hm] at htraced
      rcases start_resumes htraced hlen ⟨time, x.waiting.caller, cycles⟩ l.memory with
        ⟨hno, hinquires⟩ | ⟨hyes, secs, hruns⟩
      · exact .inquires _ hm (by simpa using hno) hinquires
      · rw [Segment.result]
        exact hruns ▸ .runs secs hm (by simpa using hyes)
    | executeOnce =>
      rw [hm] at htraced
      exact effect_executeOnce_resumes (f := x.flight.resumed _ _ _ _) hm htraced hlen
    | depositToExchange tokenType amount => exact hrebalances (by rw [hm]; trivial)
    | withdrawFromExchange tokenType amount => exact hrebalances (by rw [hm]; trivial)
    | refreshBalance => exact hrebalances (by rw [hm]; trivial)
    | _ =>
      -- the other messages await nothing
      rw [hm] at htraced
      exact (Async.not_unfolds_update htraced).elim

end HunterFi
