import HunterFi.Effects

/-!
# The timer of a strategy

The status of a strategy is in stable memory, its timer on the heap. `Effect.schedules` says
how a segment moves the two together : it leaves both alone, sets both, or clears both.
Only an upgrade, which drops the timer and keeps the status, and a second initialisation, which
resets the status and keeps the timer, do otherwise (`Resets`).

`runningScheduled_iff` : a strategy has a timer exactly while it is running, in every state of
a run, if and only if every such event finds it not running.

`stopsStand_iff` : a pause or a stop stands until a start that came after it sets the strategy
running, if and only if no approval is given to an earlier start while it stands. `start` looks
at the status before its calls and not after them.
-/

set_option linter.unusedSectionVars false

namespace HunterFi

open SelfHedging

/-! ## Timers -/

namespace Timers

/-- The registered timer is live. -/
def Scheduled (t : Timers) : Prop :=
  ∃ r ∈ t.registered.get? executionTimerId, ∃ i ∈ t.live, i.timerId = r.2

/-- There is no timer but the registered one. -/
def Tidy (t : Timers) : Prop :=
  (t.registered.get? executionTimerId = none ∧ t.live = []) ∨
    ∃ n secs, t.registered.get? executionTimerId = some (executionTimerId, n) ∧
      t.live = [⟨n, secs⟩]

variable {t : Timers}

theorem tidy_initial : initial.Tidy :=
  Or.inl ⟨rfl, rfl⟩

/-- A tidy canister is scheduled exactly if it has a live timer. -/
theorem Tidy.scheduled_iff (ht : t.Tidy) : t.Scheduled ↔ t.live ≠ [] := by
  rcases ht with ⟨hreg, hlive⟩ | ⟨n, secs, hreg, hlive⟩
  · simp [Scheduled, hreg, hlive]
  · simp [Scheduled, hreg, hlive]

/-- It has one at most. -/
theorem Tidy.length_live_le (ht : t.Tidy) : t.live.length ≤ 1 := by
  rcases ht with ⟨-, hlive⟩ | ⟨n, secs, -, hlive⟩ <;> simp [hlive]

/-- `clear_timer` leaves no timer. -/
theorem Tidy.clearTimer (ht : t.Tidy) :
    (t.clearTimer executionTimerId).registered.get? executionTimerId = none ∧
      (t.clearTimer executionTimerId).live = [] := by
  unfold Timers.clearTimer
  rcases ht with ⟨hreg, hlive⟩ | ⟨n, secs, hreg, hlive⟩
  · rw [hreg]
    exact ⟨hreg, hlive⟩
  · rw [hreg]
    exact ⟨by simp [KeyedMap.get?_erase], by simp [hlive]⟩

theorem Tidy.tidy_clearTimer (ht : t.Tidy) : (t.clearTimer executionTimerId).Tidy :=
  Or.inl ht.clearTimer

/-- `set_timer` leaves the timer that it sets. -/
theorem Tidy.tidy_setTimer (ht : t.Tidy) (secs : ℕ) :
    (t.setTimer executionTimerId secs).Tidy ∧ (t.setTimer executionTimerId secs).live ≠ [] := by
  obtain ⟨-, hlive⟩ := ht.clearTimer
  refine ⟨Or.inr ⟨(t.clearTimer executionTimerId).nextId, secs, ?_, ?_⟩, ?_⟩
  · exact KeyedMap.get?_insert_self _ (executionTimerId, _)
  · simp [setTimer, hlive]
  · simp [setTimer]

end Timers

/-! ## Status and timers -/

/-- How a segment moves the status and the timers. -/
inductive Schedules (m m' : Memory) : Prop
  | keeps (status : m'.state.status = m.state.status) (timers : m'.timers = m.timers)
  | runs (secs : ℕ) (status : m'.state.status = .running)
    (timers : m'.timers = m.timers.setTimer executionTimerId secs)
  | halts (status : m'.state.status = .paused ∨ m'.state.status = .terminated)
    (timers : m'.timers = m.timers.clearTimer executionTimerId)

variable {host : Host}

/-- The trades of an execution leave the timers, or clear them with the pause. -/
theorem SelfHedging.Trades.schedules {env : Env} {m m' : Memory} (h : Trades host env m m') :
    Schedules m m' := by
  rcases h with ⟨b, q, t, rfl⟩ | ⟨-, -, b, q, t, rfl⟩
  · exact .keeps rfl rfl
  · exact .halts (Or.inl rfl) rfl

theorem Rebalanced.schedules {m m' : Memory} (h : Rebalanced m m') : Schedules m m' := by
  obtain ⟨b, q, t, rfl⟩ := h
  exact .keeps rfl rfl

/-- A segment moves the status and the timers together, unless it initialises the strategy. -/
theorem Effect.schedules {f : Flight} {m : Memory}
    {r : Memory × Async.Await Env Memory Call Reply String Unit} (h : Effect host f m r) :
    Schedules m r.1 ∨ ∃ owner config, f.message = .initSelfHedging owner config ∧
      m.state.owner = .anonymous ∧ config.Initialises ∧
        r.1 = { m with state := newState owner config } := by
  cases h with
  | refused e message => exact Or.inl (.keeps rfl rfl)
  | rebalances r message memory => exact Or.inl memory.schedules
  | inquires r message refused inquires => exact Or.inl inquires.1.schedules
  | runs secs message approved => exact Or.inl (.runs secs rfl rfl)
  | pauses message owner ran => exact Or.inl (.halts (Or.inl rfl) rfl)
  | stops message owner => exact Or.inl (.halts (Or.inr rfl) rfl)
  | initialises owner config message blank valid =>
    exact Or.inr ⟨owner, config, message, blank, valid, rfl⟩
  | updatesVolume size splitType message verified pos => exact Or.inl (.keeps rfl rfl)
  | updatesConfig size splitType interval slippage holdToken message verified valid =>
    exact Or.inl (.keeps rfl rfl)
  | executes r m' volume flag message trades memory =>
    have hstatus : r.1.state.status = m'.state.status := by
      rw [memory]
      cases volume <;> rfl
    have htimers : r.1.timers = m'.timers := by
      rw [memory]
      cases volume <;> rfl
    refine Or.inl ?_
    rcases trades.schedules with ⟨hs, ht⟩ | ⟨secs, hs, ht⟩ | ⟨hs, ht⟩
    · exact .keeps (hstatus.trans hs) (htimers.trans ht)
    · exact .runs secs (hstatus.trans hs) (htimers.trans ht)
    · exact .halts (hstatus ▸ hs) (htimers.trans ht)

/-- What keeps the schedule keeps it tidy. -/
theorem Schedules.tidy {m m' : Memory} (h : Schedules m m') (hm : m.timers.Tidy) :
    m'.timers.Tidy := by
  cases h with
  | keeps status timers => exact timers ▸ hm
  | runs secs status timers => exact timers ▸ (hm.tidy_setTimer secs).1
  | halts status timers => exact timers ▸ hm.tidy_clearTimer

/-! ## The invariant of the log -/

namespace Log

/-- The handlers that wait are those of their flights, and there is one timer at most. -/
structure Sound (host : Host) (l : Log) : Prop where
  traced : ∀ x ∈ l.pending, Traced host x
  tidy : l.memory.timers.Tidy

variable {l l' : Log} {e : CanisterEvent} {s : Segment}

theorem sound_start {m : Memory} (hm : m.timers.Tidy) : (start m).Sound host :=
  ⟨fun _ hx => (nomatch hx), hm⟩

theorem Enters.sound (he : l.Enters host e s) (hl : l.Sound host) : (l.land s).Sound host := by
  refine ⟨he.traced_land hl.traced, ?_⟩
  rw [memory_land]
  rcases (he.effect hl.traced).schedules with h | ⟨owner, config, -, -, -, hm⟩
  · exact h.tidy hl.tidy
  · rw [hm]
    exact hl.tidy

theorem sound_upgraded (l : Log) : l.upgraded.Sound host :=
  ⟨fun _ hx => (nomatch hx), Timers.tidy_initial⟩

/-- A step keeps the log sound. -/
theorem step_sound (hl : l.Sound host) (hs : l.step host e = some l') : l'.Sound host := by
  rcases step_cases hs with ⟨-, rfl⟩ | ⟨s, he, rfl⟩
  · exact sound_upgraded l
  · exact he.sound hl

end Log

/-! ## Running means scheduled -/

namespace Canister

/-- The canister is running exactly if its execution timer is registered and live, and it has no
other timer. -/
def RunningScheduled (c : Canister) : Prop :=
  (c.memory.state.status = .running ↔ c.memory.timers.Scheduled) ∧ c.memory.timers.live.length ≤ 1

/-- The event drops the timers, or sets the status back. -/
def Resets (c : Canister) (e : CanisterEvent) : Prop :=
  e = .upgrade ∨ ∃ env owner config, e = .message env (.initSelfHedging owner config) ∧
    c.memory.state.owner = .anonymous ∧ config.Initialises

end Canister

/-- A segment of a message that awaits nothing is that of its message. -/
theorem Log.Enters.eq_message {l : Log} {e : CanisterEvent} {s : Segment}
    (he : l.Enters host e s) (hl : ∀ x ∈ l.pending, Traced host x) {message : Message}
    {f : Env → Memory → Except String Memory} (hf : message.handler host = .update f)
    (hm : s.flight.message = message) (hexecution : message ≠ .executeOnce) :
    e = .message s.flight.env message := by
  cases he with
  | message env message hself =>
    obtain rfl := hm
    rfl
  | timer time cycles hlive => exact absurd hm.symm hexecution
  | replies i time cycles replies x hx hlen =>
    have htraced := (hl x (List.mem_of_getElem? hx)).unfolds
    rw [show x.flight.message = _ from hm, hf] at htraced
    exact (Async.not_unfolds_update htraced).elim

/-- An initialisation that passes its checks sets the state. -/
theorem Log.Enters.result_initialise {l : Log} {env : Env} {owner : Principal}
    {config : SelfHedgingConfig} {s : Segment}
    (he : l.Enters host (.message env (.initSelfHedging owner config)) s)
    (hblank : l.memory.state.owner = .anonymous) (hvalid : config.Initialises) :
    s.result = ({ l.memory with state := newState owner config }, .done ()) := by
  cases he
  exact Async.segment_update (initSelfHedging_eq_ok.2 ⟨hblank, hvalid, rfl⟩)

/-- A strategy is scheduled exactly while it is running, in every state of a run, if and only if
the upgrades and the initialisations of the run find it not running. -/
theorem Canister.runningScheduled_iff (host : Host) (es : List CanisterEvent) :
    Runs.Throughout (step host) RunningScheduled installed es ↔
      Runs.Along (step host) (fun c e => c.Resets e → c.memory.state.status ≠ .running)
        installed es := by
  rw [show installed = (Log.start .installed).canister from rfl,
    Runs.throughout_map (Log.step_canister host), Runs.along_map (Log.step_canister host)]
  refine Runs.throughout_iff_along (I := Log.Sound host) (fun l e l' hl hP _ hs => ?_)
    (Log.sound_start Timers.tidy_initial) ?_ Runs.along_true
  · refine ⟨Log.step_sound hl hs, ?_⟩
    rcases Log.step_cases hs with ⟨rfl, rfl⟩ | ⟨s, he, rfl⟩
    · -- no timer is left
      have hnone : ¬Timers.initial.Scheduled :=
        fun h => Timers.tidy_initial.scheduled_iff.1 h rfl
      exact ⟨fun h _ hrunning => hnone (h.1.1 hrunning),
        fun h => ⟨iff_of_false (h (Or.inl rfl)) hnone, Nat.zero_le _⟩⟩
    · by_cases hreset : Resets l.canister e
      · obtain rfl | ⟨env, owner, config, rfl, hblank, hvalid⟩ := id hreset
        · cases he
        have hm : (l.land s).canister.memory =
            { l.memory with state := newState owner config } := by
          rw [Log.canister, Log.memory_land, he.result_initialise hblank hvalid]
        rw [RunningScheduled, hm]
        refine ⟨fun h _ hrunning => ?_,
          fun h => ⟨iff_of_false (fun hs => by cases hs) fun ht => ?_, hP.2⟩⟩
        · cases h.1.2 (hP.1.1 hrunning)
        · exact h hreset (hP.1.2 ht)
      · refine iff_of_true ?_ fun h => absurd h hreset
        have htidy := (he.sound hl).tidy
        refine ⟨?_, htidy.length_live_le⟩
        simp only [Log.canister, Log.memory_land] at htidy hP ⊢
        rcases (he.effect hl.traced).schedules with (⟨hstatus, htimers⟩ | ⟨secs, hstatus, htimers⟩ |
          ⟨hstatus, htimers⟩) | ⟨owner, config, hm, hblank, hvalid, -⟩
        · rw [hstatus, htimers]
          exact hP.1
        · rw [htidy.scheduled_iff, htimers]
          exact iff_of_true hstatus (hl.tidy.tidy_setTimer secs).2
        · rw [htidy.scheduled_iff, htimers]
          refine iff_of_false (fun hrunning => ?_) fun h => h hl.tidy.clearTimer.2
          rw [hrunning] at hstatus
          rcases hstatus with hs | hs
          · cases hs
          · cases hs
        · have hsent : e = .message s.flight.env (.initSelfHedging owner config) :=
            he.eq_message hl.traced rfl hm fun hs => by cases hs
          exact absurd (Or.inr ⟨_, owner, config, hsent, hblank, hvalid⟩) hreset
  · have hnone : ¬Timers.initial.Scheduled :=
      fun h => Timers.tidy_initial.scheduled_iff.1 h rfl
    exact ⟨iff_of_false (fun hs => by cases hs) hnone, Nat.zero_le _⟩

/-! ## A strategy is upgraded while it runs -/

namespace Sample

/-- The owner of the sample strategy. -/
def strategist : Principal :=
  ⟨[5], by decide⟩

/-- The sample configuration with a hold token that takes approvals. -/
def hedgeConfig : SelfHedgingConfig :=
  { config with
    tradingPair := ⟨{ token icp "ICP" with standard := "ICRC2" }, token ckUsdc "ckUSDC"⟩
    slippageTolerance := ⟨0x3FE0000000000000⟩ }

/-- The memory of the strategy that the strategist has initialised. -/
def initialised : Memory :=
  { Memory.installed with state := newState strategist hedgeConfig }

theorem initialises_hedgeConfig (env : Env) :
    initSelfHedging strategist hedgeConfig env Memory.installed = .ok initialised :=
  initSelfHedging_eq_ok.2 ⟨rfl, by decide +kernel, rfl⟩

/-- A message of the strategist. -/
def asks (time : ℕ) (message : Message) : CanisterEvent :=
  .message ⟨time, strategist, 0⟩ message

/-- A reply to the only call of a waiting handler. -/
def answers (i time : ℕ) (reply : Reply) : CanisterEvent :=
  .replies i time 0 [reply]

/-- The strategist initialises it. -/
def initialises : CanisterEvent :=
  asks 0 (.initSelfHedging strategist hedgeConfig)

/-- A reply that names the pool. -/
def poolFound : Reply :=
  .pool (.ok ⟨3000, ⟨icp.toText, "ICRC2"⟩, ⟨ckUsdc.toText, "ICRC1"⟩, samplePool⟩)

/-- A reply that tells of a balance. -/
def balanceFound : Reply :=
  .unusedBalance (.ok ⟨2000000, 0⟩)

/-- A start up to its approval. -/
def inquires : List CanisterEvent :=
  [asks 1 .start, answers 0 2 poolFound, answers 0 3 poolFound, answers 0 4 balanceFound]

/-- The approval of a start. -/
def approves : CanisterEvent :=
  answers 0 6 (.icrc2Approved (.ok 0))

end Sample

/-- An upgrade leaves the strategy running without a timer. -/
theorem Canister.not_runningScheduled_upgrade :
    ¬Runs.Throughout (step sampleHost) RunningScheduled installed
      (Sample.initialises :: Sample.inquires ++ [Sample.approves, .upgrade]) := by
  refine Runs.not_throughout (p := fun c => c.memory.state.status = .running &&
    c.memory.timers.live = []) (fun c hc h => ?_) (by decide +kernel)
  simp only [Bool.and_eq_true, decide_eq_true_eq] at hc
  obtain ⟨r, -, i, hi, -⟩ := h.1.1 hc.1
  simp [hc.2] at hi

/-! ## A stop stands -/

namespace Finished

/-- The flight has paused or stopped the strategy. -/
def halts (x : Finished) : Bool :=
  match x.flight.message, x.result with
  | .pause, .ok _ => true
  | .stop, .ok _ => true
  | .executeOnce, _ => x.flight.memory.state.status = .running && x.memory.state.status = .paused
  | _, _ => false

/-- The flight has set the strategy running. -/
def starts (x : Finished) : Bool :=
  match x.flight.message, x.result with
  | .start, .ok _ => true
  | _, _ => false

variable {x : Finished}

/-- Only a pause, a stop and an execution halt a strategy. -/
theorem halts_eq_false (hm : x.flight.message ≠ .pause ∧ x.flight.message ≠ .stop ∧
    x.flight.message ≠ .executeOnce) : x.halts = false := by
  unfold halts
  split <;> simp_all

/-- Only a start starts it. -/
theorem starts_eq_false (hm : x.flight.message ≠ .start) : x.starts = false := by
  unfold starts
  split <;> simp_all

/-- A flight that fails and leaves the status has done neither. -/
theorem halts_of_failed {e : String} (hr : x.result = .error e)
    (hstatus : x.memory.state.status = x.flight.memory.state.status) :
    x.halts = false ∧ x.starts = false := by
  unfold halts starts
  rw [hr, hstatus]
  cases x.flight.memory.state.status <;> cases x.flight.message <;> exact ⟨rfl, rfl⟩

end Finished

namespace Log

/-- The event that has last paused or stopped the strategy, unless a start that came after it has
set it running since. The last flight to end comes first. -/
def standing : List Finished → Option ℕ
  | [] => none
  | x :: xs =>
    if x.halts then some x.ended
    else if x.starts then (standing xs).filter fun n => x.flight.received ≤ n
    else standing xs

/-- While a pause or a stop stands, the strategy is not running and has no timer. -/
def StopStands (l : Log) : Prop :=
  ∀ n ∈ standing l.finished, l.memory.state.status ≠ .running ∧ l.memory.timers.live = []

/-- A start is given its approval only if it came after the pause or the stop that stands. -/
def ApprovesLater (host : Host) (l : Log) (e : CanisterEvent) : Prop :=
  ∀ s ∈ l.segment host e, s.flight.message = .start → s.flight.approved = true →
    ∀ n ∈ standing l.finished, n < s.flight.received

variable {l l' : Log} {e : CanisterEvent} {s : Segment}

/-- A flight that neither halts nor starts the strategy leaves what stands. -/
theorem standing_land (h : ∀ x, l.Ends s x → x.halts = false ∧ x.starts = false) :
    standing (l.land s).finished = standing l.finished := by
  rcases finished_land l s with ⟨-, heq⟩ | ⟨x, hx, heq⟩
  · rw [heq]
  · obtain ⟨hhalts, hstarts⟩ := h x hx
    simp [heq, standing, hhalts, hstarts]

theorem standing_land_of_message (hm : s.flight.message ≠ .pause ∧ s.flight.message ≠ .stop ∧
    s.flight.message ≠ .executeOnce) (hstart : s.flight.message ≠ .start) :
    standing (l.land s).finished = standing l.finished := by
  refine standing_land fun x hx => ?_
  rw [← hx.flight] at hm hstart
  exact ⟨Finished.halts_eq_false hm, Finished.starts_eq_false hstart⟩

/-- A start that succeeds lifts the stops before it. -/
theorem standing_land_of_start (hm : s.flight.message = .start) (hr : s.result.2 = .done ()) :
    standing (l.land s).finished = (standing l.finished).filter fun n => s.flight.received ≤ n := by
  obtain ⟨⟨calls, k, hcalls⟩, -⟩ | ⟨x, hx, heq⟩ := finished_land l s
  · cases hr.symm.trans hcalls
  · have hstarts : x.halts = false ∧ x.starts = true := by
      unfold Finished.halts Finished.starts
      rw [hx.flight, hm, hx.ok () hr]
      exact ⟨rfl, rfl⟩
    rw [heq, standing, hstarts.1, hstarts.2, hx.flight]
    rfl

/-- After a segment a stop stands exactly if it has given no approval to an earlier start. -/
theorem Enters.stopStands_iff (he : l.Enters host e s) (hl : l.Sound host) (hP : l.StopStands) :
    (l.land s).StopStands ↔ (s.flight.message = .start → s.flight.approved = true →
      ∀ n ∈ standing l.finished, n < s.flight.received) := by
  have heffect := he.effect hl.traced
  have hmemory : (l.land s).memory = s.result.1 := memory_land l s
  generalize hr : s.result = r at heffect hmemory
  -- a segment that leaves the status, the timers and what stands
  have hkeeps : r.1.state.status = l.memory.state.status → r.1.timers = l.memory.timers →
      standing (l.land s).finished = standing l.finished → (l.land s).StopStands := by
    intro hstatus htimers hstanding n hn
    rw [hmemory, hstatus, htimers]
    exact hP n (hstanding ▸ hn)
  cases heffect with
  | refused e message =>
    refine iff_of_true (hkeeps rfl rfl (standing_land fun x hx => ?_)) fun h => absurd h message
    refine Finished.halts_of_failed (hx.error e (by rw [hr])) ?_
    rw [hx.memory, hx.flight, he.memory, hr]
  | rebalances r message memory =>
    obtain ⟨b, q, t, hm⟩ := memory
    obtain ⟨hstart, hother⟩ := message.ne
    exact iff_of_true (hkeeps (hm ▸ rfl) (hm ▸ rfl) (standing_land_of_message hother hstart))
      fun h => absurd h hstart
  | inquires r message refused inquires =>
    obtain ⟨⟨b, q, t, hm⟩, hdone⟩ := inquires
    refine iff_of_true (hkeeps (hm ▸ rfl) (hm ▸ rfl) (standing_land fun x hx => ?_)) fun _ h =>
      (nomatch refused.symm.trans h)
    have hstatus : x.memory.state.status = x.flight.memory.state.status := by
      rw [hx.memory, hx.flight, he.memory, hr, hm]
      rfl
    cases hend : r.2 with
    | done u => exact absurd hend (hdone u)
    | failed e => exact Finished.halts_of_failed (hx.error e (by rw [hr, hend])) hstatus
    | calls calls k => exact absurd (by rw [hr, hend]) (hx.last calls k)
  | runs secs message approved =>
    have htimers : (l.land s).memory.timers.live ≠ [] := by
      rw [hmemory]
      exact (hl.tidy.tidy_setTimer secs).2
    have hstanding : standing (l.land s).finished =
        (standing l.finished).filter fun n => s.flight.received ≤ n :=
      standing_land_of_start message (by rw [hr])
    rw [StopStands, hstanding]
    refine ⟨fun h _ _ n hn => ?_, fun h n hn => ?_⟩
    · by_contra hle
      exact htimers (h n (Option.mem_filter_iff.2 ⟨hn, by simpa using hle⟩)).2
    · obtain ⟨hn, hle⟩ := Option.mem_filter_iff.1 hn
      exact absurd (h message approved n hn) (by simpa using hle)
  | pauses message owner ran =>
    refine iff_of_true (fun n hn => ?_) fun h => (nomatch message.symm.trans h)
    rw [hmemory]
    exact ⟨nofun, hl.tidy.clearTimer.2⟩
  | stops message owner =>
    refine iff_of_true (fun n hn => ?_) fun h => (nomatch message.symm.trans h)
    rw [hmemory]
    exact ⟨nofun, hl.tidy.clearTimer.2⟩
  | initialises owner config message blank valid =>
    refine iff_of_true (fun n hn => ?_) fun h => (nomatch message.symm.trans h)
    have hstanding : standing (l.land s).finished = standing l.finished :=
      standing_land_of_message (message ▸ ⟨nofun, nofun, nofun⟩) (message ▸ nofun)
    rw [hmemory]
    exact ⟨nofun, (hP n (hstanding ▸ hn)).2⟩
  | updatesVolume size splitType message verified pos =>
    refine iff_of_true (hkeeps rfl rfl ?_) fun h => (nomatch message.symm.trans h)
    exact standing_land_of_message (message ▸ ⟨nofun, nofun, nofun⟩) (message ▸ nofun)
  | updatesConfig size splitType interval slippage holdToken message verified valid =>
    refine iff_of_true (hkeeps rfl rfl ?_) fun h => (nomatch message.symm.trans h)
    exact standing_land_of_message (message ▸ ⟨nofun, nofun, nofun⟩) (message ▸ nofun)
  | executes r m' volume flag message trades memory =>
    refine iff_of_true ?_ fun h => (nomatch message.symm.trans h)
    have hstate : r.1.state.status = m'.state.status ∧ r.1.timers = m'.timers := by
      rw [memory]
      cases volume <;> exact ⟨rfl, rfl⟩
    rcases trades with ⟨b, q, t, hm⟩ | ⟨-, -, b, q, t, hm⟩
    · have hsame : r.1.state.status = l.memory.state.status ∧ r.1.timers = l.memory.timers := by
        rw [hstate.1, hstate.2, hm]
        exact ⟨rfl, rfl⟩
      refine hkeeps hsame.1 hsame.2 (standing_land fun x hx => ?_)
      have hstatus : x.memory.state.status = x.flight.memory.state.status := by
        rw [hx.memory, hx.flight, he.memory, hr, hsame.1]
      unfold Finished.halts Finished.starts
      rw [hx.flight, message, hstatus, hx.flight]
      cases s.flight.memory.state.status <;> exact ⟨rfl, rfl⟩
    · intro n hn
      rw [hmemory, hstate.1, hstate.2, hm]
      exact ⟨nofun, hl.tidy.clearTimer.2⟩

/-- A pause or a stop stands throughout a run if and only if no approval is given to an earlier
start while it stands. -/
theorem stopsStand_iff (host : Host) (es : List CanisterEvent) :
    Runs.Throughout (step host) StopStands (start .installed) es ↔
      Runs.Along (step host) (ApprovesLater host) (start .installed) es := by
  refine Runs.throughout_iff_along (I := Sound host) (fun l e l' hl hP _ hs => ?_)
    (sound_start Timers.tidy_initial) (by simp [StopStands, start, standing]) Runs.along_true
  refine ⟨step_sound hl hs, ?_⟩
  rcases step_cases hs with ⟨rfl, rfl⟩ | ⟨s, he, rfl⟩
  · exact iff_of_true (fun n hn => ⟨(hP n hn).1, rfl⟩) (by simp [ApprovesLater, segment])
  · refine (he.stopStands_iff hl hP).trans ⟨fun h s' hs' => ?_, fun h => h s he.segment_eq⟩
    obtain rfl := Option.some.inj (he.segment_eq.symm.trans hs')
    exact h

/-- A strategy that is stopped between the calls of a start and their last reply runs again. -/
theorem not_stopsStand_suspended : ¬Runs.Throughout (step sampleHost) StopStands (start .installed)
    (Sample.initialises :: Sample.inquires ++ [Sample.asks 5 .stop, Sample.approves]) := by
  refine Runs.not_throughout (p := fun l => l.memory.state.status = .running &&
    (standing l.finished).isSome) (fun l hl h => ?_) (by decide +kernel)
  simp only [Bool.and_eq_true, decide_eq_true_eq, Option.isSome_iff_exists] at hl
  obtain ⟨hrunning, n, hn⟩ := hl
  exact (h n hn).1 hrunning

end Log

end HunterFi
