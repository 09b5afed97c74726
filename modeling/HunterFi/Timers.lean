import HunterFi.Requests
import HunterFi.Sequences

/-!
# The cleanup timer

`timer.rs` of the factory. A new canister sets no timer, since the call in `init` is commented
out, and neither does `post_upgrade`. The first one is set by `reset_system_timers`. When it is due
it runs the cleanup and sets the next one.

`Timed` is the factory with its timers and a clock. A cleanup happens only when a timer is due.
`timed_refines` : a run of it is a run of the factory, so what holds of those holds of it.
`cleanups_spaced` : at most one timer is set, and cleanups are a day apart whatever admins reset.
-/

set_option linter.unusedSectionVars false

namespace HunterFi

/-- `CLEANUP_INTERVAL_SECS`, in nanoseconds. -/
def cleanupIntervalNs : ℕ :=
  86400 * 1000000000

theorem cleanupIntervalNs_pos : 0 < cleanupIntervalNs :=
  Nat.mul_pos (Nat.succ_pos _) (Nat.succ_pos _)

/-- A timer that is set. -/
structure SystemTimer where
  id : ℕ
  due : ℕ
  deriving DecidableEq

/-- The timers of the canister and the heap state of `timer.rs`. -/
structure SystemTimers where
  pending : List SystemTimer
  nextId : ℕ
  cleanupTimer : Option ℕ
  retryCounter : ℕ
  lastError : Option String
  deriving DecidableEq

namespace SystemTimers

/-- No timer is set. -/
def initial : SystemTimers :=
  ⟨[], 0, none, 0, none⟩

/-- `ic_cdk_timers::set_timer`, as long as the due time fits in a `u64` of nanoseconds. -/
def setTimer (t : SystemTimers) (time interval : ℕ) : ℕ × SystemTimers :=
  (t.nextId, { t with
    pending := ⟨t.nextId, time + interval⟩ :: t.pending
    nextId := t.nextId + 1 })

/-- `ic_cdk_timers::clear_timer`. -/
def clearTimer (t : SystemTimers) (id : ℕ) : SystemTimers :=
  { t with pending := t.pending.filter fun timer => timer.id ≠ id }

/-- `TimerTaskManager::schedule_cleanup`. -/
def scheduleCleanup (t : SystemTimers) (time : ℕ) : SystemTimers :=
  let (id, t) := t.setTimer time cleanupIntervalNs
  { t with cleanupTimer := some id }

/-- `schedule_timers`. -/
def scheduleTimers (t : SystemTimers) (time : ℕ) : SystemTimers :=
  { t with retryCounter := 0 }.scheduleCleanup time

/-- `cancel_timers`. -/
def cancelTimers (t : SystemTimers) : SystemTimers :=
  match t.cleanupTimer with
  | none => t
  | some id => { t with cleanupTimer := none }.clearTimer id

/-- `TimerTaskManager::execute_with_retry`. It returns after the first try in either case. -/
def executeWithRetry (t : SystemTimers) (taskName : String) (result : Except String ℕ) :
    Except String ℕ × SystemTimers :=
  match result with
  | .ok count => (.ok count, { t with retryCounter := 0, lastError := none })
  | .error e =>
    (.error ("Retry needed for task " ++ taskName),
      { t with retryCounter := 1, lastError := some e })

/-- What `execute_cleanup_tasks` does to the heap. Archiving does not fail. -/
def executeCleanupTasks (t : SystemTimers) (env : Env) (f : Factory) : SystemTimers :=
  if f.shouldArchiveRecords then
    (t.executeWithRetry "record_archiving" (.ok (f.archiveOldDeploymentRecords env).1)).2
  else t

/-- `get_timer_status`. -/
def getTimerStatus (t : SystemTimers) : String :=
  "Timer status: active=" ++ toString t.cleanupTimer.isSome ++ ", retry_count=" ++
    toString t.retryCounter ++ ", last_error=" ++ t.lastError.getD "none"

end SystemTimers

/-- `reset_system_timers`. -/
def Api.resetSystemTimers (env : Env) (f : Factory) (t : SystemTimers) :
    Except String Unit × SystemTimers :=
  match f.requireAdmin env with
  | .error e => (.error e, t)
  | .ok () => (.ok (), t.cancelTimers.scheduleTimers env.time)

/-! ## The factory with its timers -/

/-- The factory, its timers, the time of the last event of a timer, and the times of the cleanups
that have run. -/
structure Timed where
  world : World
  timers : SystemTimers
  clock : ℕ
  cleanups : List ℕ

/-- A message, an admin's reset of the timers, or a timer that is due. -/
inductive TimedEvent
  | message (e : Event)
  | resetSystemTimers (env : Env)
  | fires (timer : SystemTimer) (time cycles : ℕ)

/-- What an event is for the factory alone. -/
def TimedEvent.events : TimedEvent → List Event
  | message e => [e]
  | resetSystemTimers _ => []
  | fires _ time cycles => [.cleanup time cycles]

/-- The event is a cleanup. -/
def Event.isCleanup : Event → Bool
  | cleanup _ _ => true
  | _ => false

/-- The event is an upgrade. -/
def Event.isUpgrade : Event → Bool
  | upgrade => true
  | _ => false

namespace Timed

/-- The factory and its timers after the installation. -/
def start (env : Env) (ledger : Ledger) : Timed :=
  ⟨World.start env ledger, .initial, 0, []⟩

/-- One event. An upgrade drops the timers with the heap. -/
def step (P : Platform) (L : LedgerRule) (s : Timed) : TimedEvent → Option Timed
  | .message e =>
    if e.isCleanup then none
    else
      (World.step P L s.world e).map fun w =>
        { s with world := w, timers := if e.isUpgrade then .initial else s.timers }
  | .resetSystemTimers env =>
    if s.clock ≤ env.time then
      some { s with
        timers := (Api.resetSystemTimers env s.world.factory s.timers).2
        clock := env.time }
    else none
  | .fires timer time cycles =>
    if timer ∈ s.timers.pending ∧ timer.due ≤ time ∧ s.clock ≤ time then
      (World.step P L s.world (.cleanup time cycles)).map fun w =>
        { world := w
          timers := ({ s.timers with pending := s.timers.pending.erase timer }.executeCleanupTasks
            ⟨time, P.id, cycles⟩ s.world.factory).scheduleCleanup time
          clock := time
          cleanups := time :: s.cleanups }
    else none

variable {P : Platform} {L : LedgerRule} {s s' : Timed}

/-- A run of the factory with its timers is a run of the factory. -/
theorem timed_refines {es : List TimedEvent} (h : Runs.run (step P L) s es = some s') :
    Runs.run (World.step P L) s.world (es.flatMap TimedEvent.events) = some s'.world := by
  refine Runs.run_flatMap (f := world) (fun s e t ht => ?_) es h
  cases e with
  | message e =>
    have hnot : ¬e.isCleanup = true := fun hc => by
      rw [step, if_pos hc] at ht
      cases ht
    rw [step, if_neg hnot] at ht
    obtain ⟨w, hw, rfl⟩ := Option.map_eq_some_iff.1 ht
    exact Runs.run_cons_eq_some.2 ⟨w, hw, rfl⟩
  | resetSystemTimers env =>
    simp only [step] at ht
    split_ifs at ht
    cases ht
    rfl
  | fires timer time cycles =>
    simp only [step] at ht
    split_ifs at ht
    obtain ⟨w, hw, rfl⟩ := Option.map_eq_some_iff.1 ht
    exact Runs.run_cons_eq_some.2 ⟨w, hw, rfl⟩

/-! ## The invariant -/

/-- At most one timer is set, the one that would be cancelled, and it is due a day after every
cleanup that has run. -/
structure Punctual (s : Timed) : Prop where
  one : s.timers.pending.map SystemTimer.id = s.timers.cleanupTimer.toList
  due : ∀ timer ∈ s.timers.pending, ∀ t ∈ s.cleanups, t + cleanupIntervalNs ≤ timer.due
  past : ∀ t ∈ s.cleanups, t ≤ s.clock
  spaced : Sequences.Spaced cleanupIntervalNs s.cleanups
  retryCounter : s.timers.retryCounter = 0
  lastError : s.timers.lastError = none

theorem start_punctual (env : Env) (ledger : Ledger) : Punctual (start env ledger) where
  one := rfl
  due := fun _ h => nomatch h
  past := fun _ h => nomatch h
  spaced := .nil
  retryCounter := rfl
  lastError := rfl

/-- What a cleanup has set, the next cancellation clears. -/
theorem pending_cancelTimers {t : SystemTimers}
    (h : t.pending.map SystemTimer.id = t.cleanupTimer.toList) : t.cancelTimers.pending = [] := by
  unfold SystemTimers.cancelTimers
  cases hid : t.cleanupTimer with
  | none =>
    rw [hid] at h
    exact List.map_eq_nil_iff.1 h
  | some id =>
    rw [hid] at h
    refine List.filter_eq_nil_iff.2 fun timer hmem hne => of_decide_eq_true hne ?_
    have hid := List.mem_map_of_mem (f := SystemTimer.id) hmem
    rw [h] at hid
    exact List.mem_singleton.1 hid

theorem pending_erase {t : SystemTimers} {timer : SystemTimer}
    (h : t.pending.map SystemTimer.id = t.cleanupTimer.toList) (hmem : timer ∈ t.pending) :
    t.pending.erase timer = [] := by
  have hlen : t.pending.length ≤ 1 := by
    rw [← List.length_map (f := SystemTimer.id), h]
    cases t.cleanupTimer <;> simp
  rw [← List.length_eq_zero_iff, List.length_erase_of_mem hmem]
  omega

theorem executeCleanupTasks_pending (t : SystemTimers) (env : Env) (f : Factory) :
    (t.executeCleanupTasks env f).pending = t.pending := by
  unfold SystemTimers.executeCleanupTasks
  split_ifs <;> rfl

theorem executeCleanupTasks_retryCounter {t : SystemTimers} (h : t.retryCounter = 0) (env : Env)
    (f : Factory) : (t.executeCleanupTasks env f).retryCounter = 0 := by
  unfold SystemTimers.executeCleanupTasks
  split_ifs
  · rfl
  · exact h

theorem executeCleanupTasks_lastError {t : SystemTimers} (h : t.lastError = none) (env : Env)
    (f : Factory) : (t.executeCleanupTasks env f).lastError = none := by
  unfold SystemTimers.executeCleanupTasks
  split_ifs
  · rfl
  · exact h

/-- Where no timer is set, the next one is due a day after all cleanups that have run. -/
theorem Punctual.schedule {w : World} {t : SystemTimers} {time : ℕ} {cleanups : List ℕ}
    (hpending : t.pending = []) (hretry : t.retryCounter = 0) (herror : t.lastError = none)
    (hpast : ∀ x ∈ cleanups, x ≤ time) (hspaced : Sequences.Spaced cleanupIntervalNs cleanups) :
    Punctual ⟨w, t.scheduleCleanup time, time, cleanups⟩ where
  one := by
    show (⟨t.nextId, time + cleanupIntervalNs⟩ :: t.pending).map SystemTimer.id = _
    rw [hpending]
    rfl
  due := by
    show ∀ timer ∈ ⟨t.nextId, time + cleanupIntervalNs⟩ :: t.pending, _
    rw [hpending]
    rintro _ (_ | ⟨_, h⟩) x hx
    · exact Nat.add_le_add_right (hpast x hx) _
    · cases h
  past := hpast
  spaced := hspaced
  retryCounter := hretry
  lastError := herror

theorem step_punctual (s : Timed) (e : TimedEvent) (s' : Timed) (h : Punctual s)
    (ht : step P L s e = some s') : Punctual s' := by
  cases e with
  | message e =>
    have hnot : ¬e.isCleanup = true := fun hc => by
      rw [step, if_pos hc] at ht
      cases ht
    rw [step, if_neg hnot] at ht
    obtain ⟨w, -, rfl⟩ := Option.map_eq_some_iff.1 ht
    by_cases hup : e.isUpgrade = true
    · rw [if_pos hup]
      exact ⟨rfl, fun _ hmem => (nomatch hmem), h.past, h.spaced, rfl, rfl⟩
    · rw [if_neg hup]
      exact ⟨h.one, h.due, h.past, h.spaced, h.retryCounter, h.lastError⟩
  | resetSystemTimers env =>
    simp only [step] at ht
    split_ifs at ht with hclock
    cases ht
    have hpast : ∀ x ∈ s.cleanups, x ≤ env.time := fun x hx => (h.past x hx).trans hclock
    cases hadmin : s.world.factory.requireAdmin env with
    | error e =>
      have hsame : (Api.resetSystemTimers env s.world.factory s.timers).2 = s.timers := by
        rw [Api.resetSystemTimers, hadmin]
      rw [hsame]
      exact ⟨h.one, h.due, hpast, h.spaced, h.retryCounter, h.lastError⟩
    | ok =>
      have hset : (Api.resetSystemTimers env s.world.factory s.timers).2 =
          s.timers.cancelTimers.scheduleTimers env.time := by
        rw [Api.resetSystemTimers, hadmin]
      have herror : s.timers.cancelTimers.lastError = none := by
        unfold SystemTimers.cancelTimers
        cases s.timers.cleanupTimer <;> exact h.lastError
      rw [hset]
      exact Punctual.schedule (pending_cancelTimers h.one) rfl herror hpast h.spaced
  | fires timer time cycles =>
    simp only [step] at ht
    split_ifs at ht with hdue
    obtain ⟨w, -, rfl⟩ := Option.map_eq_some_iff.1 ht
    obtain ⟨hmem, hdue, hclock⟩ := hdue
    let t := { s.timers with pending := s.timers.pending.erase timer }
    refine Punctual.schedule ?_ (executeCleanupTasks_retryCounter (t := t) h.retryCounter _ _)
      (executeCleanupTasks_lastError (t := t) h.lastError _ _) ?_ ?_
    · rw [executeCleanupTasks_pending]
      exact pending_erase h.one hmem
    · exact List.forall_mem_cons.2 ⟨le_rfl, fun x hx => (h.past x hx).trans hclock⟩
    · exact List.pairwise_cons.2 ⟨fun x hx => (h.due timer hmem x hx).trans hdue, h.spaced⟩

/-! ## The cleanups -/

/-- What a maintainer wants of the timers. -/
structure Regular (s : Timed) : Prop where
  one : s.timers.pending.map SystemTimer.id = s.timers.cleanupTimer.toList
  few : ∀ a b, (s.cleanups.filter fun t => a ≤ t ∧ t ≤ b).length ≤ (b - a) / cleanupIntervalNs + 1
  status : s.timers.getTimerStatus = "Timer status: active=" ++
    toString (!s.timers.pending.isEmpty) ++ ", retry_count=0, last_error=none"

theorem Punctual.regular (h : Punctual s) : Regular s where
  one := h.one
  few := h.spaced.length_filter_le cleanupIntervalNs_pos
  status := by
    have hactive : s.timers.cleanupTimer.isSome = !s.timers.pending.isEmpty := by
      rw [← List.isEmpty_map (f := SystemTimer.id), h.one]
      cases s.timers.cleanupTimer <;> rfl
    unfold SystemTimers.getTimerStatus
    have htext : ", retry_count=" ++ (toString 0 ++ (", last_error=" ++ "none")) =
        ", retry_count=0, last_error=none" := by
      decide
    simp only [h.retryCounter, h.lastError, hactive, Option.getD_none, String.append_assoc, htext]

/-- Every run is one of the factory alone. In each of its states at most one timer is set, the one
that the next reset cancels, no span has more cleanups than days and one, and the status is that no
cleanup has failed. -/
theorem cleanups_spaced (P : Platform) (L : LedgerRule) (env : Env) (ledger : Ledger)
    (es : List TimedEvent) :
    Runs.Throughout (step P L) Regular (start env ledger) es ∧
      ∀ s', Runs.run (step P L) (start env ledger) es = some s' →
        Runs.run (World.step P L) (World.start env ledger) (es.flatMap TimedEvent.events) =
          some s'.world :=
  have hpunctual : Runs.Throughout (step P L) Punctual (start env ledger) es :=
    Runs.throughout_of_along (C := fun _ _ => True)
      (fun s e s' h _ ht => step_punctual s e s' h ht) (start_punctual env ledger) Runs.along_true
  ⟨hpunctual.mono fun _ h => h.regular, fun _ h => timed_refines h⟩

end Timed

end HunterFi
