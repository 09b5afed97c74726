import HunterFi.Schedule

/-!
# Executions of a strategy

An execution that awaits replies is past the test of `EXECUTION_IN_PROGRESS` and has not
returned. `exclusive_throughout` : in every run from the installation at most one execution
does, and the flag is set exactly while one does. What an execution hands to
`update_state_after_execution` is read off its flight by a handler that stops at that call
(`executionVolume`), so that the counters of the state can be compared with the executions that
have reached it.

`sequential_throughout` : after an initialisation by a proper owner the counters are those of the
executions that have been recorded, and an execution has started at least the cooldown after the
end of the last one recorded.
-/

set_option linter.unusedSectionVars false

namespace HunterFi

open SelfHedging

/-! ## Executions that wait -/

/-- The message is an execution. -/
def Message.isExecution : Message → Bool
  | executeOnce => true
  | _ => false

theorem Message.eq_of_isExecution {message : Message} (h : message.isExecution = true) :
    message = .executeOnce := by
  cases message <;> first | rfl | cases h

/-- The flight of an execution that awaits replies. -/
def Pending.isExecution (x : Pending) : Bool :=
  x.flight.message.isExecution

namespace Log

/-- The number of executions that await replies. -/
def executing (l : Log) : ℕ :=
  l.pending.countP Pending.isExecution

/-- At most one execution awaits replies, and the flag is set exactly if one does. -/
def Exclusive (l : Log) : Prop :=
  l.executing = l.memory.executionInProgress.toNat

end Log

/-! ## What a segment keeps -/

/-- The counters of the executions and the flag are the same. -/
structure SameTally (m m' : Memory) : Prop where
  flag : m'.executionInProgress = m.executionInProgress
  count : m'.state.executionCount = m.state.executionCount
  volume : m'.state.volumeGenerated = m.state.volumeGenerated
  last : m'.state.lastExecution = m.state.lastExecution
  owner : m'.state.owner = m.state.owner

namespace SameTally

theorem refl (m : Memory) : SameTally m m :=
  ⟨rfl, rfl, rfl, rfl, rfl⟩

end SameTally

variable {host : Host}

theorem Rebalanced.sameTally {m m' : Memory} (h : Rebalanced m m') : SameTally m m' := by
  obtain ⟨b, q, t, rfl⟩ := h
  exact ⟨rfl, rfl, rfl, rfl, rfl⟩

theorem SelfHedging.Trades.sameTally {env : Env} {m m' : Memory} (h : Trades host env m m') :
    SameTally m m' := by
  rcases h with ⟨b, q, t, rfl⟩ | ⟨-, -, b, q, t, rfl⟩ <;> exact ⟨rfl, rfl, rfl, rfl, rfl⟩

/-- A segment of another message keeps the counters and the flag, but that an initialisation of a
blank state resets the counters. -/
theorem Effect.sameTally {f : Flight} {m : Memory}
    {r : Memory × Async.Await Env Memory Call Reply String Unit} (h : Effect host f m r)
    (hf : f.message.isExecution = false) :
    r.1.executionInProgress = m.executionInProgress ∧
      (m.state.owner ≠ .anonymous → SameTally m r.1) := by
  cases h with
  | refused e message => exact ⟨rfl, fun _ => .refl m⟩
  | rebalances r message memory => exact ⟨memory.sameTally.flag, fun _ => memory.sameTally⟩
  | inquires r message refused inquires =>
    exact ⟨inquires.1.sameTally.flag, fun _ => inquires.1.sameTally⟩
  | initialises owner config message blank valid => exact ⟨rfl, fun h => absurd blank h⟩
  | executes r m' volume flag message trades memory =>
    rw [message] at hf
    cases hf
  | _ => exact ⟨rfl, fun _ => ⟨rfl, rfl, rfl, rfl, rfl⟩⟩

/-! ## How an execution is followed -/

/-- The volume that the flight hands to `update_state_after_execution`, if it gets there. -/
def Flight.volume (host : Host) (f : Flight) : Option ℕ :=
  match f.outcome (executionVolume host) with
  | .done volume => volume
  | _ => none

/-- The handler that waits is an execution that goes on as its trades do, which the flight
tells. -/
def Pending.Follows (host : Host) (x : Pending) : Prop :=
  ∃ k : List Reply → Handler (Option ℕ),
    Async.Unfolds (executionTrades host) x.flight.exchanges (.call x.waiting.calls k) ∧
      x.flight.outcome (executionVolume host) = .calls x.waiting.calls k ∧
        x.waiting.resume = fun rs => guarded ((k rs).bind record)

/-- The first segment of the trades gets to a call only past the cooldown. -/
theorem executionTrades_segment (host : Host) (env : Env) (m : Memory) :
    (∃ e, (executionTrades host).segment env m = (m, .failed e)) ∨
      ∀ t ∈ m.state.lastExecution, saturatingAdd t cooldownNs ≤ env.time := by
  by_cases hsoon : (m.state.lastExecution.any fun t => env.time < saturatingAdd t cooldownNs) = true
  · refine Or.inl ⟨"Previous execution may still be in progress", ?_⟩
    unfold executionTrades
    show (if (m.state.lastExecution.any fun t => env.time < saturatingAdd t cooldownNs) = true
      then _ else _ : Handler (Option ℕ)).segment env m = _
    rw [if_pos hsoon]
    rfl
  · refine Or.inr fun t ht => ?_
    simp only [Option.any_eq_true, decide_eq_true_eq, not_exists, not_and, not_lt] at hsoon
    exact hsoon t ht

namespace Log

variable {l l' : Log} {e : CanisterEvent} {s : Segment}

/-- A segment of an execution : it is refused at the entry, or goes on as its trades do, alone. -/
inductive Executes (host : Host) (l : Log) (s : Segment) : Prop
  | refused (e : String) (first : s.flight.rounds = [])
    (result : s.result = (l.memory, .failed e))
    (outcome : s.flight.outcome (executionVolume host) = .failed e)
    (others : s.others = l.pending)
  | goes (p : Handler (Option ℕ))
    (unfolds : Async.Unfolds (executionTrades host) s.flight.exchanges p)
    (outcome : s.flight.outcome (executionVolume host) =
      (p.segment s.flight.env (withFlag true l.memory)).2)
    (guards : Guards s.flight.env (p.segment s.flight.env (withFlag true l.memory)) s.result)
    (alone : s.others.countP Pending.isExecution = 0)
    (cooled : s.flight.rounds = [] →
      (∃ e, (p.segment s.flight.env (withFlag true l.memory)).2 = .failed e) ∨
        ∀ t ∈ l.memory.state.lastExecution, saturatingAdd t cooldownNs ≤ s.flight.arrival.time)

/-- What the trades of an execution do in a segment. -/
theorem trades_segment {xs : List (Async.Exchange Call Reply)} {p : Handler (Option ℕ)}
    (hp : Async.Unfolds (executionTrades host) xs p) (env : Env) (m : Memory) :
    Trades host env m (p.segment env m).1 :=
  (((changes_trades host).unfolds hp).segment (Trades.refl host env)
    (fun _ _ _ => .trans) m).1

theorem withFlag_self {m : Memory} {flag : Bool} (h : m.executionInProgress = flag) :
    withFlag flag m = m := by
  rw [← h]
  rfl

/-- The first segment of an execution. -/
theorem executes_first (hl : l.Exclusive) (env : Env) {received : ℕ} :
    Executes host l ⟨⟨.executeOnce, received, [], env, l.memory⟩,
      Message.executeOnce.handler host, l.pending⟩ := by
  rcases executeOnce_segment host env l.memory with ⟨-, e, hrefused, hvolume⟩ |
    ⟨⟨-, hflag⟩, hvolume, hguards⟩
  · exact .refused e rfl hrefused (congrArg Prod.snd hvolume) rfl
  · refine .goes _ (.refl _) (congrArg Prod.snd hvolume) hguards ?_ fun _ => ?_
    · rw [Exclusive, hflag] at hl
      exact hl
    · rcases executionTrades_segment host env (withFlag true l.memory) with ⟨e, he⟩ | ht
      · exact Or.inl ⟨e, congrArg Prod.snd he⟩
      · exact Or.inr ht

/-- The executions that wait besides the handler that replies resume. -/
theorem countP_eraseIdx {i : ℕ} {x : Pending} (hx : l.pending[i]? = some x) :
    (l.pending.eraseIdx i).countP Pending.isExecution + x.isExecution.toNat = l.executing := by
  obtain ⟨hi, rfl⟩ := List.getElem?_eq_some_iff.1 hx
  have h := (List.getElem_cons_eraseIdx_perm hi).countP_eq Pending.isExecution
  rw [executing, ← h, List.countP_cons]
  cases l.pending[i].isExecution <;> rfl

/-- A later segment of an execution. -/
theorem executes_resumed (hl : l.Exclusive) {i : ℕ} {x : Pending} (hx : l.pending[i]? = some x)
    (hm : x.flight.message = .executeOnce) (hfollows : x.Follows host) (env : Env)
    {replies : List Reply} (hlen : replies.length = x.waiting.calls.length) :
    Executes host l ⟨x.flight.resumed x.waiting.calls replies env l.memory,
      x.waiting.resume replies, l.pending.eraseIdx i⟩ := by
  obtain ⟨k, hk, houtcome, hresume⟩ := hfollows
  have hone : x.isExecution = true := by rw [Pending.isExecution, hm]; rfl
  have hcount := countP_eraseIdx hx
  rw [hone, hl] at hcount
  have hflag : l.memory.executionInProgress = true := by
    cases h : l.memory.executionInProgress with
    | true => rfl
    | false => simp [h] at hcount
  refine .goes (k replies) ?_ ?_ ?_ ?_ fun hfirst => ?_
  · rw [Flight.exchanges_resumed]
    exact hk.snoc hlen
  · rw [withFlag_self hflag]
    exact x.flight.outcome_resumed _ replies env l.memory houtcome
  · rw [withFlag_self hflag, Segment.result]
    simp only [hresume]
    exact guarded_segment _ _ _
  · rw [hflag] at hcount
    simpa using hcount
  · simp [Flight.resumed] at hfirst

/-- The log is sound, each execution that waits is followed, and it is alone. -/
structure Serial (host : Host) (l : Log) : Prop where
  sound : l.Sound host
  follows : ∀ x ∈ l.pending, x.isExecution = true → x.Follows host
  exclusive : l.Exclusive

theorem serial_start {m : Memory} (hm : m.timers.Tidy) (hflag : m.executionInProgress = false) :
    (start m).Serial host :=
  ⟨sound_start hm, fun _ hx => (nomatch hx), by rw [Exclusive, start, hflag]; rfl⟩

theorem Enters.executes (he : l.Enters host e s) (hl : l.Serial host)
    (hm : s.flight.message = .executeOnce) : Executes host l s := by
  cases he with
  | message env message hself =>
    obtain rfl : message = .executeOnce := hm
    exact executes_first hl.exclusive env
  | timer time cycles hlive => exact executes_first hl.exclusive _
  | replies i time cycles replies x hx hlen =>
    have hone : x.isExecution = true := by
      rw [Pending.isExecution, show x.flight.message = _ from hm]
      rfl
    exact executes_resumed hl.exclusive hx hm (hl.follows x (List.mem_of_getElem? hx) hone) _ hlen

/-- What waits after a segment, by how it ends. -/
theorem pending_land (l : Log) (s : Segment) :
    ((∀ calls k, s.result.2 ≠ .calls calls k) ∧ (l.land s).pending = s.others) ∨
      ∃ calls k, s.result.2 = .calls calls k ∧
        (l.land s).pending = ⟨s.flight, ⟨s.flight.env.caller, calls, k⟩⟩ :: s.others := by
  unfold land
  generalize hr : s.result = r
  obtain ⟨m, ⟨u⟩ | ⟨e⟩ | ⟨calls, k⟩⟩ := r
  · exact Or.inl ⟨nofun, rfl⟩
  · exact Or.inl ⟨nofun, rfl⟩
  · exact Or.inr ⟨calls, k, rfl, rfl⟩

/-- A segment of another message leaves the executions that wait. -/
theorem Enters.executing_land (he : l.Enters host e s)
    (hm : s.flight.message.isExecution = false) : (l.land s).executing = l.executing := by
  have hothers : s.others.countP Pending.isExecution = l.executing := by
    cases he with
    | replies i time cycles replies x hx hlen =>
      have hnot : x.isExecution = false := hm
      have hcount := countP_eraseIdx hx
      rwa [hnot] at hcount
    | _ => rfl
  rcases pending_land l s with ⟨-, hpending⟩ | ⟨calls, k, -, hpending⟩
  · rw [executing, hpending, hothers]
  · rw [executing, hpending, List.countP_cons_of_neg (by simp [Pending.isExecution, hm]), hothers]

/-- Of an execution that goes on, only that execution waits, with the flag set, or none does. -/
theorem Executes.exclusive_land (h : Executes host l s) (hl : l.Exclusive)
    (hm : s.flight.message.isExecution = true) : (l.land s).Exclusive := by
  cases h with
  | refused e first result outcome others =>
    rcases pending_land l s with ⟨-, hpending⟩ | ⟨calls, k, hcalls, -⟩
    · rw [Exclusive, executing, hpending, others, memory_land, result]
      exact hl
    · rw [result] at hcalls
      cases hcalls
  | goes p unfolds outcome guards alone cooled =>
    have htrades := trades_segment unfolds s.flight.env (withFlag true l.memory)
    generalize hr : s.result = r' at guards
    rcases pending_land l s with ⟨hlast, hpending⟩ | ⟨calls, k, hcalls, hpending⟩
    · rw [hr] at hlast
      rw [Exclusive, executing, hpending, alone, memory_land, hr]
      cases guards with
      | done volume h => rfl
      | failed e h => rfl
      | calls calls k h => exact absurd rfl (hlast _ _)
    · rw [hr] at hcalls
      rw [Exclusive, executing, hpending, List.countP_cons_of_pos (by exact hm), alone,
        memory_land, hr]
      cases guards with
      | done volume h => cases hcalls
      | failed e h => cases hcalls
      | calls calls k h => rw [htrades.sameTally.flag]; rfl

/-- An execution that awaits more is followed. -/
theorem Executes.follows (h : Executes host l s) {calls : List Call}
    {k : List Reply → Handler Unit} (hcalls : s.result.2 = .calls calls k) :
    Pending.Follows host ⟨s.flight, ⟨s.flight.env.caller, calls, k⟩⟩ := by
  cases h with
  | refused e first result outcome others =>
    rw [result] at hcalls
    cases hcalls
  | goes p unfolds outcome guards alone cooled =>
    generalize hr : s.result = r' at guards hcalls
    cases guards with
    | done volume h => cases hcalls
    | failed e h => cases hcalls
    | calls calls k h =>
      cases hcalls
      refine ⟨k, ?_, outcome.trans h, rfl⟩
      simpa using unfolds.trans (Async.unfolds_segment h)

theorem Enters.serial (he : l.Enters host e s) (hl : l.Serial host) : (l.land s).Serial host := by
  refine ⟨he.sound hl.sound, fun x hx hone => ?_, ?_⟩
  · rcases mem_pending_land hx with hx | ⟨calls, k, hcalls, rfl⟩
    · exact hl.follows x (he.others x hx) hone
    · exact (he.executes hl (Message.eq_of_isExecution hone)).follows hcalls
  · cases hm : s.flight.message.isExecution with
    | true => exact (he.executes hl (Message.eq_of_isExecution hm)).exclusive_land hl.exclusive hm
    | false =>
      rw [Exclusive, he.executing_land hm, memory_land,
        ((he.effect hl.sound.traced).sameTally hm).1]
      exact hl.exclusive

theorem step_serial (hl : l.Serial host) (hs : l.step host e = some l') : l'.Serial host := by
  rcases step_cases hs with ⟨-, rfl⟩ | ⟨s, he, rfl⟩
  · exact ⟨sound_upgraded l, fun _ hx => (nomatch hx), rfl⟩
  · exact he.serial hl

/-- At most one execution waits, and the flag is set exactly while one does. -/
theorem exclusive_throughout (host : Host) (es : List CanisterEvent) :
    Runs.Throughout (step host) (Serial host) (start .installed) es :=
  Runs.throughout_of_step (fun _ _ _ => step_serial) es (serial_start Timers.tidy_initial rfl)

end Log

/-! ## The counters -/

/-- The volume that the flight has recorded, if it is an execution that has. -/
def Finished.volume (host : Host) (x : Finished) : Option ℕ :=
  if x.flight.message.isExecution then x.flight.volume host else none

namespace Log

variable {l l' : Log} {e : CanisterEvent} {s : Segment}

/-- The volumes of the executions that have been recorded, with the times of their ends. The last
one comes first. -/
def recorded (host : Host) (l : Log) : List (ℕ × ℕ) :=
  l.finished.filterMap fun x => (x.volume host).map fun v => (v, x.flight.env.time)

theorem recorded_land_of_ne (h : s.flight.message.isExecution = true →
    ∀ v, s.flight.outcome (executionVolume host) ≠ .done (some v)) :
    (l.land s).recorded host = l.recorded host := by
  rcases finished_land l s with ⟨-, heq⟩ | ⟨x, hx, heq⟩
  · rw [recorded, heq, recorded]
  · have hnone : x.volume host = none := by
      unfold Finished.volume Flight.volume
      rw [hx.flight]
      split_ifs with hm
      · have := h hm
        cases ho : s.flight.outcome (executionVolume host) with
        | done v => cases v with
          | none => rfl
          | some v => exact absurd ho (this v)
        | failed e => rfl
        | calls calls k => rfl
      · rfl
    rw [recorded, heq, List.filterMap_cons_none (by rw [hnone]; rfl), recorded]

theorem recorded_land_of_eq (hm : s.flight.message.isExecution = true) {v : ℕ}
    (ho : s.flight.outcome (executionVolume host) = .done (some v))
    (hlast : ∀ calls k, s.result.2 ≠ .calls calls k) :
    (l.land s).recorded host = (v, s.flight.env.time) :: l.recorded host := by
  rcases finished_land l s with ⟨⟨calls, k, hcalls⟩, -⟩ | ⟨x, hx, heq⟩
  · exact absurd hcalls (hlast calls k)
  · have hsome : x.volume host = some v := by
      unfold Finished.volume Flight.volume
      rw [hx.flight, if_pos hm, ho]
    rw [recorded, heq, List.filterMap_cons_some (by rw [hsome]; rfl), recorded, hx.flight]

/-- The counters of the state are those of the executions that have been recorded, and those that
wait have started after the cooldown. -/
structure Tallied (host : Host) (l : Log) : Prop where
  serial : l.Serial host
  owned : l.memory.state.owner ≠ .anonymous
  count : l.memory.state.executionCount = (l.recorded host).length % 2 ^ 64
  volume : l.memory.state.volumeGenerated = ((l.recorded host).map Prod.fst).sum % 2 ^ 128
  last : l.memory.state.lastExecution = (l.recorded host).head?.map Prod.snd
  cooled : ∀ x ∈ l.pending, x.isExecution = true → ∀ t ∈ l.memory.state.lastExecution,
    saturatingAdd t cooldownNs ≤ x.flight.arrival.time

/-- A segment that records nothing, if what waits after it is cooled. -/
theorem Tallied.land (hl : l.Tallied host) (he : l.Enters host e s)
    (htally : l.memory.state.owner ≠ .anonymous → s.result.1.state.executionCount =
      l.memory.state.executionCount ∧ s.result.1.state.volumeGenerated =
        l.memory.state.volumeGenerated ∧ s.result.1.state.lastExecution =
          l.memory.state.lastExecution ∧ s.result.1.state.owner = l.memory.state.owner)
    (hrecorded : (l.land s).recorded host = l.recorded host)
    (hcooled : ∀ x ∈ (l.land s).pending, x.isExecution = true →
      ∀ t ∈ l.memory.state.lastExecution, saturatingAdd t cooldownNs ≤ x.flight.arrival.time) :
    (l.land s).Tallied host := by
  obtain ⟨hcount, hvolume, hlast, howner⟩ := htally hl.owned
  refine ⟨he.serial hl.serial, ?_, ?_, ?_, ?_, ?_⟩
  · rw [memory_land, howner]
    exact hl.owned
  · rw [memory_land, hcount, hrecorded]
    exact hl.count
  · rw [memory_land, hvolume, hrecorded]
    exact hl.volume
  · rw [memory_land, hlast, hrecorded]
    exact hl.last
  · rw [memory_land, hlast]
    exact hcooled

/-- A segment that records the volume `v`, after which no execution waits. -/
theorem Tallied.records (hl : l.Tallied host) (he : l.Enters host e s) {v : ℕ}
    (hrecorded : (l.land s).recorded host = (v, s.flight.env.time) :: l.recorded host)
    (howner : s.result.1.state.owner = l.memory.state.owner)
    (hcount : s.result.1.state.executionCount = (l.memory.state.executionCount + 1) % 2 ^ 64)
    (hvolume : s.result.1.state.volumeGenerated =
      (l.memory.state.volumeGenerated + v) % 2 ^ 128)
    (hlast : s.result.1.state.lastExecution = some s.flight.env.time)
    (hpending : ∀ x ∈ (l.land s).pending, ¬x.isExecution = true) : (l.land s).Tallied host := by
  refine ⟨he.serial hl.serial, ?_, ?_, ?_, ?_, fun x hx hone => absurd hone (hpending x hx)⟩
  · rw [memory_land, howner]
    exact hl.owned
  · rw [memory_land, hcount, hrecorded, List.length_cons, hl.count]
    exact Nat.mod_add_mod _ _ _
  · rw [memory_land, hvolume, hrecorded, List.map_cons, List.sum_cons, hl.volume, Nat.add_comm v]
    exact Nat.mod_add_mod _ _ _
  · rw [memory_land, hlast, hrecorded]
    rfl

/-- An execution that awaits more has started after the cooldown. -/
theorem Tallied.cooled_flight (hl : l.Tallied host) (he : l.Enters host e s)
    (hm : s.flight.message.isExecution = true) (hrounds : s.flight.rounds ≠ []) :
    ∀ t ∈ l.memory.state.lastExecution, saturatingAdd t cooldownNs ≤ s.flight.arrival.time := by
  cases he with
  | message env message hself => exact absurd rfl hrounds
  | timer time cycles hlive => exact absurd rfl hrounds
  | replies i time cycles replies x hx hlen =>
    rw [Flight.arrival_resumed]
    exact hl.cooled x (List.mem_of_getElem? hx) hm

theorem Enters.tallied (he : l.Enters host e s) (hl : l.Tallied host) :
    (l.land s).Tallied host := by
  cases hm : s.flight.message.isExecution with
  | false =>
    have htally := ((he.effect hl.serial.sound.traced).sameTally hm).2
    refine hl.land he (fun howned => ?_) (recorded_land_of_ne fun h => ?_) fun x hx hone => ?_
    · have h := htally howned
      exact ⟨h.count, h.volume, h.last, h.owner⟩
    · rw [hm] at h
      cases h
    · rcases mem_pending_land hx with hx | ⟨calls, k, -, rfl⟩
      · exact hl.cooled x (he.others x hx) hone
      · rw [Pending.isExecution, hm] at hone
        cases hone
  | true =>
    cases he.executes hl.serial (Message.eq_of_isExecution hm) with
    | refused e first result outcome others =>
      refine hl.land he (fun _ => ?_) (recorded_land_of_ne fun _ v => ?_) fun x hx hone => ?_
      · rw [result]
        exact ⟨rfl, rfl, rfl, rfl⟩
      · rw [outcome]
        exact nofun
      · rcases mem_pending_land hx with hx | ⟨calls, k, hcalls, -⟩
        · exact hl.cooled x (he.others x hx) hone
        · rw [result] at hcalls
          cases hcalls
    | goes p unfolds outcome guards alone cooled =>
      have htally := (trades_segment unfolds s.flight.env (withFlag true l.memory)).sameTally
      have hothers : ∀ x ∈ s.others, ¬x.isExecution = true := List.countP_eq_zero.1 alone
      generalize hr : s.result = r' at guards
      cases guards with
      | done volume h =>
        have hlast : ∀ calls k, s.result.2 ≠ .calls calls k := by
          rw [hr]
          exact fun _ _ => nofun
        have hpending : ∀ x ∈ (l.land s).pending, ¬x.isExecution = true := by
          rcases pending_land l s with ⟨-, heq⟩ | ⟨calls, k, hcalls, -⟩
          · rw [heq]
            exact hothers
          · exact absurd hcalls (hlast _ _)
        cases volume with
        | none =>
          refine hl.land he (fun _ => ?_) (recorded_land_of_ne fun _ v => ?_) fun x hx hone =>
            absurd hone (hpending x hx)
          · rw [hr]
            exact ⟨htally.count, htally.volume, htally.last, htally.owner⟩
          · rw [outcome, h]
            exact nofun
        | some v =>
          -- the execution reaches `update_state_after_execution`
          have hrecorded := recorded_land_of_eq (l := l) hm (outcome.trans h) hlast
          refine hl.records he hrecorded ?_ ?_ ?_ ?_ hpending
          · rw [hr]
            exact htally.owner
          · rw [hr]
            exact congrArg (fun n => (n + 1) % 2 ^ 64) htally.count
          · rw [hr]
            exact congrArg (fun n => (n + v) % 2 ^ 128) htally.volume
          · rw [hr]
            rfl
      | failed e h =>
        refine hl.land he (fun _ => ?_) (recorded_land_of_ne fun _ v => ?_) fun x hx hone => ?_
        · rw [hr]
          exact ⟨htally.count, htally.volume, htally.last, htally.owner⟩
        · rw [outcome, h]
          exact nofun
        · rcases mem_pending_land hx with hx | ⟨calls, k, hcalls, -⟩
          · exact absurd hone (hothers x hx)
          · rw [hr] at hcalls
            cases hcalls
      | calls calls k h =>
        refine hl.land he (fun _ => ?_) (recorded_land_of_ne fun _ v => ?_) fun x hx hone => ?_
        · rw [hr]
          exact ⟨htally.count, htally.volume, htally.last, htally.owner⟩
        · rw [outcome, h]
          exact nofun
        · rcases mem_pending_land hx with hx | ⟨calls, k, hcalls, rfl⟩
          · exact absurd hone (hothers x hx)
          · by_cases hrounds : s.flight.rounds = []
            · rcases cooled hrounds with ⟨e, he⟩ | hcool
              · exact nomatch h.symm.trans he
              · exact hcool
            · exact hl.cooled_flight he hm hrounds

theorem step_tallied (hl : l.Tallied host) (hs : l.step host e = some l') : l'.Tallied host := by
  rcases step_cases hs with ⟨-, rfl⟩ | ⟨s, he, rfl⟩
  · exact ⟨step_serial (e := .upgrade) hl.serial rfl, hl.owned, hl.count, hl.volume, hl.last,
      fun _ hx => (nomatch hx)⟩
  · exact he.tallied hl

/-! ## Executions are sequential -/

/-- Executions do not overlap, and the counters are those of the executions that have been
recorded. An execution that waits is past the test of the flag. -/
structure Sequential (host : Host) (l : Log) : Prop where
  one : l.executing ≤ 1
  flag : l.memory.executionInProgress = true ↔ l.executing = 1
  /-- An execution that comes while one waits is refused and changes nothing. -/
  overlap : ∀ e s, l.segment host e = some s → s.flight.message = .executeOnce →
    s.flight.rounds = [] → l.executing = 1 →
      (l.land s).memory = l.memory ∧ (l.land s).pending = l.pending
  /-- An execution that waits has started after the cooldown of the last one recorded. -/
  cooled : ∀ x ∈ l.pending, x.flight.message = .executeOnce → ∀ r ∈ (l.recorded host).head?,
    r.2 + cooldownNs < u64Max → r.2 + cooldownNs ≤ x.flight.arrival.time
  count : (l.recorded host).length < 2 ^ 64 →
    l.memory.state.executionCount = (l.recorded host).length
  volume : ((l.recorded host).map Prod.fst).sum < 2 ^ 128 →
    l.memory.state.volumeGenerated = ((l.recorded host).map Prod.fst).sum

/-- An execution that comes while another one waits is refused. -/
theorem Serial.overlap (hl : l.Serial host) (he : l.Enters host e s)
    (hm : s.flight.message = .executeOnce) (hfirst : s.flight.rounds = [])
    (hone : l.executing = 1) :
    (l.land s).memory = l.memory ∧ (l.land s).pending = l.pending := by
  have hothers : s.others = l.pending := by
    cases he with
    | replies i time cycles replies x hx hlen => simp [Flight.resumed] at hfirst
    | _ => rfl
  cases he.executes hl hm with
  | refused e first result outcome others =>
    refine ⟨by rw [memory_land, result], ?_⟩
    rcases pending_land l s with ⟨-, hpending⟩ | ⟨calls, k, hcalls, -⟩
    · rw [hpending, others]
    · rw [result] at hcalls
      cases hcalls
  | goes p unfolds outcome guards alone cooled =>
    rw [hothers] at alone
    exact absurd (hone.symm.trans alone) one_ne_zero

theorem Tallied.sequential (hl : l.Tallied host) : l.Sequential host := by
  have hexclusive := hl.serial.exclusive
  refine ⟨?_, ?_, fun e s hs hm hfirst hone => ?_, fun x hx hm r hr hfits => ?_, fun hlt => ?_,
    fun hlt => ?_⟩
  · rw [hexclusive]
    exact Bool.toNat_le _
  · rw [hexclusive]
    cases l.memory.executionInProgress <;> simp
  · exact hl.serial.overlap (segment_eq_some hs) hm hfirst hone
  · have hlast : r.2 ∈ l.memory.state.lastExecution := by
      rw [hl.last]
      exact Option.mem_map_of_mem _ hr
    have hone : x.isExecution = true := by
      rw [Pending.isExecution, hm]
      rfl
    have hcooled := hl.cooled x hx hone _ hlast
    rwa [saturatingAdd, Nat.min_eq_left hfits.le] at hcooled
  · rw [hl.count, Nat.mod_eq_of_lt hlt]
  · rw [hl.volume, Nat.mod_eq_of_lt hlt]

/-- Executions are sequential in every run after an initialisation by a proper owner with no call
in flight. -/
theorem sequential_throughout (host : Host) {es₀ : List CanisterEvent} {c : Canister}
    (hrun : Runs.run (Canister.step host) .installed es₀ = some c) (hidle : c.waiting = [])
    {owner : Principal} {config : SelfHedgingConfig} {env : Env} {m : Memory}
    (howner : owner ≠ .anonymous) (hinit : initSelfHedging owner config env c.memory = .ok m)
    (es : List CanisterEvent) : Runs.Throughout (step host) (Sequential host) (start m) es := by
  have hmap := Runs.run_map (step_canister host) es₀ (start .installed)
  rw [show (start .installed).canister = .installed from rfl, hrun] at hmap
  obtain ⟨l, hl, rfl⟩ := Option.map_eq_some_iff.1 hmap
  have hserial := (exclusive_throughout host es₀).last hl
  obtain ⟨-, -, rfl⟩ := initSelfHedging_eq_ok.1 hinit
  have hflag : l.memory.executionInProgress = false := by
    have hexclusive := hserial.exclusive
    rw [Exclusive, executing, List.map_eq_nil_iff.1 hidle] at hexclusive
    cases h : l.memory.executionInProgress with
    | false => rfl
    | true =>
      rw [h] at hexclusive
      cases hexclusive
  have hstart : (start { l.memory with state := newState owner config }).Tallied host :=
    ⟨serial_start hserial.sound.tidy hflag, howner, rfl, rfl, rfl, fun _ hx => (nomatch hx)⟩
  exact (Runs.throughout_of_step (fun _ _ _ => step_tallied) es hstart).mono
    fun l hl => hl.sequential

end Log

/-! ## A sample run -/

namespace Sample

/-- A swap that brings in `n`. -/
def swapped (n : ℕ) : Reply :=
  .amount (.ok n)

/-- An execution that sells the transaction size and buys back what that brings in. -/
def executes : List CanisterEvent :=
  [.timer 10 0, answers 0 11 poolFound, answers 0 12 balanceFound, answers 0 13 poolFound,
    answers 0 14 (swapped 300), answers 0 15 (swapped 999), answers 0 16 poolFound,
    answers 0 17 balanceFound]

/-- The strategy is started and executes once. -/
def startsAndExecutes : List CanisterEvent :=
  inquires ++ [approves] ++ executes

example : (Runs.run (Log.step sampleHost) (.start initialised) startsAndExecutes).map
    (Log.recorded sampleHost) = some [(1000300, 17)] := by
  decide +kernel

end Sample

/-- The executions of a strategy that is installed, initialised and started. -/
theorem Log.sequential_throughout_executes : Runs.Throughout (step sampleHost)
    (Sequential sampleHost) (start Sample.initialised) Sample.startsAndExecutes :=
  sequential_throughout sampleHost (Runs.run_nil Canister.installed) rfl (by decide)
    (Sample.initialises_hedgeConfig ⟨0, Sample.strategist, 0⟩) Sample.startsAndExecutes

end HunterFi
