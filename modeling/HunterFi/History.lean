import HunterFi.Runs
import HunterFi.Strategy
import HunterFi.Unfold

/-!
# The history of a strategy canister

A `Log` is a strategy canister with a record of its messages : a `Flight` is a message with the
rounds of calls and replies it has been through, and the log keeps those that await replies,
those that have finished, with their results, and those that an upgrade has dropped. It
only looks on : `step_canister` says that the canister in it makes the steps of `Canister.step`.

`Enters` says which segment an event runs, `step_cases` that a step is such a segment or an
upgrade. `Traced` ties a waiting handler to its flight : it is what the handler of the message
is after the rounds of the flight.
-/

set_option linter.unusedSectionVars false

namespace HunterFi

open SelfHedging

/-! ## Flights -/

/-- A segment that ended with calls, and the replies to them. -/
structure Round where
  env : Env
  memory : Memory
  calls : List Call
  replies : List Reply

/-- A message, the number of events before it, the rounds that it has been through, and where
its present segment runs. -/
structure Flight where
  message : Message
  received : ℕ
  rounds : List Round
  env : Env
  memory : Memory

namespace Flight

/-- The calls of the rounds with their replies. -/
def exchanges (f : Flight) : List (Async.Exchange Call Reply) :=
  f.rounds.map fun r => ⟨r.calls, r.replies⟩

/-- Where the segments of the rounds ran, with the replies that followed. -/
def turns (f : Flight) : List (Async.Turn Env Memory Reply) :=
  f.rounds.map fun r => ⟨r.env, r.memory, r.replies⟩

/-- The environment in which the message came. -/
def arrival (f : Flight) : Env :=
  (f.rounds.head?.map Round.env).getD f.env

/-- The memory in which the message came. -/
def arrivalMemory (f : Flight) : Memory :=
  (f.rounds.head?.map Round.memory).getD f.memory

/-- How a handler that takes the turns of the flight stands at the end of the present one. -/
def outcome {α : Type} (f : Flight) (p : Handler α) : Async.Await Env Memory Call Reply String α :=
  Async.replay f.turns p f.env f.memory

/-- The flight once its calls have replies. -/
def resumed (f : Flight) (calls : List Call) (replies : List Reply) (env : Env) (m : Memory) :
    Flight :=
  { f with
    rounds := f.rounds ++ [⟨f.env, f.memory, calls, replies⟩]
    env := env
    memory := m }

variable (f : Flight) (calls : List Call) (replies : List Reply) (env : Env) (m : Memory)

@[simp] theorem message_resumed : (f.resumed calls replies env m).message = f.message :=
  rfl

@[simp] theorem received_resumed : (f.resumed calls replies env m).received = f.received :=
  rfl

@[simp] theorem env_resumed : (f.resumed calls replies env m).env = env :=
  rfl

@[simp] theorem memory_resumed : (f.resumed calls replies env m).memory = m :=
  rfl

@[simp] theorem exchanges_resumed :
    (f.resumed calls replies env m).exchanges = f.exchanges ++ [⟨calls, replies⟩] :=
  List.map_append

@[simp] theorem arrival_resumed : (f.resumed calls replies env m).arrival = f.arrival := by
  unfold arrival resumed
  cases f.rounds <;> rfl

@[simp] theorem arrivalMemory_resumed :
    (f.resumed calls replies env m).arrivalMemory = f.arrivalMemory := by
  unfold arrivalMemory resumed
  cases f.rounds <;> rfl

/-- A handler that awaits replies at the end of a turn goes on with them in the next one. -/
theorem outcome_resumed {α : Type} {p : Handler α} {k : List Reply → Handler α}
    (h : f.outcome p = .calls calls k) :
    (f.resumed calls replies env m).outcome p = ((k replies).segment env m).2 := by
  unfold outcome turns resumed
  rw [List.map_append]
  exact Async.replay_snoc ⟨f.env, f.memory, replies⟩ f.turns env m h

end Flight

/-- A flight whose handler awaits replies. -/
structure Pending where
  flight : Flight
  waiting : Waiting

/-- A flight that has ended, with its result, the memory after it and the number of events
before its end. -/
structure Finished where
  flight : Flight
  result : Except String Unit
  memory : Memory
  ended : ℕ

/-! ## The log -/

/-- A strategy canister with the record of its messages. -/
structure Log where
  memory : Memory
  pending : List Pending
  finished : List Finished
  dropped : List Flight
  clock : ℕ

/-- A segment that an event runs, and what waits besides. -/
structure Segment where
  flight : Flight
  handler : Handler Unit
  others : List Pending

namespace Segment

/-- The memory after the segment, and how it ends. -/
def result (s : Segment) : Memory × Async.Await Env Memory Call Reply String Unit :=
  s.handler.segment s.flight.env s.flight.memory

end Segment

namespace Log

/-- The canister of the log. -/
def canister (l : Log) : Canister :=
  ⟨l.memory, l.pending.map Pending.waiting⟩

/-- The log of a canister in which nothing waits. -/
def start (m : Memory) : Log :=
  ⟨m, [], [], [], 0⟩

/-- The segment that a message or replies run. -/
def segment (host : Host) (l : Log) : CanisterEvent → Option Segment
  | .message env message =>
    if env.caller = host.id then none
    else some ⟨⟨message, l.clock, [], env, l.memory⟩, message.handler host, l.pending⟩
  | .timer time cycles =>
    if l.memory.timers.live = [] then none
    else some ⟨⟨.executeOnce, l.clock, [], ⟨time, host.id, cycles⟩, l.memory⟩,
      SelfHedging.executeOnce host, l.pending⟩
  | .replies i time cycles replies =>
    match l.pending[i]? with
    | none => none
    | some x =>
      if replies.length ≠ x.waiting.calls.length then none
      else some ⟨x.flight.resumed x.waiting.calls replies ⟨time, x.waiting.caller, cycles⟩ l.memory,
        x.waiting.resume replies, l.pending.eraseIdx i⟩
  | .upgrade => none

/-- The log after a segment. -/
def land (l : Log) (s : Segment) : Log :=
  match s.result with
  | (m, .done _) =>
    ⟨m, s.others, ⟨s.flight, .ok (), m, l.clock⟩ :: l.finished, l.dropped, l.clock + 1⟩
  | (m, .failed e) =>
    ⟨m, s.others, ⟨s.flight, .error e, m, l.clock⟩ :: l.finished, l.dropped, l.clock + 1⟩
  | (m, .calls calls k) =>
    ⟨m, ⟨s.flight, ⟨s.flight.env.caller, calls, k⟩⟩ :: s.others, l.finished, l.dropped, l.clock + 1⟩

/-- The log after an upgrade. -/
def upgraded (l : Log) : Log :=
  ⟨l.memory.upgrade, [], l.finished, l.pending.map Pending.flight ++ l.dropped, l.clock + 1⟩

/-- One event. -/
def step (host : Host) (l : Log) (e : CanisterEvent) : Option Log :=
  match e with
  | .upgrade => some l.upgraded
  | e => (l.segment host e).map l.land

variable {host : Host} {l l' : Log} {e : CanisterEvent} {s : Segment}

/-! ## The log looks on -/

@[simp] theorem memory_land (l : Log) (s : Segment) : (l.land s).memory = s.result.1 := by
  unfold land
  generalize s.result = r
  obtain ⟨m, ⟨⟩ | ⟨⟩ | ⟨⟩⟩ := r <;> rfl

@[simp] theorem clock_land (l : Log) (s : Segment) : (l.land s).clock = l.clock + 1 := by
  unfold land
  generalize s.result = r
  obtain ⟨m, ⟨⟩ | ⟨⟩ | ⟨⟩⟩ := r <;> rfl

@[simp] theorem dropped_land (l : Log) (s : Segment) : (l.land s).dropped = l.dropped := by
  unfold land
  generalize s.result = r
  obtain ⟨m, ⟨⟩ | ⟨⟩ | ⟨⟩⟩ := r <;> rfl

theorem canister_land (l : Log) (s : Segment) (hs : s.flight.memory = l.memory) :
    (l.land s).canister =
      Canister.advance ⟨l.memory, s.others.map Pending.waiting⟩ s.flight.env s.handler := by
  unfold land Canister.advance Segment.result
  rw [hs]
  generalize s.handler.segment s.flight.env l.memory = r
  obtain ⟨m, ⟨⟩ | ⟨⟩ | ⟨⟩⟩ := r <;> rfl

/-- The canister of the log takes the steps of the canister. -/
theorem step_canister (host : Host) (l : Log) (e : CanisterEvent) :
    (l.step host e).map canister = l.canister.step host e := by
  cases e with
  | message env message =>
    by_cases hself : env.caller = host.id
    · simp only [step, segment, Canister.step, if_pos hself, Option.map_none]
    · simp only [step, segment, Canister.step, if_neg hself, Option.map_some]
      exact congrArg some (canister_land l _ rfl)
  | timer time cycles =>
    have hcanister : l.canister.memory.timers.live = l.memory.timers.live := rfl
    by_cases hlive : l.memory.timers.live = []
    · simp only [step, segment, Canister.step, hcanister, if_pos hlive, Option.map_none]
    · simp only [step, segment, Canister.step, hcanister, if_neg hlive, Option.map_some]
      exact congrArg some (canister_land l _ rfl)
  | replies i time cycles replies =>
    have hget : l.canister.waiting[i]? = l.pending[i]?.map Pending.waiting := List.getElem?_map
    simp only [step, segment, Canister.step, hget]
    cases l.pending[i]? with
    | none => rfl
    | some x =>
      simp only [Option.map_some]
      split_ifs
      · rfl
      · refine congrArg some ((canister_land l _ rfl).trans ?_)
        simp only [canister, List.eraseIdx_map]
        rfl
  | upgrade => rfl

/-! ## Steps -/

/-- The segments that an event may run : the first one of a message, or one that replies
resume. -/
inductive Enters (host : Host) (l : Log) : CanisterEvent → Segment → Prop
  | message (env : Env) (message : Message) (hself : env.caller ≠ host.id) :
    Enters host l (.message env message)
      ⟨⟨message, l.clock, [], env, l.memory⟩, message.handler host, l.pending⟩
  | timer (time cycles : ℕ) (hlive : l.memory.timers.live ≠ []) :
    Enters host l (.timer time cycles)
      ⟨⟨.executeOnce, l.clock, [], ⟨time, host.id, cycles⟩, l.memory⟩,
        Message.executeOnce.handler host, l.pending⟩
  | replies (i time cycles : ℕ) (replies : List Reply) (x : Pending) (hx : l.pending[i]? = some x)
    (hlen : replies.length = x.waiting.calls.length) :
    Enters host l (.replies i time cycles replies)
      ⟨x.flight.resumed x.waiting.calls replies ⟨time, x.waiting.caller, cycles⟩ l.memory,
        x.waiting.resume replies, l.pending.eraseIdx i⟩

theorem segment_eq_some (h : l.segment host e = some s) : l.Enters host e s := by
  cases e with
  | message env message =>
    simp only [segment] at h
    split_ifs at h with hself
    obtain rfl := Option.some.inj h
    exact .message env message hself
  | timer time cycles =>
    simp only [segment] at h
    split_ifs at h with hlive
    obtain rfl := Option.some.inj h
    exact .timer time cycles hlive
  | replies i time cycles replies =>
    simp only [segment] at h
    cases hx : l.pending[i]? with
    | none => simp [hx] at h
    | some x =>
      simp only [hx] at h
      split_ifs at h with hlen
      obtain rfl := Option.some.inj h
      exact .replies i time cycles replies x hx (not_not.1 hlen)
  | upgrade => cases h

theorem Enters.segment_eq (h : l.Enters host e s) : l.segment host e = some s := by
  cases h with
  | message env message hself => simp only [segment, if_neg hself]
  | timer time cycles hlive => simp only [segment, if_neg hlive, Message.handler]
  | replies i time cycles replies x hx hlen => simp [segment, hx, hlen]

/-- A step is an upgrade or a segment. -/
theorem step_cases (h : l.step host e = some l') :
    (e = .upgrade ∧ l' = l.upgraded) ∨ ∃ s, l.Enters host e s ∧ l' = l.land s := by
  cases e with
  | upgrade => exact Or.inl ⟨rfl, (Option.some.inj h).symm⟩
  | _ =>
    obtain ⟨s, hs, rfl⟩ := Option.map_eq_some_iff.1 h
    exact Or.inr ⟨s, segment_eq_some hs, rfl⟩

theorem Enters.memory (h : l.Enters host e s) : s.flight.memory = l.memory := by
  cases h <;> rfl

/-- What waits besides was waiting before. -/
theorem Enters.others (h : l.Enters host e s) : ∀ x ∈ s.others, x ∈ l.pending := by
  cases h with
  | replies i time cycles replies x hx hlen => exact fun y => List.mem_of_mem_eraseIdx
  | _ => exact fun y => id

/-- What waits after a segment waited before, or is its handler. -/
theorem mem_pending_land {x : Pending} (hx : x ∈ (l.land s).pending) :
    x ∈ s.others ∨ ∃ calls k, s.result.2 = .calls calls k ∧
      x = ⟨s.flight, ⟨s.flight.env.caller, calls, k⟩⟩ := by
  unfold land at hx
  generalize hr : s.result = r at hx
  obtain ⟨m, ⟨⟩ | ⟨⟩ | ⟨calls, k⟩⟩ := r
  · exact Or.inl hx
  · exact Or.inl hx
  · exact (List.mem_cons.1 hx).symm.imp id fun h => ⟨calls, k, rfl, h⟩

/-- The record of a flight that ends with the segment. -/
structure Ends (l : Log) (s : Segment) (x : Finished) : Prop where
  flight : x.flight = s.flight
  memory : x.memory = s.result.1
  ended : x.ended = l.clock
  ok : ∀ u, s.result.2 = .done u → x.result = .ok ()
  error : ∀ e, s.result.2 = .failed e → x.result = .error e
  last : ∀ calls k, s.result.2 ≠ .calls calls k

/-- A segment ends its flight, or awaits more. -/
theorem finished_land (l : Log) (s : Segment) :
    ((∃ calls k, s.result.2 = .calls calls k) ∧ (l.land s).finished = l.finished) ∨
      ∃ x, l.Ends s x ∧ (l.land s).finished = x :: l.finished := by
  unfold land
  generalize hr : s.result = r
  obtain ⟨m, ⟨u⟩ | ⟨e⟩ | ⟨calls, k⟩⟩ := r
  · refine Or.inr ⟨_, ⟨rfl, ?_, rfl, ?_, ?_, ?_⟩, rfl⟩ <;> simp [hr]
  · refine Or.inr ⟨_, ⟨rfl, ?_, rfl, ?_, ?_, ?_⟩, rfl⟩ <;> simp [hr]
  · exact Or.inl ⟨⟨calls, k, rfl⟩, rfl⟩

/-! ## Waiting handlers and their flights -/

/-- The handler that waits is what the handler of the message is after the rounds of the
flight. -/
structure Traced (host : Host) (x : Pending) : Prop where
  caller : x.waiting.caller = x.flight.env.caller
  unfolds : Async.Unfolds (x.flight.message.handler host) x.flight.exchanges
    (.call x.waiting.calls x.waiting.resume)

/-- The handler that runs is what the handler of the message is after the rounds. -/
theorem Enters.unfolds (h : l.Enters host e s) (hl : ∀ x ∈ l.pending, Traced host x) :
    Async.Unfolds (s.flight.message.handler host) s.flight.exchanges s.handler := by
  cases h with
  | message env message hself => exact .refl _
  | timer time cycles hlive => exact .refl _
  | replies i time cycles replies x hx hlen =>
    rw [Flight.exchanges_resumed]
    exact (hl x (List.mem_of_getElem? hx)).unfolds.snoc hlen

theorem Enters.traced_land (he : l.Enters host e s) (hl : ∀ x ∈ l.pending, Traced host x) :
    ∀ x ∈ (l.land s).pending, Traced host x := by
  intro x hx
  rcases mem_pending_land hx with hx | ⟨calls, k, hcalls, rfl⟩
  · exact hl x (he.others x hx)
  · refine ⟨rfl, ?_⟩
    simpa using (he.unfolds hl).trans (Async.unfolds_segment hcalls)

/-- The handler of the message, in the turns of the flight, has submitted the calls of its rounds,
and now awaits the replies to the last ones. -/
structure Recorded (host : Host) (x : Pending) : Prop where
  outcome : x.flight.outcome (x.flight.message.handler host) =
    .calls x.waiting.calls x.waiting.resume
  batches : Async.batches x.flight.turns (x.flight.message.handler host) =
    x.flight.rounds.map Round.calls

theorem Enters.recorded (h : l.Enters host e s) (hl : ∀ x ∈ l.pending, Recorded host x) :
    s.flight.outcome (s.flight.message.handler host) = s.result.2 ∧
      Async.batches s.flight.turns (s.flight.message.handler host) =
        s.flight.rounds.map Round.calls := by
  cases h with
  | message env message hself => exact ⟨rfl, rfl⟩
  | timer time cycles hlive => exact ⟨rfl, rfl⟩
  | replies i time cycles replies x hx hlen =>
    obtain ⟨houtcome, hbatches⟩ := hl x (List.mem_of_getElem? hx)
    refine ⟨x.flight.outcome_resumed _ replies _ l.memory houtcome, ?_⟩
    unfold Flight.turns Flight.resumed
    rw [List.map_append, List.map_append, ← hbatches]
    exact Async.batches_snoc ⟨x.flight.env, x.flight.memory, replies⟩ x.flight.turns houtcome

theorem Enters.recorded_land (he : l.Enters host e s) (hl : ∀ x ∈ l.pending, Recorded host x) :
    ∀ x ∈ (l.land s).pending, Recorded host x := by
  intro x hx
  obtain ⟨houtcome, hbatches⟩ := he.recorded hl
  rcases mem_pending_land hx with hx | ⟨calls, k, hcalls, rfl⟩
  · exact hl x (he.others x hx)
  · exact ⟨houtcome.trans hcalls, hbatches⟩

end Log

end HunterFi
