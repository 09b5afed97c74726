import HunterFi.Executions
import HunterFi.Validity
import Mathlib.Logic.Relation

/-!
# The course of a strategy

The abstract strategy : its owner, its configuration, its status and its counters, without the
balances that it remembers, the timers and the calls that wait. `Course.Next` has the transitions
of the abstract strategy, with who may order each of them and in which status. A start and an
execution await replies, and are tested when they come : their transitions are guarded by the
strategy as it was then, whatever it has become (`Flight.Admitted`).

`strategy_course` : every event of a strategy canister is one such transition or none, and no
strategy is ever in `EmergencyStopped`. `course_kept` : the owner, the pair and the exchange stay
what the initialisation set, and while a strategy is left running so does its configuration.
-/

set_option linter.unusedSectionVars false

namespace HunterFi

open SelfHedging

/-- The abstract strategy. -/
structure Course where
  owner : Principal
  config : SelfHedgingConfig
  transactionSize : ℕ
  orderSplitType : OrderSplitType
  status : StrategyStatus
  executionCount : ℕ
  volumeGenerated : ℕ
  lastExecution : Option ℕ

/-- The abstract strategy of a state. -/
def SelfHedgingState.course (s : SelfHedgingState) : Course where
  owner := s.owner
  config := s.config
  transactionSize := s.transactionSize
  orderSplitType := s.orderSplitType
  status := s.status
  executionCount := s.executionCount
  volumeGenerated := s.volumeGenerated
  lastExecution := s.lastExecution

namespace Course

/-- A strategy that has just been initialised. -/
def initial (owner : Principal) (config : SelfHedgingConfig) : Course where
  owner := owner
  config := config
  transactionSize := config.transactionSize
  orderSplitType := config.orderSplitType
  status := .created
  executionCount := 0
  volumeGenerated := 0
  lastExecution := none

/-- The caller may give orders. -/
def Obeys (host : Host) (env : Env) (c : Course) : Prop :=
  env.caller = c.owner ∨ env.caller = host.id

/-- The transitions of the abstract strategy, by a message that found it as `began`. -/
inductive Next (host : Host) (env : Env) (began c : Course) : Course → Prop
  | initialised (owner : Principal) (config : SelfHedgingConfig) (blank : c.owner = .anonymous)
    (valid : config.Initialises) : Next host env began c (initial owner config)
  | started (obeyed : began.Obeys host env)
    (idle : began.status ∈ [.created, .paused, .terminated]) :
    Next host env began c { c with status := .running }
  | paused (obeys : c.Obeys host env) (ran : c.status = .running) :
    Next host env began c { c with status := .paused }
  | stopped (obeys : c.Obeys host env) : Next host env began c { c with status := .terminated }
  | resized (size : ℕ) (splitType : OrderSplitType) (obeys : c.Obeys host env)
    (idle : c.status ∈ [.created, .paused]) (pos : size ≠ 0) :
    Next host env began c { c with
      config := { c.config with
        transactionSize := size
        orderSplitType := splitType }
      transactionSize := size
      orderSplitType := splitType }
  | reconfigured (size : ℕ) (splitType : OrderSplitType) (interval : ℕ) (slippage : F64)
    (holdToken : Principal) (obeys : c.Obeys host env) (idle : c.status ∈ [.created, .paused])
    (pos : size ≠ 0 ∧ interval ≠ 0) (hold : holdToken ≠ .anonymous)
    (bounded : slippage.le .zero = false ∧ F64.lt .hundred slippage = false) :
    Next host env began c { c with
      config := { c.config with
        transactionSize := size
        orderSplitType := splitType
        checkIntervalSecs := interval
        slippageTolerance := slippage
        holdToken := holdToken }
      transactionSize := size
      orderSplitType := splitType }
  | executed (volume : ℕ) (ran : began.status = .running) :
    Next host env began c { c with
      executionCount := (c.executionCount + 1) % 2 ^ 64
      volumeGenerated := wrappingAdd c.volumeGenerated volume
      lastExecution := some env.time }

/-- A segment makes one transition or none. -/
abbrev Steps (host : Host) (env : Env) (began : Course) : Course → Course → Prop :=
  Relation.ReflGen (Next host env began)

variable {host : Host} {env : Env} {began c c' : Course}

/-! ## What the transitions keep -/

/-- The statuses that a strategy may have. -/
def Reachable (c : Course) : Prop :=
  c.status ≠ .emergencyStopped

theorem Next.reachable (h : Next host env began c c') (hc : c.Reachable) : c'.Reachable := by
  cases h with
  | resized => exact hc
  | reconfigured => exact hc
  | executed => exact hc
  | _ => exact nofun

theorem Steps.reachable (h : Steps host env began c c') (hc : c.Reachable) : c'.Reachable := by
  cases h with
  | refl => exact hc
  | single hnext => exact hnext.reachable hc

/-- What no transition after the initialisation changes, and what none from a running strategy
does. -/
structure Keeps (c c' : Course) : Prop where
  owner : c'.owner = c.owner
  tradingPair : c'.config.tradingPair = c.config.tradingPair
  exchange : c'.config.exchange = c.config.exchange
  running : c.status = .running → c'.config = c.config ∧ c'.transactionSize = c.transactionSize ∧
    c'.orderSplitType = c.orderSplitType

theorem Keeps.refl (c : Course) : Keeps c c :=
  ⟨rfl, rfl, rfl, fun _ => ⟨rfl, rfl, rfl⟩⟩

end Course

/-! ## Admission -/

/-- The strategy as the message found it. -/
def Flight.begun (f : Flight) : Course :=
  f.arrivalMemory.state.course

/-- The message could be given when it came, if what it does later is not tested again. -/
structure Flight.Admitted (host : Host) (f : Flight) : Prop where
  starts : f.message = .start →
    f.begun.Obeys host f.env ∧ f.begun.status ∈ [.created, .paused, .terminated]
  executes : f.message = .executeOnce → f.begun.status = .running

/-- A start that could not be given is refused. -/
theorem start_refused {host : Host} {env : Env} {m : Memory}
    (h : ¬(m.state.course.Obeys host env ∧
      m.state.course.status ∈ [.created, .paused, .terminated])) :
    ∃ e, (SelfHedging.start host).segment env m = (m, .failed e) := by
  unfold SelfHedging.start
  cases howner : verifyOwner host env m with
  | error e => exact ⟨e, Async.segment_check_bind_error howner⟩
  | ok _ =>
    rw [Async.bind_eq, Async.segment_check_bind_ok howner]
    cases hstatus : verifyStatus [.created, .paused, .terminated] m with
    | error e => exact ⟨e, Async.segment_check_bind_error hstatus⟩
    | ok _ => exact absurd ⟨verifyOwner_eq_ok.1 howner, verifyStatus_eq_ok.1 hstatus⟩ h

/-- The first segment of a message that could not be given is refused. -/
theorem Message.admitted_or_refused (host : Host) (message : Message) (received : ℕ) (env : Env)
    (m : Memory) : Flight.Admitted host ⟨message, received, [], env, m⟩ ∨
      ∃ e, (message.handler host).segment env m = (m, .failed e) := by
  cases message with
  | start =>
    by_cases h : m.state.course.Obeys host env ∧
        m.state.course.status ∈ [.created, .paused, .terminated]
    · exact Or.inl ⟨fun _ => h, nofun⟩
    · exact Or.inr (start_refused h)
  | executeOnce =>
    rcases executeOnce_segment host env m with ⟨-, e, he, -⟩ | ⟨⟨hrunning, -⟩, -⟩
    · exact Or.inr ⟨e, he⟩
    · exact Or.inl ⟨nofun, fun _ => hrunning⟩
  | _ => exact Or.inl ⟨nofun, nofun⟩

/-! ## Segments -/

section Segments

variable {host : Host} {f : Flight} {m m' : Memory}

theorem Rebalanced.course (h : Rebalanced m m') : m'.state.course = m.state.course := by
  obtain ⟨b, q, t, rfl⟩ := h
  rfl

theorem SelfHedging.Trades.course {env : Env} {began : Course} (h : Trades host env m m') :
    Course.Steps host env began m.state.course m'.state.course := by
  rcases h with h | ⟨howner, hrunning, h⟩
  · rw [h.course]
  · rw [h.course]
    exact .single (.paused (verifyOwner_eq_ok.1 howner) hrunning)

/-- The checks of an update of the configuration. -/
theorem verifyUpdate_eq_ok {env : Env} (h : verifyUpdate host env m = .ok ()) :
    m.state.course.Obeys host env ∧ m.state.course.status ∈ [.created, .paused] := by
  refine ⟨verifyOwner_eq_ok.1 (verifyOwner_of_verifyUpdate h), ?_⟩
  unfold verifyUpdate at h
  rw [verifyOwner_of_verifyUpdate h] at h
  cases hs : verifyStatus [.created, .paused] m with
  | error e => simp [hs] at h
  | ok _ => exact verifyStatus_eq_ok.1 hs

/-- What a segment of an admitted message does is one transition or none. -/
theorem Effect.course {r : Memory × Async.Await Env Memory Call Reply String Unit}
    (h : Effect host f m r) (hf : f.Admitted host) :
    Course.Steps host f.env f.begun m.state.course r.1.state.course := by
  cases h with
  | refused e message => exact .refl
  | rebalances r message memory => rw [memory.course]
  | inquires r message refused inquires => rw [inquires.1.course]
  | runs secs message approved =>
    obtain ⟨hobeyed, hidle⟩ := hf.starts message
    exact .single (.started hobeyed hidle)
  | pauses message owner ran => exact .single (.paused (verifyOwner_eq_ok.1 owner) ran)
  | stops message owner => exact .single (.stopped (verifyOwner_eq_ok.1 owner))
  | initialises owner config message blank valid =>
    exact .single (.initialised owner config blank valid)
  | updatesVolume size splitType message verified pos =>
    obtain ⟨hobeys, hidle⟩ := verifyUpdate_eq_ok verified
    exact .single (.resized size splitType hobeys hidle pos)
  | updatesConfig size splitType interval slippage holdToken message verified valid =>
    obtain ⟨hobeys, hidle⟩ := verifyUpdate_eq_ok verified
    obtain ⟨hhold, hsize, hinterval, hslippage⟩ := valid
    obtain ⟨hlow, hhigh⟩ := not_or.1 hslippage
    exact .single (.reconfigured size splitType interval slippage holdToken hobeys hidle
      ⟨hsize, hinterval⟩ hhold ⟨Bool.eq_false_iff.2 hlow, Bool.eq_false_iff.2 hhigh⟩)
  | executes r m' volume flag message trades memory commits =>
    rw [memory]
    cases volume with
    | none => exact trades.course
    | some v =>
      rw [← (commits v rfl).course]
      exact .single (.executed v (hf.executes message))

/-- A segment of an initialised strategy keeps what is set for its life. -/
theorem Effect.keeps {r : Memory × Async.Await Env Memory Call Reply String Unit}
    (h : Effect host f m r) (howner : m.state.owner ≠ .anonymous) :
    m.state.course.Keeps r.1.state.course := by
  cases h with
  | refused e message => exact .refl _
  | rebalances r message memory =>
    rw [memory.course]
    exact .refl _
  | inquires r message refused inquires =>
    rw [inquires.1.course]
    exact .refl _
  | initialises owner config message blank valid => exact absurd blank howner
  | updatesVolume size splitType message verified pos =>
    have hidle := (verifyUpdate_eq_ok verified).2
    exact ⟨rfl, rfl, rfl, fun h => by simp [h] at hidle⟩
  | updatesConfig size splitType interval slippage holdToken message verified valid =>
    have hidle := (verifyUpdate_eq_ok verified).2
    exact ⟨rfl, rfl, rfl, fun h => by simp [h] at hidle⟩
  | executes r m' volume flag message trades memory =>
    obtain ⟨hconfig, hsize, hsplit⟩ := trades.sameSettings
    have howner' := trades.sameTally.owner
    rw [memory]
    cases volume <;>
      exact ⟨howner', congrArg (·.tradingPair) hconfig, congrArg (·.exchange) hconfig,
        fun _ => ⟨hconfig, hsize, hsplit⟩⟩
  | _ => exact ⟨rfl, rfl, rfl, fun _ => ⟨rfl, rfl, rfl⟩⟩

end Segments

/-! ## Runs -/

namespace Log

variable {host : Host} {l l' : Log} {e : CanisterEvent} {s : Segment}

/-- The abstract strategy of a log. -/
def course (l : Log) : Course :=
  l.memory.state.course

/-- What waits has been admitted. -/
structure Admitted (host : Host) (l : Log) : Prop where
  sound : l.Sound host
  pending : ∀ x ∈ l.pending, x.flight.Admitted host

/-- A segment is one of an admitted message, or refuses it. -/
theorem Enters.admitted_or_refused (he : l.Enters host e s) (hl : l.Admitted host) :
    s.flight.Admitted host ∨ ∃ e, s.result = (l.memory, .failed e) := by
  cases he with
  | message env message hself => exact message.admitted_or_refused host l.clock env l.memory
  | timer time cycles hlive =>
    exact Message.admitted_or_refused host .executeOnce l.clock ⟨time, host.id, cycles⟩ l.memory
  | replies i time cycles replies x hx hlen =>
    have hmem := List.mem_of_getElem? hx
    have hadmitted := hl.pending x hmem
    refine Or.inl ⟨fun hm => ?_, fun hm => ?_⟩
    · rw [Flight.begun, Flight.arrivalMemory_resumed, Course.Obeys, Flight.env_resumed,
        (hl.sound.traced x hmem).caller]
      exact hadmitted.starts hm
    · rw [Flight.begun, Flight.arrivalMemory_resumed]
      exact hadmitted.executes hm

theorem step_admitted (hl : l.Admitted host) (hs : l.step host e = some l') : l'.Admitted host := by
  refine ⟨step_sound hl.sound hs, ?_⟩
  rcases step_cases hs with ⟨-, rfl⟩ | ⟨s, he, rfl⟩
  · exact fun x hx => nomatch hx
  intro x hx
  rcases mem_pending_land hx with hx | ⟨calls, k, hcalls, rfl⟩
  · exact hl.pending x (he.others x hx)
  · rcases he.admitted_or_refused hl with hadmitted | ⟨e', hfailed⟩
    · exact hadmitted
    · rw [hfailed] at hcalls
      cases hcalls

/-- What an event does is one transition, by the caller of its segment and guarded by the strategy
as the message found it, or nothing. After the initialisation it keeps what is set for life. -/
structure Follows (host : Host) (l : Log) (e : CanisterEvent) (l' : Log) : Prop where
  steps : (e = .upgrade ∧ l'.course = l.course) ∨
    ∃ s, l.segment host e = some s ∧
      Course.Steps host s.flight.env s.flight.begun l.course l'.course
  keeps : l.course.owner ≠ .anonymous → l.course.Keeps l'.course

theorem step_follows (hl : l.Admitted host) (hs : l.step host e = some l') :
    l.Follows host e l' := by
  rcases step_cases hs with ⟨rfl, rfl⟩ | ⟨s, he, rfl⟩
  · exact ⟨Or.inl ⟨rfl, rfl⟩, fun _ => .refl _⟩
  · have heffect := he.effect hl.sound.traced
    refine ⟨Or.inr ⟨s, he.segment_eq, ?_⟩, fun howner => ?_⟩
    · rw [course, course, memory_land]
      rcases he.admitted_or_refused hl with hadmitted | ⟨e', hfailed⟩
      · exact heffect.course hadmitted
      · rw [hfailed]
    · rw [course, course, memory_land]
      exact heffect.keeps howner

theorem Follows.reachable (h : l.Follows host e l') (hl : l.course.Reachable) :
    l'.course.Reachable := by
  rcases h.steps with ⟨-, heq⟩ | ⟨s, -, hsteps⟩
  · exact heq ▸ hl
  · exact hsteps.reachable hl

theorem admitted_start : (start .installed).Admitted host :=
  ⟨sound_start Timers.tidy_initial, fun _ hx => (nomatch hx)⟩

/-- In every run from the installation each event follows the transitions of the abstract strategy,
and the strategy is never in `EmergencyStopped`. -/
theorem strategy_course (host : Host) (es : List CanisterEvent) :
    Runs.Throughout (step host) (fun l => l.course.Reachable) (start .installed) es ∧
      Runs.Along (step host) (fun l e => ∀ l', l.step host e = some l' → l.Follows host e l')
        (start .installed) es := by
  refine ⟨(Runs.throughout_of_step (P := fun l => l.Admitted host ∧ l.course.Reachable) ?_ es
    ⟨admitted_start, nofun⟩).mono fun l h => h.2, ?_⟩
  · rintro l e l' ⟨hl, hreachable⟩ hs
    exact ⟨step_admitted hl hs, (step_follows hl hs).reachable hreachable⟩
  · refine Runs.along_of_step (I := Admitted host) (H := fun _ _ => True) (fun l e l' hl _ hs => ?_)
      admitted_start Runs.along_true
    exact ⟨step_admitted hl hs, fun l'' hs' =>
      Option.some.inj (hs.symm.trans hs') ▸ step_follows hl hs⟩

/-- What the initialisation has set for life. -/
def Settled (c : Course) (l : Log) : Prop :=
  l.course.owner = c.owner ∧ l.course.config.tradingPair = c.config.tradingPair ∧
    l.course.config.exchange = c.config.exchange

/-- Once it has an owner, a strategy keeps its owner, its pair and its exchange in every run, and
its configuration in every run that it spends running. -/
theorem course_kept (host : Host) {es : List CanisterEvent} {l : Log}
    (hrun : Runs.run (step host) (start .installed) es = some l)
    (howner : l.course.owner ≠ .anonymous) (es' : List CanisterEvent) :
    Runs.Throughout (step host) (Settled l.course) l es' ∧
      (Runs.Throughout (step host) (fun l => l.course.status = .running) l es' →
        Runs.Throughout (step host) (fun l' => l'.course.config = l.course.config) l es') := by
  have hl : l.Admitted host := Runs.run_preserves (fun _ _ _ => step_admitted) admitted_start hrun
  refine ⟨(Runs.throughout_of_step (P := fun l' => l'.Admitted host ∧ Settled l.course l') ?_ es'
    ⟨hl, rfl, rfl, rfl⟩).mono fun l' h => h.2, fun hrunning => ?_⟩
  · rintro l₁ e l₂ ⟨hadmitted, ho, hpair, hexchange⟩ hs
    have hkeeps := (step_follows hadmitted hs).keeps (ho ▸ howner)
    exact ⟨step_admitted hadmitted hs, hkeeps.owner.trans ho, hkeeps.tradingPair.trans hpair,
      hkeeps.exchange.trans hexchange⟩
  · have halong : Runs.Along (step host) (fun l _ => l.course.status = .running) l es' :=
      Runs.along_of_throughout (I := fun _ => True) (H := fun _ _ => True)
        (fun _ _ _ _ h _ _ _ => ⟨trivial, h⟩) trivial Runs.along_true hrunning
    refine (Runs.throughout_of_along (P := fun l' => l'.Admitted host ∧
      l'.course.owner = l.course.owner ∧ l'.course.config = l.course.config) ?_ ⟨hl, rfl, rfl⟩
      halong).mono fun l' h => h.2.2
    rintro l₁ e l₂ ⟨hadmitted, ho, hconfig⟩ h hs
    have hkeeps := (step_follows hadmitted hs).keeps (ho ▸ howner)
    exact ⟨step_admitted hadmitted hs, hkeeps.owner.trans ho, (hkeeps.running h).1.trans hconfig⟩

/-- The strategist initialises a strategy. -/
theorem exists_initialised : ∃ l, Runs.run (step sampleHost) (start .installed)
    [Sample.initialises] = some l ∧ l.memory.state.owner = Sample.strategist ∧
      l.memory.state.config.tradingPair = Sample.hedgeConfig.tradingPair := by
  have hend : (Runs.run (step sampleHost) (start .installed) [Sample.initialises]).any (fun l =>
      decide (l.memory.state.owner = Sample.strategist) &&
        decide (l.memory.state.config.tradingPair = Sample.hedgeConfig.tradingPair)) = true := by
    decide +kernel
  obtain ⟨l, hrun, hl⟩ := (Option.any_eq_true _ _).1 hend
  obtain ⟨howner, hpair⟩ := Bool.and_eq_true_iff.1 hl
  exact ⟨l, hrun, of_decide_eq_true howner, of_decide_eq_true hpair⟩

/-- A strategy that the strategist has initialised is started and executes. -/
theorem course_kept_executes : ∃ l, Runs.run (step sampleHost) (start .installed)
    [Sample.initialises] = some l ∧ l.course.owner = Sample.strategist ∧
      Runs.Throughout (step sampleHost) (Settled l.course) l Sample.startsAndExecutes := by
  obtain ⟨l, hrun, howner, -⟩ := exists_initialised
  have hproper : l.course.owner ≠ .anonymous := ne_of_eq_of_ne howner (by decide)
  exact ⟨l, hrun, howner, (course_kept sampleHost hrun hproper Sample.startsAndExecutes).1⟩

end Log

end HunterFi
