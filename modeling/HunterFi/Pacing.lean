import HunterFi.Executions
import HunterFi.Sequences

/-!
# The pace of the executions

Anyone may call `execute_once`, and the timer does. What holds them back is the cooldown : an
execution is refused until it is over since the last one that was recorded.

`executions_paced` : on a clock that does not go back, the recorded executions are at least the
cooldown apart, however the messages interleave. So few fit into any span of time, and the counter
of the state never wraps.
-/

set_option linter.unusedSectionVars false

namespace HunterFi

open SelfHedging

/-- The time of an event. -/
def CanisterEvent.time? : CanisterEvent → Option ℕ
  | message env _ => some env.time
  | timer time _ => some time
  | replies _ time _ _ => some time
  | upgrade => none

namespace Log

variable {host : Host} {l l' : Log} {e : CanisterEvent} {s : Segment} {t : ℕ}

/-- A segment runs at the time of its event. -/
theorem Enters.time (he : l.Enters host e s) : e.time? = some s.flight.env.time := by
  cases he <;> rfl

/-- A segment records nothing, or an execution that has started after the cooldown. -/
theorem Enters.records (he : l.Enters host e s) (hl : l.Tallied host) :
    (l.land s).recorded host = l.recorded host ∨
      ∃ v, (l.land s).recorded host = (v, s.flight.env.time) :: l.recorded host ∧
        ∀ t ∈ l.memory.state.lastExecution,
          saturatingAdd t cooldownNs ≤ s.flight.arrival.time := by
  by_cases hrecords : s.flight.message.isExecution = true ∧
      ∃ v, s.flight.outcome (executionVolume host) = .done (some v)
  · obtain ⟨hm, v, hv⟩ := hrecords
    refine Or.inr ⟨v, ?_⟩
    cases he.executes hl.serial (Message.eq_of_isExecution hm) with
    | refused e first result outcome others => cases hv.symm.trans outcome
    | goes p unfolds outcome guards alone cooled =>
      have hdone := outcome.symm.trans hv
      refine ⟨recorded_land_of_eq hm hv ?_, ?_⟩
      · generalize s.result = r at guards
        cases guards with
        | done volume h => exact nofun
        | failed e h => cases hdone.symm.trans h
        | calls calls k h => cases hdone.symm.trans h
      · by_cases hrounds : s.flight.rounds = []
        · rcases cooled hrounds with ⟨e, he⟩ | hcool
          · cases hdone.symm.trans he
          · exact hcool
        · exact hl.cooled_flight he hm hrounds
  · exact Or.inl (recorded_land_of_ne fun hm v hv => hrecords ⟨hm, v, hv⟩)

/-- The counters are those of the executions, which are in the past and the cooldown apart, and
what waits has arrived in the past. -/
structure Clocked (host : Host) (t : ℕ) (l : Log) : Prop where
  tallied : l.Tallied host
  arrived : ∀ x ∈ l.pending, x.flight.arrival.time ≤ t
  past : ∀ r ∈ l.recorded host, r.2 ≤ t
  fits : t + cooldownNs < u64Max
  spaced : Sequences.Spaced cooldownNs ((l.recorded host).map Prod.snd)

theorem Enters.arrival_le (he : l.Enters host e s) (hl : l.Clocked host t)
    (ht : t ≤ s.flight.env.time) : s.flight.arrival.time ≤ s.flight.env.time := by
  cases he with
  | message env message hself => exact le_rfl
  | timer time cycles hlive => exact le_rfl
  | replies i time cycles replies x hx hlen =>
    rw [Flight.arrival_resumed]
    exact (hl.arrived x (List.mem_of_getElem? hx)).trans ht

/-- What was recorded before an execution that has started after the cooldown. -/
theorem Clocked.cooled (hl : l.Clocked host t) {u : ℕ}
    (hu : ∀ t ∈ l.memory.state.lastExecution, saturatingAdd t cooldownNs ≤ u) :
    ∀ r ∈ l.recorded host, r.2 + cooldownNs ≤ u := by
  have hlast := hl.tallied.last
  have hspaced := hl.spaced
  have hpast := hl.past
  have hfits := hl.fits
  cases hrecorded : l.recorded host with
  | nil => exact fun r hr => nomatch hr
  | cons r₀ rs =>
    rw [hrecorded] at hlast hspaced hpast
    have hle := hpast r₀ List.mem_cons_self
    have hfirst : r₀.2 + cooldownNs ≤ u := by
      have := hu r₀.2 (by rw [hlast]; exact Option.mem_some_self _)
      rwa [saturatingAdd, Nat.min_eq_left (by omega)] at this
    refine List.forall_mem_cons.2 ⟨hfirst, fun r hr => ?_⟩
    have := (List.pairwise_cons.1 hspaced).1 r.2 (List.mem_map_of_mem hr)
    omega

theorem Enters.clocked (he : l.Enters host e s) (hl : l.Clocked host t)
    (ht : t ≤ s.flight.env.time) (hfits : s.flight.env.time + cooldownNs < u64Max) :
    (l.land s).Clocked host s.flight.env.time := by
  have harrival := he.arrival_le hl ht
  have hpast : ∀ r ∈ l.recorded host, r.2 ≤ s.flight.env.time :=
    fun r hr => (hl.past r hr).trans ht
  refine ⟨he.tallied hl.tallied, fun x hx => ?_, ?_, hfits, ?_⟩
  · rcases mem_pending_land hx with hx | ⟨calls, k, -, rfl⟩
    · exact (hl.arrived x (he.others x hx)).trans ht
    · exact harrival
  · rcases he.records hl.tallied with heq | ⟨v, heq, -⟩
    · exact heq ▸ hpast
    · exact heq ▸ List.forall_mem_cons.2 ⟨le_rfl, hpast⟩
  · rcases he.records hl.tallied with heq | ⟨v, heq, hcool⟩
    · exact heq ▸ hl.spaced
    · rw [heq, List.map_cons]
      refine List.pairwise_cons.2 ⟨fun u hu => ?_, hl.spaced⟩
      obtain ⟨r, hr, rfl⟩ := List.mem_map.1 hu
      exact (hl.cooled hcool r hr).trans harrival

theorem step_clocked (hl : l.Clocked host t)
    (ht : ∀ u ∈ e.time?, t ≤ u ∧ u + cooldownNs < u64Max) (hs : l.step host e = some l') :
    l'.Clocked host (e.time?.getD t) := by
  rcases step_cases hs with ⟨rfl, rfl⟩ | ⟨s, he, rfl⟩
  · exact ⟨step_tallied (e := .upgrade) hl.tallied rfl, fun _ hx => (nomatch hx), hl.past, hl.fits,
      hl.spaced⟩
  · rw [he.time] at ht ⊢
    exact he.clocked hl (ht _ rfl).1 (ht _ rfl).2

/-! ## The pace -/

/-- What the cooldown is for. -/
structure Paced (host : Host) (l : Log) : Prop where
  spaced : Sequences.Spaced cooldownNs ((l.recorded host).map Prod.snd)
  few : ∀ a b, (((l.recorded host).map Prod.snd).filter fun t => a ≤ t ∧ t ≤ b).length ≤
    (b - a) / cooldownNs + 1
  count : l.memory.state.executionCount = (l.recorded host).length

theorem cooldownNs_pos : 0 < cooldownNs :=
  Nat.succ_pos _

theorem Clocked.paced (hl : l.Clocked host t) : l.Paced host := by
  have hfew := hl.spaced.length_filter_le cooldownNs_pos
  refine ⟨hl.spaced, hfew, ?_⟩
  have hall : (((l.recorded host).map Prod.snd).filter fun u => 0 ≤ u ∧ u ≤ t) =
      (l.recorded host).map Prod.snd := by
    refine List.filter_eq_self.2 fun u hu => ?_
    obtain ⟨r, hr, rfl⟩ := List.mem_map.1 hu
    exact decide_eq_true ⟨Nat.zero_le _, hl.past r hr⟩
  have hlen := hfew 0 t
  rw [hall, List.length_map] at hlen
  have hdiv := Nat.div_le_self (t - 0) cooldownNs
  have hmax : u64Max < 2 ^ 64 := by decide
  have hfits := hl.fits
  rw [hl.tallied.count, Nat.mod_eq_of_lt (by omega)]

/-- A strategy that is initialised by a proper owner with no call in flight has executed nothing. -/
theorem tallied_initialised {es₀ : List CanisterEvent} {c : Canister}
    (hrun : Runs.run (Canister.step host) .installed es₀ = some c) (hidle : c.waiting = [])
    {owner : Principal} {config : SelfHedgingConfig} {env : Env} {m : Memory}
    (howner : owner ≠ .anonymous) (hinit : initSelfHedging owner config env c.memory = .ok m) :
    (start m).Tallied host := by
  have hmap := Runs.run_map (step_canister host) es₀ (start .installed)
  rw [show (start .installed).canister = .installed from rfl, hrun] at hmap
  obtain ⟨l, hl, rfl⟩ := Option.map_eq_some_iff.1 hmap
  have hserial := (exclusive_throughout host es₀).last hl
  obtain ⟨-, -, rfl⟩ := initSelfHedging_eq_ok.1 hinit
  have hflag : l.memory.executionInProgress = false := by
    have hexclusive := hserial.exclusive
    rw [Exclusive, executing, List.map_eq_nil_iff.1 hidle] at hexclusive
    exact Bool.toNat_eq_zero.1 hexclusive.symm
  exact ⟨serial_start hserial.sound.tidy hflag, howner, rfl, rfl, rfl,
    fun _ hx => absurd hx List.not_mem_nil⟩

/-- On a clock that does not go back and fits in 64 bits with the cooldown, recorded executions are
at least the cooldown apart in every run after an initialisation, so that few fit into any span,
and the counter counts them all. -/
theorem executions_paced (host : Host) {es₀ : List CanisterEvent} {c : Canister}
    (hrun : Runs.run (Canister.step host) .installed es₀ = some c) (hidle : c.waiting = [])
    {owner : Principal} {config : SelfHedgingConfig} {env : Env} {m : Memory}
    (howner : owner ≠ .anonymous) (hinit : initSelfHedging owner config env c.memory = .ok m)
    (es : List CanisterEvent)
    (hclock : (env.time :: es.filterMap CanisterEvent.time?).Pairwise (· ≤ ·))
    (hfits : ∀ u ∈ env.time :: es.filterMap CanisterEvent.time?, u + cooldownNs < u64Max) :
    Runs.Throughout (step host) (Paced host) (start m) es := by
  obtain ⟨hfirst, hfits⟩ := List.forall_mem_cons.1 hfits
  have hstart : (start m).Clocked host env.time :=
    ⟨tallied_initialised hrun hidle howner hinit, fun _ hx => (nomatch hx),
      fun _ hr => (nomatch hr), hfirst, .nil⟩
  exact (Runs.throughout_of_times (I := Clocked host) CanisterEvent.time?
    (fun _ _ _ _ hl ht hs => step_clocked hl ht hs) hstart hclock hfits).mono
    fun l ⟨_, hl⟩ => hl.paced

/-- The executions of a strategy that is installed, initialised and started. -/
theorem executions_paced_executes : Runs.Throughout (step sampleHost) (Paced sampleHost)
    (start Sample.initialised) Sample.startsAndExecutes :=
  executions_paced sampleHost (Runs.run_nil Canister.installed) rfl (by decide)
    (Sample.initialises_hedgeConfig ⟨0, Sample.strategist, 0⟩) Sample.startsAndExecutes (by decide)
    (by decide)

end Log

end HunterFi
