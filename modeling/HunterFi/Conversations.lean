import HunterFi.Control
import HunterFi.Course
import HunterFi.Protocols

/-!
# Conversations of a strategy

The conversation of a message is what was said in the rounds of its flight. Its segments interleave
with those of other messages, which may change the state under it, but not the owner or the pair :
`Committed` is what they all keep.

`conforms_throughout` : a protocol that the handler of every message keeps to, in a strategy that is
committed to its pair, is one that every conversation keeps to in every run of the canister.
-/

set_option linter.unusedSectionVars false

namespace HunterFi

open SelfHedging

/-- The strategy has an owner and trades the pair. -/
def Committed (pair : TradingPair) (m : Memory) : Prop :=
  m.state.owner ≠ .anonymous ∧ m.state.config.tradingPair = pair

/-! ## Messages -/

section Messages

variable {host : Host} {pair : TradingPair} {env : Env} {m m' : Memory} {S : Type}
  {protocol : S → Call × Reply → Option S} {s : S}

theorem pause_committed (hm : Committed pair m) (h : pause host env m = .ok m') :
    Committed pair m' := by
  obtain ⟨-, -, rfl⟩ := pause_eq_ok.1 h
  exact hm

/-- Every message keeps to a protocol if those do that await replies. -/
theorem keeps_handler
    (hstart : Async.Keeps (Committed pair) protocol (fun _ _ => True) (fun _ _ => True) s
      (SelfHedging.start host))
    (hexecute : Async.Keeps (Committed pair) protocol (fun _ _ => True) (fun _ _ => True) s
      (executeOnce host))
    (hdeposit : ∀ tokenType amount, Async.Keeps (Committed pair) protocol (fun _ _ => True)
      (fun _ _ => True) s (depositToExchange host tokenType amount))
    (hwithdraw : ∀ tokenType amount, Async.Keeps (Committed pair) protocol (fun _ _ => True)
      (fun _ _ => True) s (withdrawFromExchange host tokenType amount))
    (hrefresh : Async.Keeps (Committed pair) protocol (fun _ _ => True) (fun _ _ => True) s
      (refreshBalance host)) (message : Message) :
    Async.Keeps (Committed pair) protocol (fun _ _ => True) (fun _ _ => True) s
      (message.handler host) := by
  cases message with
  | initSelfHedging owner config =>
    refine Async.keeps_update (fun env m m' hm h => ?_) trivial fun _ => trivial
    exact absurd (initSelfHedging_eq_ok.1 h).1 hm.1
  | start => exact hstart
  | pause => exact Async.keeps_update (fun env m m' => pause_committed) trivial fun _ => trivial
  | stop =>
    refine Async.keeps_update (fun env m m' hm h => ?_) trivial fun _ => trivial
    obtain ⟨-, rfl⟩ := stop_eq_ok.1 h
    exact hm
  | executeOnce => exact hexecute
  | updateVolumeConfig size splitType =>
    refine Async.keeps_update (fun env m m' hm h => ?_) trivial fun _ => trivial
    obtain ⟨-, -, rfl⟩ := updateVolumeConfig_eq_ok.1 h
    exact hm
  | updateConfig size splitType interval slippage holdToken =>
    refine Async.keeps_update (fun env m m' hm h => ?_) trivial fun _ => trivial
    obtain ⟨-, -, rfl⟩ := updateConfig_eq_ok.1 h
    exact hm
  | depositToExchange tokenType amount => exact hdeposit tokenType amount
  | withdrawFromExchange tokenType amount => exact hwithdraw tokenType amount
  | refreshBalance => exact hrefresh

end Messages

/-! ## Flights -/

namespace Flight

/-- What was said in the rounds of the flight. -/
def said (f : Flight) : List (Call × Reply) :=
  f.exchanges.flatMap fun x => x.calls.zip x.replies

@[simp] theorem said_resumed (f : Flight) (calls : List Call) (replies : List Reply) (env : Env)
    (m : Memory) : (f.resumed calls replies env m).said = f.said ++ calls.zip replies := by
  simp [said]

/-- What was said is a run of the protocol, which the handler that goes on keeps to. -/
def Conforms {S : Type} (protocol : S → Call × Reply → Option S) (first : S) (pair : TradingPair)
    (f : Flight) (p : Handler Unit) : Prop :=
  ∃ s, Runs.run protocol first f.said = some s ∧
    Async.Keeps (Committed pair) protocol (fun _ _ => True) (fun _ _ => True) s p

end Flight

namespace Log

variable {host : Host} {pair : TradingPair} {S : Type} {protocol : S → Call × Reply → Option S}
  {first : S} {l l' : Log} {e : CanisterEvent} {s : Segment} {n : ℕ}

/-- All flights, those that have ended included. -/
def flights (l : Log) : List Flight :=
  l.pending.map Pending.flight ++ l.finished.map Finished.flight ++ l.dropped

theorem mem_flights_land {f : Flight} (he : l.Enters host e s) (hf : f ∈ (l.land s).flights) :
    f = s.flight ∨ f ∈ l.flights := by
  simp only [flights, List.mem_append, List.mem_map, dropped_land] at hf ⊢
  rcases hf with (⟨x, hx, rfl⟩ | ⟨x, hx, rfl⟩) | hf
  · rcases mem_pending_land hx with hx | ⟨calls, k, -, rfl⟩
    · exact Or.inr (Or.inl (Or.inl ⟨x, he.others x hx, rfl⟩))
    · exact Or.inl rfl
  · rcases finished_land l s with ⟨-, heq⟩ | ⟨y, hy, heq⟩
    · exact Or.inr (Or.inl (Or.inr ⟨x, heq ▸ hx, rfl⟩))
    · rcases List.mem_cons.1 (heq ▸ hx) with rfl | hx
      · exact Or.inl hy.flight
      · exact Or.inr (Or.inl (Or.inr ⟨x, hx, rfl⟩))
  · exact Or.inr (Or.inr hf)

theorem mem_flights_upgraded {f : Flight} (hf : f ∈ l.upgraded.flights) : f ∈ l.flights := by
  simp only [flights, upgraded, List.mem_append, List.map_nil] at hf ⊢
  tauto

/-- All flights came before. -/
theorem received_lt_clock {es : List CanisterEvent} {m : Memory}
    (hrun : Runs.run (step host) (start m) es = some l) :
    ∀ f ∈ l.flights, f.received < l.clock := by
  refine Runs.run_preserves (P := fun l => ∀ f ∈ l.flights, f.received < l.clock)
    (fun l e l' hl hs => ?_) (fun f hf => absurd hf List.not_mem_nil) hrun
  rcases step_cases hs with ⟨-, rfl⟩ | ⟨s, he, rfl⟩
  · exact fun f hf => Nat.lt_succ_of_lt (hl f (mem_flights_upgraded hf))
  · intro f hf
    rw [clock_land]
    rcases mem_flights_land he hf with rfl | hf
    · refine Nat.lt_succ_of_le (he.received_le fun x hx => hl _ ?_)
      exact List.mem_append_left _ (List.mem_append_left _ (List.mem_map_of_mem hx))
    · exact Nat.lt_succ_of_lt (hl f hf)

/-- Every conversation since the event `n` is a run of the protocol, with the calls that it awaits
now, whatever the replies to them are. -/
structure Conforms (protocol : S → Call × Reply → Option S) (first : S) (n : ℕ) (l : Log) :
    Prop where
  said : ∀ f ∈ l.flights, n ≤ f.received → (Runs.run protocol first f.said).isSome
  awaited : ∀ x ∈ l.pending, n ≤ x.flight.received → ∀ replies,
    replies.length = x.waiting.calls.length →
      (Runs.run protocol first (x.flight.said ++ x.waiting.calls.zip replies)).isSome

/-- The strategy is committed to the pair since the event `n`, and what has begun since then keeps
to the protocol. -/
structure Converses (host : Host) (protocol : S → Call × Reply → Option S) (first : S)
    (pair : TradingPair) (n : ℕ) (l : Log) : Prop where
  sound : l.Sound host
  committed : Committed pair l.memory
  clock : n ≤ l.clock
  said : ∀ f ∈ l.flights, n ≤ f.received → (Runs.run protocol first f.said).isSome
  waiting : ∀ x ∈ l.pending, n ≤ x.flight.received →
    x.flight.Conforms protocol first pair (.call x.waiting.calls x.waiting.resume)

theorem Converses.conforms (hl : l.Converses host protocol first pair n) :
    l.Conforms protocol first n := by
  refine ⟨hl.said, fun x hx hn replies hlen => ?_⟩
  obtain ⟨d, hd, hkeeps⟩ := hl.waiting x hx hn
  obtain ⟨d', hd', -⟩ := hkeeps replies hlen
  rw [Runs.run_append, hd]
  exact Option.isSome_iff_exists.2 ⟨d', hd'⟩

section Steps

variable (hkeeps : ∀ message : Message, Async.Keeps (Committed pair) protocol (fun _ _ => True)
  (fun _ _ => True) first (message.handler host))

include hkeeps

/-- The segment that an event runs goes on as the protocol allows. -/
theorem Enters.conforms (he : l.Enters host e s) (hl : l.Converses host protocol first pair n)
    (hn : n ≤ s.flight.received) : s.flight.Conforms protocol first pair s.handler := by
  cases he with
  | message env message hself => exact ⟨first, rfl, hkeeps message⟩
  | timer time cycles hlive => exact ⟨first, rfl, hkeeps .executeOnce⟩
  | replies i time cycles replies x hx hlen =>
    obtain ⟨d, hd, hrest⟩ := hl.waiting x (List.mem_of_getElem? hx) hn
    obtain ⟨d', hd', hrest⟩ := hrest replies hlen
    refine ⟨d', ?_, hrest⟩
    rw [Flight.said_resumed, Runs.run_append, hd]
    exact hd'

theorem Enters.converses (he : l.Enters host e s) (hl : l.Converses host protocol first pair n) :
    (l.land s).Converses host protocol first pair n := by
  refine ⟨he.sound hl.sound, ?_, ?_, fun f hf hn => ?_, fun x hx hn => ?_⟩
  · have hkept := (he.effect hl.sound.traced).keeps hl.committed.1
    rw [Committed, memory_land]
    exact ⟨fun h => hl.committed.1 (hkept.owner.symm.trans h),
      hkept.tradingPair.trans hl.committed.2⟩
  · rw [clock_land]
    exact Nat.le_succ_of_le hl.clock
  · rcases mem_flights_land he hf with rfl | hf
    · obtain ⟨d, hd, -⟩ := he.conforms hkeeps hl hn
      rw [hd]
      rfl
    · exact hl.said f hf hn
  · rcases mem_pending_land hx with hx | ⟨calls, k, hcalls, rfl⟩
    · exact hl.waiting x (he.others x hx) hn
    · obtain ⟨d, hd, hrest⟩ := he.conforms hkeeps hl hn
      exact ⟨d, hd, (hrest.segment _ (he.memory ▸ hl.committed)).2 calls k hcalls⟩

theorem step_converses (hl : l.Converses host protocol first pair n)
    (hs : l.step host e = some l') : l'.Converses host protocol first pair n := by
  rcases step_cases hs with ⟨-, rfl⟩ | ⟨s, he, rfl⟩
  · exact ⟨sound_upgraded l, hl.committed, Nat.le_succ_of_le hl.clock,
      fun f hf => hl.said f (mem_flights_upgraded hf), fun _ hx => (nomatch hx)⟩
  · exact he.converses hkeeps hl

/-- A protocol that every message keeps to is one that every conversation keeps to, once the
strategy is committed to its pair. -/
theorem conforms_throughout {es : List CanisterEvent}
    (hrun : Runs.run (step host) (start .installed) es = some l)
    (hl : Committed pair l.memory) (es' : List CanisterEvent) :
    Runs.Throughout (step host) (Conforms protocol first l.clock) l es' := by
  have hsound : l.Sound host :=
    Runs.run_preserves (fun _ _ _ => step_sound) (sound_start Timers.tidy_initial) hrun
  have hearlier := received_lt_clock hrun
  refine (Runs.throughout_of_step (P := Converses host protocol first pair l.clock)
    (fun _ _ _ => step_converses hkeeps) es' ⟨hsound, hl, le_rfl, fun f hf hn => ?_,
      fun x hx hn => ?_⟩).mono fun _ => Converses.conforms
  · exact absurd (hearlier f hf) (not_lt_of_ge hn)
  · refine absurd (hearlier x.flight ?_) (not_lt_of_ge hn)
    exact List.mem_append_left _ (List.mem_append_left _ (List.mem_map_of_mem hx))

end Steps

end Log

end HunterFi
