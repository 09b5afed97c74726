import HunterFi.Schedule

/-!
# The configuration of a strategy

`Valid` is what `init_self_hedging` checks of the stored configuration, and that the fields which
mirror it agree. `update_config` asks of the hold token only that it is not anonymous, while an
execution takes any hold token that is not the base token for the quote token.

`valid_iff` : after an initialisation the configuration stays valid, if and only if every
`update_config` that succeeds brings one of the two tokens of the pair.
-/

set_option linter.unusedSectionVars false

namespace HunterFi

open SelfHedging

/-- The token is one of the pair. -/
def TradingPair.Has (pair : TradingPair) (token : Principal) : Prop :=
  pair.baseToken.canisterId = token ∨ pair.quoteToken.canisterId = token

instance decidableHas (pair : TradingPair) (token : Principal) : Decidable (pair.Has token) :=
  inferInstanceAs (Decidable (_ ∨ _))

/-- What `init_self_hedging` checks of the configuration holds, and its mirrors agree with it. -/
structure SelfHedgingState.Valid (s : SelfHedgingState) : Prop where
  hold : s.config.tradingPair.Has s.config.holdToken
  size : s.transactionSize ≠ 0
  interval : s.config.checkIntervalSecs ≠ 0
  base : s.config.tradingPair.baseToken.canisterId ≠ .anonymous
  quote : s.config.tradingPair.quoteToken.canisterId ≠ .anonymous
  sizeMirror : s.transactionSize = s.config.transactionSize
  splitMirror : s.orderSplitType = s.config.orderSplitType

namespace SelfHedgingState.Valid

variable {s s' : SelfHedgingState}

theorem newState {config : SelfHedgingConfig} (owner : Principal) (h : config.Initialises) :
    (SelfHedging.newState owner config).Valid := by
  obtain ⟨hsize, hinterval, hbase, hquote, -, hhold, -⟩ := h
  exact ⟨hhold, hsize, hinterval, hbase, hquote, rfl, rfl⟩

/-- Only the configuration and its mirrors matter. -/
theorem congr (h : s.Valid) (hconfig : s'.config = s.config)
    (hsize : s'.transactionSize = s.transactionSize)
    (hsplit : s'.orderSplitType = s.orderSplitType) : s'.Valid := by
  constructor <;> simp only [hconfig, hsize, hsplit]
  exacts [h.hold, h.size, h.interval, h.base, h.quote, h.sizeMirror, h.splitMirror]

theorem volumeUpdated (h : s.Valid) {size : ℕ} (hsize : size ≠ 0) (splitType : OrderSplitType) :
    (SelfHedging.volumeUpdated size splitType s).Valid :=
  ⟨h.hold, hsize, h.interval, h.base, h.quote, rfl, rfl⟩

/-- An update of the configuration leaves it valid exactly if the hold token is one of the pair. -/
theorem configUpdated_iff (h : s.Valid) {size interval : ℕ} (hsize : size ≠ 0)
    (hinterval : interval ≠ 0) (splitType : OrderSplitType) (slippage : F64)
    (holdToken : Principal) :
    (configUpdated size splitType interval slippage holdToken s).Valid ↔
      s.config.tradingPair.Has holdToken :=
  ⟨fun h' => h'.hold, fun hhas => ⟨hhas, hsize, hinterval, h.base, h.quote, rfl, rfl⟩⟩

end SelfHedgingState.Valid

/-! ## Segments -/

/-- The configuration and its mirrors are the same. -/
structure SameSettings (m m' : Memory) : Prop where
  config : m'.state.config = m.state.config
  size : m'.state.transactionSize = m.state.transactionSize
  split : m'.state.orderSplitType = m.state.orderSplitType

variable {host : Host}

theorem Rebalanced.sameSettings {m m' : Memory} (h : Rebalanced m m') : SameSettings m m' := by
  obtain ⟨b, q, t, rfl⟩ := h
  exact ⟨rfl, rfl, rfl⟩

theorem SelfHedging.Trades.sameSettings {env : Env} {m m' : Memory} (h : Trades host env m m') :
    SameSettings m m' := by
  rcases h with ⟨b, q, t, rfl⟩ | ⟨-, -, b, q, t, rfl⟩ <;> exact ⟨rfl, rfl, rfl⟩

/-- A segment keeps the settings, or it initialises or updates them. -/
theorem Effect.settings {f : Flight} {m : Memory}
    {r : Memory × Async.Await Env Memory Call Reply String Unit} (h : Effect host f m r) :
    SameSettings m r.1 ∨
      (∃ owner config, config.Initialises ∧ r.1.state = newState owner config) ∨
      (∃ size splitType, size ≠ 0 ∧ r.1.state = volumeUpdated size splitType m.state) ∨
      ∃ size splitType interval slippage holdToken,
        f.message = .updateConfig size splitType interval slippage holdToken ∧
          updateConfig host size splitType interval slippage holdToken f.env m = .ok r.1 := by
  cases h with
  | refused e message => exact Or.inl ⟨rfl, rfl, rfl⟩
  | rebalances r message memory => exact Or.inl memory.sameSettings
  | inquires r message refused inquires => exact Or.inl inquires.1.sameSettings
  | initialises owner config message blank valid =>
    exact Or.inr (Or.inl ⟨owner, config, valid, rfl⟩)
  | updatesVolume size splitType message verified pos =>
    exact Or.inr (Or.inr (Or.inl ⟨size, splitType, pos, rfl⟩))
  | updatesConfig size splitType interval slippage holdToken message verified valid =>
    exact Or.inr (Or.inr (Or.inr ⟨size, splitType, interval, slippage, holdToken, message,
      updateConfig_eq_ok.2 ⟨verified, valid, rfl⟩⟩))
  | executes r m' volume flag message trades memory =>
    obtain ⟨hconfig, hsize, hsplit⟩ := trades.sameSettings
    left
    rw [memory]
    cases volume <;> exact ⟨hconfig, hsize, hsplit⟩
  | _ => exact Or.inl ⟨rfl, rfl, rfl⟩

namespace Canister

/-- The configuration in the state is valid. -/
def Valid (c : Canister) : Prop :=
  c.memory.state.Valid

/-- An update of the configuration that succeeds brings a token of the pair to hold. -/
def KeepsPair (host : Host) (c : Canister) (e : CanisterEvent) : Prop :=
  ∀ env size splitType interval slippage holdToken m,
    e = .message env (.updateConfig size splitType interval slippage holdToken) →
      updateConfig host size splitType interval slippage holdToken env c.memory = .ok m →
        c.memory.state.config.tradingPair.Has holdToken

end Canister

/-- After a segment the configuration is valid exactly if an update has kept the pair. -/
theorem Log.Enters.valid_land_iff {l : Log} {e : CanisterEvent} {s : Segment}
    (he : l.Enters host e s) (hl : ∀ x ∈ l.pending, Traced host x)
    (hvalid : l.memory.state.Valid) :
    (l.land s).memory.state.Valid ↔ l.canister.KeepsPair host e := by
  rw [memory_land]
  by_cases hupdate : ∃ env size splitType interval slippage holdToken m,
      e = .message env (.updateConfig size splitType interval slippage holdToken) ∧
        updateConfig host size splitType interval slippage holdToken env l.memory = .ok m
  · obtain ⟨env, size, splitType, interval, slippage, holdToken, m, rfl, hm⟩ := hupdate
    have hresult : s.result = (m, .done ()) := by
      cases he
      exact Async.segment_update hm
    obtain ⟨hverified, ⟨-, hsize, hinterval, -⟩, rfl⟩ := updateConfig_eq_ok.1 hm
    rw [hresult]
    refine (hvalid.configUpdated_iff hsize hinterval splitType slippage holdToken).trans ?_
    constructor
    · rintro hhas env' size' splitType' interval' slippage' holdToken' m' heq -
      cases heq
      exact hhas
    · exact fun h => h _ _ _ _ _ _ _ rfl hm
  · refine iff_of_true ?_ fun env size splitType interval slippage holdToken m heq hm =>
      absurd ⟨env, size, splitType, interval, slippage, holdToken, m, heq, hm⟩ hupdate
    rcases (he.effect hl).settings with ⟨hconfig, hsize, hsplit⟩ | ⟨owner, config, hinit, hm⟩ |
      ⟨size, splitType, hsize, hm⟩ | ⟨size, splitType, interval, slippage, holdToken, hm, hok⟩
    · exact hvalid.congr hconfig hsize hsplit
    · rw [hm]
      exact .newState owner hinit
    · rw [hm]
      exact hvalid.volumeUpdated hsize splitType
    · exact absurd ⟨_, size, splitType, interval, slippage, holdToken, _,
        he.eq_message hl rfl hm nofun, hok⟩ hupdate

/-- After an initialisation the configuration is valid in every state of a run if and only if every
update of it that succeeds brings a token of the pair to hold. -/
theorem Canister.valid_iff (host : Host) {es₀ : List CanisterEvent} {c : Canister}
    (hrun : Runs.run (step host) installed es₀ = some c) {owner : Principal}
    {config : SelfHedgingConfig} {env : Env} {m : Memory}
    (hinit : initSelfHedging owner config env c.memory = .ok m) (es : List CanisterEvent) :
    Runs.Throughout (step host) Valid ⟨m, c.waiting⟩ es ↔
      Runs.Along (step host) (KeepsPair host) ⟨m, c.waiting⟩ es := by
  have hmap := Runs.run_map (Log.step_canister host) es₀ (Log.start .installed)
  rw [show (Log.start .installed).canister = .installed from rfl, hrun] at hmap
  obtain ⟨l, hl, rfl⟩ := Option.map_eq_some_iff.1 hmap
  have hsound : l.Sound host :=
    Runs.run_preserves (fun _ _ _ => Log.step_sound) (Log.sound_start Timers.tidy_initial) hl
  obtain ⟨-, hconfig, rfl⟩ := initSelfHedging_eq_ok.1 hinit
  rw [show (⟨{ l.canister.memory with state := newState owner config }, l.canister.waiting⟩ :
      Canister) = Log.canister { l with memory := { l.memory with
        state := newState owner config } } from rfl,
    Runs.throughout_map (Log.step_canister host), Runs.along_map (Log.step_canister host)]
  refine Runs.throughout_iff_along (I := Log.Sound host) (fun l e l' hl hvalid _ hs => ?_)
    ⟨hsound.traced, hsound.tidy⟩ (.newState owner hconfig) Runs.along_true
  refine ⟨Log.step_sound hl hs, ?_⟩
  rcases Log.step_cases hs with ⟨rfl, rfl⟩ | ⟨s, he, rfl⟩
  · exact iff_of_true hvalid fun _ _ _ _ _ _ _ heq => (nomatch heq)
  · exact he.valid_land_iff hl.traced hvalid

/-- A strategy that takes up the quote token of its pair. -/
theorem Canister.valid_iff_quote : Runs.Throughout (step sampleHost) Valid ⟨Sample.initialised, []⟩
    [Sample.asks 1 (.updateConfig 5 .splitBoth 60 ⟨0x3FE0000000000000⟩ Sample.ckUsdc)] := by
  refine (valid_iff sampleHost (Runs.run_nil installed)
    (Sample.initialises_hedgeConfig ⟨0, Sample.strategist, 0⟩) _).2 fun c' hc' => ⟨?_, trivial⟩
  rintro env size splitType interval slippage holdToken m heq -
  cases heq
  exact Or.inr rfl

/-- An update after the initialisation brings a hold token that is not in the pair. -/
theorem Canister.not_valid_foreign :
    initSelfHedging Sample.strategist Sample.hedgeConfig ⟨0, Sample.strategist, 0⟩ .installed =
      .ok Sample.initialised ∧
    ¬Runs.Throughout (step sampleHost) Valid ⟨Sample.initialised, []⟩
      [Sample.asks 1 (.updateConfig 5 .splitBoth 60 ⟨0x3FE0000000000000⟩ samplePool)] := by
  refine ⟨Sample.initialises_hedgeConfig _, ?_⟩
  refine Runs.not_throughout (p := fun c => ¬c.memory.state.config.tradingPair.Has
    c.memory.state.config.holdToken) (fun c hc h => ?_) (by decide +kernel)
  simp only [decide_eq_true_eq] at hc
  exact hc h.hold

end HunterFi
