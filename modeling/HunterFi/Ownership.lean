import HunterFi.Strategy

/-!
# The owner and the configuration of a strategy

What an event does to the owner and the configuration of a strategy canister (`Sets`) : an
initialisation sets both, if there was no owner, an update of the configuration is a message
of the owner, and every other segment leaves both alone, whatever the handlers that wait go
on to do.
-/

set_option linter.unusedSectionVars false

namespace HunterFi

open SelfHedging

/-! ## Initialisation -/

/-- A configuration that `init_self_hedging` takes. -/
def SelfHedgingConfig.Initialises (c : SelfHedgingConfig) : Prop :=
  c.transactionSize ≠ 0 ∧ c.checkIntervalSecs ≠ 0 ∧
    c.tradingPair.baseToken.canisterId ≠ .anonymous ∧
    c.tradingPair.quoteToken.canisterId ≠ .anonymous ∧ c.holdToken ≠ .anonymous ∧
    (c.tradingPair.baseToken.canisterId = c.holdToken ∨
      c.tradingPair.quoteToken.canisterId = c.holdToken) ∧
    c.slippageTolerance.le .zero = false ∧ F64.le .one c.slippageTolerance = false

instance (c : SelfHedgingConfig) : Decidable c.Initialises :=
  inferInstanceAs (Decidable (_ ∧ _))

/-- `init_self_hedging` succeeds once, for a configuration that passes its checks. -/
theorem initSelfHedging_eq_ok {owner : Principal} {config : SelfHedgingConfig} {env : Env}
    {m m' : Memory} : initSelfHedging owner config env m = .ok m' ↔
      m.state.owner = .anonymous ∧ config.Initialises ∧
        m' = { m with state := newState owner config } := by
  unfold initSelfHedging
  dsimp only
  split_ifs with howner hsize hinterval htokens hhold hslippage
  · exact iff_of_false nofun fun h => howner h.1
  · exact iff_of_false nofun fun h => h.2.1.1 hsize
  · exact iff_of_false nofun fun h => h.2.1.2.1 hinterval
  · refine iff_of_false nofun ?_
    rintro ⟨-, ⟨-, -, hbase, hquote, -⟩, -⟩
    exact htokens.elim hbase hquote
  · refine iff_of_false nofun ?_
    rintro ⟨-, ⟨-, -, -, -, hanonymous, hpair, -⟩, -⟩
    exact hhold.elim hanonymous fun h => hpair.elim h.1 h.2
  · refine iff_of_false nofun ?_
    rintro ⟨-, ⟨-, -, -, -, -, -, hzero, hone⟩, -⟩
    simp [hzero, hone] at hslippage
  · push Not at howner htokens hhold hslippage
    have hpair : config.tradingPair.baseToken.canisterId = config.holdToken ∨
        config.tradingPair.quoteToken.canisterId = config.holdToken := by
      by_contra hn
      push Not at hn
      exact hn.2 (hhold.2 hn.1)
    have hconfig : config.Initialises := ⟨hsize, hinterval, htokens.1, htokens.2, hhold.1, hpair,
      by simpa using hslippage.1, by simpa using hslippage.2⟩
    rw [Except.ok.injEq, eq_comm, and_iff_right howner, and_iff_right hconfig]

/-! ## Handlers -/

/-- The owner and the configuration are the same. -/
def SameConfig (m m' : Memory) : Prop :=
  m'.state.owner = m.state.owner ∧ m'.state.config = m.state.config

theorem SameConfig.refl (m : Memory) : SameConfig m m :=
  ⟨rfl, rfl⟩

theorem SameConfig.trans {m m' m'' : Memory} (h : SameConfig m m') (h' : SameConfig m' m'') :
    SameConfig m m'' :=
  ⟨h'.1.trans h.1, h'.2.trans h.2⟩

/-- The owner passes the test and the strategy itself, and nobody else. -/
theorem verifyOwner_eq_ok {host : Host} {env : Env} {m : Memory} :
    verifyOwner host env m = .ok () ↔ env.caller = m.state.owner ∨ env.caller = host.id := by
  unfold verifyOwner
  split_ifs with h
  · simp_all [eq_comm]
  · simp only [true_iff]
    by_contra hn
    exact h ⟨fun he => hn (Or.inl he), fun he => hn (Or.inr he.symm)⟩

/-- A pause leaves the owner and the configuration. -/
theorem pause_sameConfig {host : Host} {env : Env} {m m' : Memory}
    (h : pause host env m = .ok m') : SameConfig m m' := by
  unfold pause at h
  cases hv : verifyOwner host env m <;> cases hs : verifyStatus [.running] m <;>
    simp_all [Except.bind, bind, pure, Except.pure]
  obtain rfl := h
  exact SameConfig.refl m

/-- So does a stop. -/
theorem stop_sameConfig {host : Host} {env : Env} {m m' : Memory}
    (h : stop host env m = .ok m') : SameConfig m m' := by
  unfold stop at h
  cases hv : verifyOwner host env m <;> simp_all [Except.bind, bind, pure, Except.pure]
  obtain rfl := h
  exact SameConfig.refl m

/-- An update is for the owner. -/
theorem verifyOwner_of_verifyUpdate {host : Host} {env : Env} {m : Memory}
    (h : verifyUpdate host env m = .ok ()) : verifyOwner host env m = .ok () := by
  unfold verifyUpdate at h
  cases hv : verifyOwner host env m with
  | error e => simp [hv] at h
  | ok _ => rfl

/-- An update of the configuration is a call of the owner, and leaves the owner if what follows the
checks does. -/
theorem update_owner {host : Host} {env : Env} {m m' : Memory} {q : Unit → Except String Memory}
    (hq : ∀ m', q () = .ok m' → m'.state.owner = m.state.owner)
    (h : (verifyUpdate host env m >>= q) = .ok m') :
    verifyOwner host env m = .ok () ∧ m'.state.owner = m.state.owner := by
  cases hv : verifyUpdate host env m with
  | error e => simp [hv, bind, Except.bind] at h
  | ok _ =>
    simp only [hv, bind, Except.bind] at h
    exact ⟨verifyOwner_of_verifyUpdate hv, hq m' h⟩

theorem updateVolumeConfig_owner {host : Host} {size : ℕ} {splitType : OrderSplitType} {env : Env}
    {m m' : Memory} (h : updateVolumeConfig host size splitType env m = .ok m') :
    verifyOwner host env m = .ok () ∧ m'.state.owner = m.state.owner := by
  unfold updateVolumeConfig at h
  refine update_owner (fun m' hm => ?_) h
  split_ifs at hm
  obtain rfl := Except.ok.inj hm
  rfl

theorem updateConfig_owner {host : Host} {size : ℕ} {splitType : OrderSplitType} {interval : ℕ}
    {slippage : F64} {holdToken : Principal} {env : Env} {m m' : Memory}
    (h : updateConfig host size splitType interval slippage holdToken env m = .ok m') :
    verifyOwner host env m = .ok () ∧ m'.state.owner = m.state.owner := by
  unfold updateConfig at h
  refine update_owner (fun m' hm => ?_) h
  split_ifs at hm
  obtain rfl := Except.ok.inj hm
  rfl

/-- So does an execution. -/
theorem executeOnce_changes (host : Host) : (executeOnce host).Changes fun _ => SameConfig :=
  changes_executeOnce (fun _ => SameConfig.refl) (fun _ m _ _ => SameConfig.refl m) host
    (fun _ m _ => SameConfig.refl m) (fun _ _ _ h => pause_sameConfig h)
    fun _ m _ => SameConfig.refl m

/-! ## Steps of a canister -/

namespace Canister

variable {host : Host} {c c' : Canister} {e : CanisterEvent}

/-- The handlers that wait leave the owner and the configuration alone. -/
def Steady (c : Canister) : Prop :=
  ∀ w ∈ c.waiting, ∀ replies, (w.resume replies).Changes fun _ => SameConfig

/-- What an event does to the owner and the configuration. -/
inductive Sets (c : Canister) : CanisterEvent → Canister → Prop
  | keeps (e : CanisterEvent) (c' : Canister)
    (same : SameConfig c.memory c'.memory) : Sets c e c'
  | initialises (env : Env) (owner : Principal) (config : SelfHedgingConfig) (c' : Canister)
    (blank : c.memory.state.owner = .anonymous) (initialises : config.Initialises)
    (state : c'.memory.state = newState owner config) :
    Sets c (.message env (.initSelfHedging owner config)) c'
  | updates (env : Env) (message : Message) (c' : Canister)
    (caller : env.caller = c.memory.state.owner)
    (owner : c'.memory.state.owner = c.memory.state.owner) : Sets c (.message env message) c'

theorem steady_installed : installed.Steady := by
  simp [Steady, installed]

/-- A segment of a handler that keeps the configuration. -/
theorem Steady.advance (hc : c.Steady) (env : Env) {p : Handler Unit}
    (hp : p.Changes fun _ => SameConfig) :
    (c.advance env p).Steady ∧ SameConfig c.memory (c.advance env p).memory := by
  obtain ⟨hsame, hnext⟩ := hp.segment (i := env) SameConfig.refl (fun _ _ _ => SameConfig.trans)
    c.memory
  unfold Canister.advance
  generalize p.segment env c.memory = q at hsame hnext
  obtain ⟨m, ⟨⟩ | ⟨⟩ | ⟨calls, k⟩⟩ := q
  · exact ⟨hc, hsame⟩
  · exact ⟨hc, hsame⟩
  · exact ⟨List.forall_mem_cons.2 ⟨hnext calls k rfl, hc⟩, hsame⟩

/-- A segment of a handler that awaits nothing. -/
theorem advance_update (c : Canister) (env : Env) (f : Env → Memory → Except String Memory) :
    (∃ m', f env c.memory = .ok m' ∧ c.advance env (.update f) = ⟨m', c.waiting⟩) ∨
      (∃ message, f env c.memory = .error message) ∧ c.advance env (.update f) = c := by
  unfold Canister.advance Async.update
  simp only [Async.segment]
  cases hf : f env c.memory with
  | ok m' => exact Or.inl ⟨m', rfl, rfl⟩
  | error message => exact Or.inr ⟨⟨message, rfl⟩, rfl⟩

theorem Steady.advance_update (hc : c.Steady) (env : Env)
    (f : Env → Memory → Except String Memory) : (c.advance env (.update f)).Steady := by
  rcases Canister.advance_update c env f with ⟨m', -, heq⟩ | ⟨-, heq⟩
  · rw [heq]
    exact hc
  · rw [heq]
    exact hc

/-- A message keeps the waiting handlers steady, and sets the owner only as an initialisation. -/
theorem advance_message {env : Env} (hc : c.Steady) (hself : env.caller ≠ host.id)
    (message : Message) : (c.advance env (message.handler host)).Steady ∧
      c.Sets (.message env message) (c.advance env (message.handler host)) := by
  have hasync : ∀ {p : Handler Unit}, (p.Changes fun _ => SameConfig) →
      (c.advance env p).Steady ∧ c.Sets (.message env message) (c.advance env p) := fun hp =>
    ⟨(hc.advance env hp).1, .keeps _ _ (hc.advance env hp).2⟩
  have hbalance : ∀ (env : Env) (m : Memory) (b q : ℕ),
      SameConfig m (updateUnusedBalance b q env m) := fun _ m _ _ => SameConfig.refl m
  have hsync : ∀ {f : Env → Memory → Except String Memory},
      (∀ m', f env c.memory = .ok m' → c.Sets (.message env message) ⟨m', c.waiting⟩) →
        (c.advance env (.update f)).Steady ∧
          c.Sets (.message env message) (c.advance env (.update f)) := by
    intro f hf
    refine ⟨hc.advance_update env f, ?_⟩
    rcases advance_update c env f with ⟨m', hm', heq⟩ | ⟨-, heq⟩
    · rw [heq]
      exact hf m' hm'
    · rw [heq]
      exact .keeps _ _ (SameConfig.refl _)
  have howner : verifyOwner host env c.memory = .ok () → env.caller = c.memory.state.owner :=
    fun h => (verifyOwner_eq_ok.1 h).resolve_right hself
  cases message with
  | initSelfHedging owner config =>
    refine hsync fun m' h => ?_
    obtain ⟨hblank, hinit, rfl⟩ := initSelfHedging_eq_ok.1 h
    exact .initialises env owner config _ hblank hinit rfl
  | start =>
    exact hasync (changes_start (fun _ => SameConfig.refl) hbalance host
      (fun _ m _ => SameConfig.refl m) fun _ m => SameConfig.refl m)
  | pause => exact hsync fun m' h => .keeps _ _ (pause_sameConfig h)
  | stop => exact hsync fun m' h => .keeps _ _ (stop_sameConfig h)
  | executeOnce => exact hasync (executeOnce_changes host)
  | updateVolumeConfig size splitType =>
    refine hsync fun m' h => ?_
    obtain ⟨hv, ho⟩ := updateVolumeConfig_owner h
    exact .updates env _ _ (howner hv) ho
  | updateConfig size splitType interval slippage holdToken =>
    refine hsync fun m' h => ?_
    obtain ⟨hv, ho⟩ := updateConfig_owner h
    exact .updates env _ _ (howner hv) ho
  | depositToExchange tokenType amount =>
    exact hasync
      (changes_depositToExchange (fun _ => SameConfig.refl) hbalance host tokenType amount)
  | withdrawFromExchange tokenType amount =>
    exact hasync
      (changes_withdrawFromExchange (fun _ => SameConfig.refl) hbalance host tokenType amount)
  | refreshBalance => exact hasync (changes_refreshBalance (fun _ => SameConfig.refl) hbalance host)

/-- Every event keeps the owner and the configuration, initialises the canister, or is an
update of its owner. -/
theorem step_sets (hc : c.Steady) (hs : c.step host e = some c') : c'.Steady ∧ c.Sets e c' := by
  cases e with
  | message env message =>
    simp only [step] at hs
    split_ifs at hs with hself
    obtain rfl := Option.some.inj hs
    exact advance_message hc hself message
  | timer time cycles =>
    simp only [step] at hs
    split_ifs at hs
    obtain rfl := Option.some.inj hs
    obtain ⟨hsteady, hsame⟩ := hc.advance ⟨time, host.id, cycles⟩ (executeOnce_changes host)
    exact ⟨hsteady, .keeps _ _ hsame⟩
  | replies i time cycles replies =>
    simp only [step] at hs
    cases hw : c.waiting[i]? with
    | none => simp [hw] at hs
    | some w =>
      simp only [hw] at hs
      split_ifs at hs
      obtain rfl := Option.some.inj hs
      have hrest : Steady { c with waiting := c.waiting.eraseIdx i } :=
        fun w' hw' => hc w' (List.mem_of_mem_eraseIdx hw')
      obtain ⟨hsteady, hsame⟩ := hrest.advance ⟨time, w.caller, cycles⟩
        (hc w (List.mem_of_getElem? hw) replies)
      exact ⟨hsteady, .keeps _ _ hsame⟩
  | upgrade =>
    obtain rfl := Option.some.inj hs
    exact ⟨by simp [Steady], .keeps _ _ (SameConfig.refl _)⟩

end Canister

end HunterFi
