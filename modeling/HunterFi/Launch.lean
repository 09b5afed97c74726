import HunterFi.Ownership
import HunterFi.Requests

/-!
# Launching a strategy

One run of `execute_deployment` with the canister that it creates. While it waits, other
messages run on the factory, which keep the owner and the configuration of its record
(`others`), and anyone may call the new canister once its code is installed. The init call
is a message of the factory to the canister. Its reply decodes to `()` whatever the strategy
answers. `found` is a history variable : the memory that the init call found.

After the init call the owner of the record is left out of the canister's callers, who may
change the configuration at will.

`reports_iff` : the factory reports a strategy as deployed that has the owner and the
configuration of its record exactly if the init call found a canister that could be
initialised with them, or had them already. `World.sameRecord_step` : the messages of the
factory are such `others`.
-/

set_option linter.unusedSectionVars false

namespace HunterFi

open SelfHedging Deployment

/-! ## The state -/

/-- Where the execution of a deployment is. -/
inductive Phase
  | requested
  | waiting (record : DeploymentRecord) (stage : Stage)
  | returned (result : Except String DeploymentResult)

/-- A deployment with the factory and the canister that it makes. -/
structure Launch where
  factory : Factory
  phase : Phase
  canister : Option Canister
  found : Option Memory

/-- What happens to either, in any order. -/
inductive LaunchEvent
  | others (f : Factory)
  | executeDeployment (env : Env)
  | canisterCreated (env : Env) (result : CallResult Principal)
  | install
  | codeInstalled (env : Env) (result : CallResult Unit)
  | canister (e : CanisterEvent)
  | initCall (time cycles : ℕ)
  | strategyInitialized (env : Env) (result : CallResult Unit)

instance (r' r : DeploymentRecord) : Decidable (r'.Follows r) :=
  decidable_of_iff (r'.deploymentId = r.deploymentId ∧ r'.strategyType = r.strategyType ∧
      r'.owner = r.owner ∧ r'.feeAmount = r.feeAmount ∧ r'.requestTime = r.requestTime ∧
      r'.configData = r.configData)
    ⟨fun ⟨h1, h2, h3, h4, h5, h6⟩ => ⟨h1, h2, h3, h4, h5, h6⟩,
      fun ⟨h1, h2, h3, h4, h5, h6⟩ => ⟨h1, h2, h3, h4, h5, h6⟩⟩

/-- If `g` has a record of the deployment, it is a later state of the one in `f`. -/
def SameRecord (id : String) (f g : Factory) : Prop :=
  ∀ r' ∈ g.getDeploymentRecord id, ∃ r ∈ f.getDeploymentRecord id, r'.Follows r

instance (id : String) (f g : Factory) : Decidable (SameRecord id f g) :=
  inferInstanceAs (Decidable (∀ r' ∈ g.getDeploymentRecord id,
    ∃ r ∈ f.getDeploymentRecord id, r'.Follows r))

namespace Launch

/-- The state before the deployment starts. -/
def start (f : Factory) : Launch :=
  ⟨f, .requested, none, none⟩

/-- The state after a segment of `execute_deployment`. -/
def resume (l : Launch) : Progress × Factory → Launch
  | (.awaiting record stage, f) => { l with factory := f, phase := .waiting record stage }
  | (.returned result, f) => { l with factory := f, phase := .returned result }

/-- The canister may be called : by anyone before the init call, by third parties after it. -/
def admits (l : Launch) (record : DeploymentRecord) : CanisterEvent → Bool
  | .message env _ =>
    l.found.isNone || (decide (record.owner ≠ .anonymous) && decide (env.caller ≠ record.owner))
  | _ => true

/-- The init call, executed by the canister. -/
def init (l : Launch) (P : Platform) (host : Host) (call : InitCall) (time cycles : ℕ) :
    Option Launch :=
  match call.config, l.canister, l.found with
  | .selfHedging config, some c, none =>
    some { l with
      canister := some (c.advance ⟨time, P.id, cycles⟩
        ((Message.initSelfHedging call.owner config).handler host))
      found := some c.memory }
  | _, _, _ => none

/-- One event. The new canister is `host.id`. -/
def step (P : Platform) (host : Host) (id : String) (l : Launch) : LaunchEvent → Option Launch
  | .others f =>
    match l.phase with
    | .returned _ => none
    | _ => if SameRecord id l.factory f then some { l with factory := f } else none
  | .executeDeployment env =>
    match l.phase with
    | .requested => some (l.resume (executeDeployment P env l.factory id))
    | _ => none
  | .canisterCreated env result =>
    match l.phase with
    | .waiting record .createCanister =>
      if result = .ok host.id ∨ result.isOk = false then
        some (l.resume (afterCreateCanister P env l.factory id record result))
      else none
    | _ => none
  | .install =>
    match l.phase, l.canister with
    | .waiting _ (.installCode _), none => some { l with canister := some .installed }
    | _, _ => none
  | .codeInstalled env result =>
    match l.phase with
    | .waiting record (.installCode canisterId) =>
      if l.canister.isSome ∨ result.isOk = false then
        some (l.resume (afterInstallCode P env l.factory id record canisterId result))
      else none
    | _ => none
  | .canister e =>
    match l.phase, l.canister with
    | .waiting record _, some c =>
      if l.admits record e then (c.step host e).map fun c => { l with canister := some c } else none
    | _, _ => none
  | .initCall time cycles =>
    match l.phase with
    | .waiting _ (.initStrategy call) => l.init P host call time cycles
    | _ => none
  | .strategyInitialized env result =>
    match l.phase with
    | .waiting record (.initStrategy call) =>
      if l.found.isSome ∨ result.isOk = false then
        some (l.resume (afterInitStrategy P env l.factory id record call.canisterId result))
      else none
    | _ => none

end Launch

/-! ## What is claimed -/

/-- The strategy has this owner and this configuration. -/
def Memory.Has (m : Memory) (owner : Principal) (config : SelfHedgingConfig) : Prop :=
  m.state.owner = owner ∧ m.state.config = config

/-- An init call with this owner and this configuration leaves a strategy that has them. -/
def Memory.Takes (m : Memory) (owner : Principal) (config : SelfHedgingConfig) : Prop :=
  m.state.owner = .anonymous ∧ config.Initialises ∨ m.Has owner config

instance (m : Memory) (owner : Principal) (config : SelfHedgingConfig) :
    Decidable (m.Has owner config) :=
  inferInstanceAs (Decidable (_ ∧ _))

instance (m : Memory) (owner : Principal) (config : SelfHedgingConfig) :
    Decidable (m.Takes owner config) :=
  inferInstanceAs (Decidable (_ ∧ _ ∨ _))

example : ¬Memory.installed.Takes Sample.icp Sample.config := by decide +kernel

/-- A strategy that is reported as deployed has the owner and the configuration of its record. -/
def Launch.Reports (P : Platform) (id : String) (l : Launch) : Prop :=
  ∀ canisterId, l.phase = .returned (.ok (.success canisterId)) →
    ∃ c record config, l.canister = some c ∧ l.factory.getDeploymentRecord id = some record ∧
      record.status = .deployed ∧ P.decodeSelfHedging record.configData = .ok config ∧
      c.memory.Has record.owner config

/-- An init call that came back, for a record that is still stored, found a canister that takes
the owner and the configuration of the record. -/
def Launch.Ready (P : Platform) (id : String) (l : Launch) : LaunchEvent → Prop
  | .strategyInitialized _ (.ok ()) =>
    ∀ record call found config, l.phase = .waiting record (.initStrategy call) →
      l.found = some found → P.decodeSelfHedging record.configData = .ok config →
        (l.factory.getDeploymentRecord id).isSome → found.Takes record.owner config
  | _ => True

/-! ## The init call and the calls after it -/

variable {owner : Principal} {config : SelfHedgingConfig} {found m : Memory}

/-- What the init call left, and what third parties have made of it. -/
inductive Answered (owner : Principal) (config : SelfHedgingConfig) (found m : Memory) : Prop
  | initialised (takes : found.Takes owner config) (has : m.Has owner config)
  | missed (takes : ¬found.Takes owner config) (has : ¬m.Has owner config)
    (blank : owner ≠ .anonymous → m.state.owner = .anonymous → ¬config.Initialises)

/-- The canister has its owner and configuration if and only if what was found took them. -/
theorem Answered.has_iff (h : Answered owner config found m) :
    m.Has owner config ↔ found.Takes owner config := by
  cases h with
  | initialised takes has => exact iff_of_true has takes
  | missed takes has => exact iff_of_false has takes

/-- The init call itself. -/
theorem answered_advance (c : Canister) (env : Env) (host : Host) (owner : Principal)
    (config : SelfHedgingConfig) : Answered owner config c.memory
      (c.advance env ((Message.initSelfHedging owner config).handler host)).memory := by
  rcases Canister.advance_update c env (initSelfHedging owner config) with
    ⟨m', hm', heq⟩ | ⟨⟨message, hrefused⟩, heq⟩
  · obtain ⟨hblank, hinit, rfl⟩ := initSelfHedging_eq_ok.1 hm'
    rw [Message.handler, heq]
    exact .initialised (Or.inl ⟨hblank, hinit⟩) ⟨rfl, rfl⟩
  · have hno : ¬(c.memory.state.owner = .anonymous ∧ config.Initialises) := by
      rintro ⟨hblank, hinit⟩
      have hok : initSelfHedging owner config env c.memory =
          .ok { c.memory with state := newState owner config } :=
        initSelfHedging_eq_ok.2 ⟨hblank, hinit, rfl⟩
      exact absurd (hrefused.symm.trans hok) nofun
    rw [Message.handler, heq]
    by_cases hhas : c.memory.Has owner config
    · exact .initialised (Or.inr hhas) hhas
    · exact .missed (fun h => h.elim hno hhas) hhas fun _ hblank hinit => hno ⟨hblank, hinit⟩

/-- A third party changes nothing about it. -/
theorem Answered.sets {c c' : Canister} {e : CanisterEvent}
    (h : Answered owner config found c.memory) (hs : c.Sets e c')
    (hparty : ∀ env message, e = .message env message →
      owner ≠ .anonymous ∧ env.caller ≠ owner) : Answered owner config found c'.memory := by
  cases hs with
  | keeps e c' same =>
    have hhas : c'.memory.Has owner config ↔ c.memory.Has owner config := by
      unfold Memory.Has
      rw [same.1, same.2]
    cases h with
    | initialised takes has => exact .initialised takes (hhas.2 has)
    | missed takes has blank => exact .missed takes (fun hn => has (hhas.1 hn)) (same.1 ▸ blank)
  | initialises env owner' config' c' hblank hinit hstate =>
    obtain ⟨hne, -⟩ := hparty _ _ rfl
    cases h with
    | initialised takes has => exact absurd (has.1.symm.trans hblank) hne
    | missed takes has blank =>
      have hconfig := blank hne hblank
      refine .missed takes (fun hn => hconfig ?_) fun _ _ => hconfig
      rw [← hn.2, hstate]
      exact hinit
  | updates env message c' caller howner =>
    obtain ⟨hne, hcaller⟩ := hparty _ _ rfl
    rw [caller] at hcaller
    cases h with
    | initialised takes has => exact absurd has.1 hcaller
    | missed takes has blank =>
      exact .missed takes (fun hn => hcaller (howner ▸ hn.1)) (howner ▸ blank)

/-! ## The segments of the execution -/

/-- A segment that ends without a deployed strategy. -/
def Progress.Fails : Progress → Prop
  | .returned (.ok (.success _)) => False
  | .returned _ => True
  | .awaiting _ _ => False

/-- Every record of the deployment in `f` is a later state of `record`. -/
def Agrees (id : String) (f : Factory) (record : DeploymentRecord) : Prop :=
  ∀ r ∈ f.getDeploymentRecord id, r.Follows record

section Segments

variable {P : Platform} {env : Env} {f g : Factory} {id : String} {record : DeploymentRecord}

theorem SameRecord.trans {h : Factory} (hgh : SameRecord id g h) (hfg : SameRecord id f g) :
    SameRecord id f h := by
  intro r'' hr''
  obtain ⟨r', hr', hfollows'⟩ := hgh r'' hr''
  obtain ⟨r, hr, hfollows⟩ := hfg r' hr'
  exact ⟨r, hr, hfollows'.trans hfollows⟩

/-- What others do leaves the record of the deployment. -/
theorem Agrees.others (h : Agrees id f record) (hs : SameRecord id f g) : Agrees id g record := by
  intro r' hr'
  obtain ⟨r, hr, hfollows⟩ := hs r' hr'
  exact hfollows.trans (h r hr)

/-- A new status leaves the rest of the record. -/
theorem sameRecord_updateDeploymentStatus {status : DeploymentStatus}
    {canisterId : Option Principal} {errorMessage : Option String}
    (h : f.updateDeploymentStatus env id status canisterId errorMessage = .ok g) :
    SameRecord id f g := by
  obtain ⟨r, hr, rfl⟩ := Factory.updateDeploymentStatus_eq_ok.1 h
  intro r' hr'
  rw [Option.mem_def, Factory.getDeploymentRecord_storeDeploymentRecord] at hr'
  split_ifs at hr'
  · obtain rfl := Option.some.inj hr'
    exact ⟨r, hr, r.follows_withStatus _ _ _ _⟩
  · exact ⟨r', hr', .refl r'⟩

/-- A failure ends the execution. -/
theorem fails_fail (canisterId : Option Principal) (error : DeploymentError) :
    (fail P env f id canisterId error).1.Fails := by
  unfold fail handleDeploymentFailure
  cases f.updateDeploymentStatus env id .deploymentFailed canisterId (some error.text) with
  | error e => trivial
  | ok g =>
    dsimp only
    cases g.getDeploymentRecord id <;> trivial

variable (P env f id)

/-- The first segment fails or awaits a canister. -/
theorem executeDeployment_cases : (executeDeployment P env f id).1.Fails ∨
    ∃ record, f.getDeploymentRecord id = some record ∧
      executeDeployment P env f id = (.awaiting record .createCanister, f) := by
  unfold executeDeployment
  cases hr : f.getDeploymentRecord id with
  | none => exact Or.inl trivial
  | some record =>
    dsimp only
    split_ifs
    · exact Or.inl (fails_fail _ _)
    · exact Or.inr ⟨record, rfl, rfl⟩

/-- The second one fails or awaits the installation. -/
theorem afterCreateCanister_cases (record : DeploymentRecord) (result : CallResult Principal) :
    (afterCreateCanister P env f id record result).1.Fails ∨
      ∃ canisterId g, SameRecord id f g ∧ record.strategyType = .selfHedging ∧
        afterCreateCanister P env f id record result =
          (.awaiting record (.installCode canisterId), g) := by
  unfold afterCreateCanister
  cases result with
  | error code message => exact Or.inl (fails_fail _ _)
  | ok canisterId =>
    dsimp only
    cases hg : f.updateDeploymentStatus env id .canisterCreated (some canisterId) none with
    | error e => exact Or.inl trivial
    | ok g =>
      dsimp only
      cases getEmbeddedWasmModule record.strategyType with
      | none => exact Or.inl (fails_fail _ _)
      | some code =>
        dsimp only
        split_ifs with hty
        · exact Or.inl (fails_fail _ _)
        · exact Or.inr ⟨canisterId, g, sameRecord_updateDeploymentStatus hg, not_not.1 hty, rfl⟩

/-- The third one fails or calls the initialisation with the stored configuration. -/
theorem afterInstallCode_cases (hty : record.strategyType = .selfHedging) (canisterId : Principal)
    (result : CallResult Unit) :
    (afterInstallCode P env f id record canisterId result).1.Fails ∨
      result.isOk ∧ ∃ g config, SameRecord id f g ∧
        P.decodeSelfHedging record.configData = .ok config ∧
        afterInstallCode P env f id record canisterId result =
          (.awaiting record (.initStrategy
            ⟨canisterId, "init_self_hedging", record.owner, .selfHedging config⟩), g) := by
  unfold afterInstallCode
  cases result with
  | error code message => exact Or.inl (fails_fail _ _)
  | ok _ =>
    dsimp only
    cases hg : f.updateDeploymentStatus env id .codeInstalled (some canisterId) none with
    | error e => exact Or.inl trivial
    | ok g =>
      simp only [hty, initializeStrategy]
      cases hd : P.decodeSelfHedging record.configData with
      | error e => exact Or.inl (fails_fail _ _)
      | ok config => exact Or.inr ⟨rfl, g, config, sameRecord_updateDeploymentStatus hg, rfl, rfl⟩

/-- The last segment reports the strategy as deployed if the call came back and the record is
still stored, and otherwise fails. -/
theorem afterInitStrategy_cases (hty : record.strategyType = .selfHedging)
    (hd : P.decodeSelfHedging record.configData = .ok config) (canisterId : Principal)
    (result : CallResult Unit) :
    (¬(result = .ok () ∧ (f.getDeploymentRecord id).isSome) ∧
      (afterInitStrategy P env f id record canisterId result).1.Fails) ∨
    (result = .ok () ∧ ∃ r r' g, f.getDeploymentRecord id = some r ∧
      g.getDeploymentRecord id = some r' ∧ r'.Follows r ∧ r'.status = .deployed ∧
        afterInitStrategy P env f id record canisterId result =
          (.returned (.ok (.success canisterId)), g)) := by
  unfold afterInitStrategy
  cases result with
  | error code message => exact Or.inl ⟨nofun, fails_fail _ _⟩
  | ok u =>
    cases hr : f.getDeploymentRecord id with
    | none =>
      refine Or.inl ⟨by simp, ?_⟩
      simp [Factory.updateDeploymentStatus, hr, Progress.Fails]
    | some r =>
      have hrid := Factory.deploymentId_of_getDeploymentRecord hr
      obtain ⟨r₁, hr₁⟩ : ∃ r₁, r₁ = r.withStatus env.time .initialized (some canisterId) none :=
        ⟨_, rfl⟩
      have hf₁ : r₁.Follows r := hr₁ ▸ r.follows_withStatus _ _ _ _
      have hid : id = r₁.deploymentId := (hf₁.deploymentId.trans hrid).symm
      have hg : ∀ m, ((f.storeDeploymentRecord r₁).storeStrategyMetadata m).getDeploymentRecord id =
          some r₁ := fun m =>
        (Factory.getDeploymentRecord_storeDeploymentRecord _ _ _).trans (if_pos hid)
      simp only [updateDeploymentStatus_some hr, createStrategyMetadata, hty, hd, ← hr₁,
        updateDeploymentStatus_some (hg _)]
      refine Or.inr ⟨trivial, r, r₁.withStatus env.time .deployed (some canisterId) none, _, rfl,
        ?_, (r₁.follows_withStatus _ _ _ _).trans hf₁, rfl, rfl⟩
      exact (Factory.getDeploymentRecord_storeDeploymentRecord _ _ _).trans (if_pos hid)

end Segments

/-! ## The invariant -/

namespace Launch

variable {P : Platform} {host : Host} {id : String} {l l' : Launch} {e : LaunchEvent}

/-- What holds in each phase. -/
inductive Inv (P : Platform) (id : String) : Launch → Prop
  | requested (f : Factory) : Inv P id (start f)
  | creating (f : Factory) (record : DeploymentRecord) (agrees : Agrees id f record) :
    Inv P id ⟨f, .waiting record .createCanister, none, none⟩
  | installing (f : Factory) (record : DeploymentRecord) (canisterId : Principal)
    (canister : Option Canister) (agrees : Agrees id f record)
    (strategyType : record.strategyType = .selfHedging) (steady : ∀ c ∈ canister, c.Steady) :
    Inv P id ⟨f, .waiting record (.installCode canisterId), canister, none⟩
  | installed (f : Factory) (record : DeploymentRecord) (canisterId : Principal)
    (config : SelfHedgingConfig) (c : Canister) (agrees : Agrees id f record)
    (strategyType : record.strategyType = .selfHedging)
    (decodes : P.decodeSelfHedging record.configData = .ok config) (steady : c.Steady) :
    Inv P id ⟨f, .waiting record (.initStrategy
      ⟨canisterId, "init_self_hedging", record.owner, .selfHedging config⟩), some c, none⟩
  | called (f : Factory) (record : DeploymentRecord) (canisterId : Principal)
    (config : SelfHedgingConfig) (c : Canister) (found : Memory) (agrees : Agrees id f record)
    (strategyType : record.strategyType = .selfHedging)
    (decodes : P.decodeSelfHedging record.configData = .ok config) (steady : c.Steady)
    (answered : Answered record.owner config found c.memory) :
    Inv P id ⟨f, .waiting record (.initStrategy
      ⟨canisterId, "init_self_hedging", record.owner, .selfHedging config⟩), some c, some found⟩
  | returned (f : Factory) (result : Except String DeploymentResult) (canister : Option Canister)
    (found : Option Memory) : Inv P id ⟨f, .returned result, canister, found⟩

/-! ## Steps -/

/-- A segment that ends without a deployed strategy reports none. -/
theorem inv_resume_fails {p : Progress × Factory} (hp : p.1.Fails) (l : Launch) :
    Inv P id (l.resume p) ∧ Reports P id (l.resume p) := by
  obtain ⟨⟨record, stage⟩ | ⟨result⟩, g⟩ := p
  · exact hp.elim
  · refine ⟨.returned _ _ _ _, fun canisterId h => ?_⟩
    obtain rfl : result = .ok (.success canisterId) := by simpa [resume] using h
    exact hp.elim

/-- A step that does not return, and is not the return of the init call. -/
theorem inv_of_waiting (hI : Inv P id l') (hphase : ∀ result, l'.phase ≠ .returned result)
    (hready : Ready P id l e) : Inv P id l' ∧ (Reports P id l' ↔ Ready P id l e) :=
  ⟨hI, iff_of_true (fun _ h => absurd h (hphase _)) hready⟩

/-- An execution that fails has no strategy to report. -/
theorem inv_of_fails {p : Progress × Factory} (hp : p.1.Fails) (hready : Ready P id l e) :
    Inv P id (l.resume p) ∧ (Reports P id (l.resume p) ↔ Ready P id l e) :=
  ⟨(inv_resume_fails hp l).1, iff_of_true (inv_resume_fails hp l).2 hready⟩

/-- What each event does. -/
inductive Steps (P : Platform) (host : Host) (id : String) (l : Launch) :
    LaunchEvent → Launch → Prop
  | others (g : Factory) (running : ∀ result, l.phase ≠ .returned result)
    (same : SameRecord id l.factory g) : Steps P host id l (.others g) { l with factory := g }
  | executeDeployment (env : Env) (phase : l.phase = .requested) :
    Steps P host id l (.executeDeployment env) (l.resume (executeDeployment P env l.factory id))
  | canisterCreated (env : Env) (result : CallResult Principal) (record : DeploymentRecord)
    (phase : l.phase = .waiting record .createCanister) :
    Steps P host id l (.canisterCreated env result)
      (l.resume (afterCreateCanister P env l.factory id record result))
  | install (record : DeploymentRecord) (canisterId : Principal)
    (phase : l.phase = .waiting record (.installCode canisterId)) :
    Steps P host id l .install { l with canister := some .installed }
  | codeInstalled (env : Env) (result : CallResult Unit) (record : DeploymentRecord)
    (canisterId : Principal) (phase : l.phase = .waiting record (.installCode canisterId))
    (exists_canister : l.canister.isSome ∨ result.isOk = false) :
    Steps P host id l (.codeInstalled env result)
      (l.resume (afterInstallCode P env l.factory id record canisterId result))
  | canister (e : CanisterEvent) (record : DeploymentRecord) (stage : Stage) (c c' : Canister)
    (phase : l.phase = .waiting record stage) (canister : l.canister = some c)
    (admits : l.admits record e = true) (step : c.step host e = some c') :
    Steps P host id l (.canister e) { l with canister := some c' }
  | initCall (time cycles : ℕ) (record : DeploymentRecord) (call : InitCall) (l' : Launch)
    (phase : l.phase = .waiting record (.initStrategy call))
    (init : l.init P host call time cycles = some l') : Steps P host id l (.initCall time cycles) l'
  | strategyInitialized (env : Env) (result : CallResult Unit) (record : DeploymentRecord)
    (call : InitCall) (phase : l.phase = .waiting record (.initStrategy call))
    (found : l.found.isSome ∨ result.isOk = false) :
    Steps P host id l (.strategyInitialized env result)
      (l.resume (afterInitStrategy P env l.factory id record call.canisterId result))

/-- A step by its event and the phase that it finds. -/
theorem steps_of_step (hs : step P host id l e = some l') : Steps P host id l e l' := by
  obtain ⟨f, phase, canister, found⟩ := l
  cases e with
  | others g =>
    cases phase <;> simp only [step, reduceCtorEq, Option.ite_none_right_eq_some,
      Option.some.injEq] at hs
    all_goals
      obtain ⟨hsame, rfl⟩ := hs
      exact .others g nofun hsame
  | executeDeployment env =>
    cases phase <;> simp only [step, reduceCtorEq, Option.some.injEq] at hs
    obtain rfl := hs
    exact .executeDeployment env rfl
  | canisterCreated env result =>
    obtain _ | ⟨record, _ | _ | _⟩ | _ := phase <;>
      simp only [step, reduceCtorEq, Option.ite_none_right_eq_some, Option.some.injEq] at hs
    obtain ⟨-, rfl⟩ := hs
    exact .canisterCreated env result record rfl
  | install =>
    obtain _ | ⟨record, _ | canisterId | _⟩ | _ := phase <;> obtain _ | c := canister <;>
      simp only [step, reduceCtorEq, Option.some.injEq] at hs
    obtain rfl := hs
    exact .install record canisterId rfl
  | codeInstalled env result =>
    obtain _ | ⟨record, _ | canisterId | _⟩ | _ := phase <;>
      simp only [step, reduceCtorEq, Option.ite_none_right_eq_some, Option.some.injEq] at hs
    obtain ⟨hcanister, rfl⟩ := hs
    exact .codeInstalled env result record canisterId rfl hcanister
  | canister e =>
    obtain _ | ⟨record, stage⟩ | _ := phase <;> obtain _ | c := canister <;>
      simp only [step, reduceCtorEq, Option.ite_none_right_eq_some, Option.map_eq_some_iff] at hs
    obtain ⟨hadmits, c', hc', rfl⟩ := hs
    exact .canister e record stage c c' rfl rfl hadmits hc'
  | initCall time cycles =>
    obtain _ | ⟨record, _ | _ | call⟩ | _ := phase <;> simp only [step, reduceCtorEq] at hs
    exact .initCall time cycles record call l' rfl hs
  | strategyInitialized env result =>
    obtain _ | ⟨record, _ | _ | call⟩ | _ := phase <;>
      simp only [step, reduceCtorEq, Option.ite_none_right_eq_some, Option.some.injEq] at hs
    obtain ⟨hfound, rfl⟩ := hs
    exact .strategyInitialized env result record call rfl hfound

theorem Inv.others {g : Factory} (hI : Inv P id l) (hs : SameRecord id l.factory g)
    (hrunning : ∀ result, l.phase ≠ .returned result) : Inv P id { l with factory := g } := by
  cases hI with
  | requested => exact .requested g
  | creating f record agrees => exact .creating g record (agrees.others hs)
  | installing f record canisterId canister agrees hty hsteady =>
    exact .installing g record canisterId canister (agrees.others hs) hty hsteady
  | installed f record canisterId config c agrees hty hd hsteady =>
    exact .installed g record canisterId config c (agrees.others hs) hty hd hsteady
  | called f record canisterId config c found agrees hty hd hsteady hanswered =>
    exact .called g record canisterId config c found (agrees.others hs) hty hd hsteady hanswered
  | returned f result => exact absurd rfl (hrunning result)

theorem Inv.starts {record : DeploymentRecord} (hI : Inv P id l) (hphase : l.phase = .requested)
    (hr : l.factory.getDeploymentRecord id = some record) :
    Inv P id (l.resume (.awaiting record .createCanister, l.factory)) := by
  cases hI with
  | requested f =>
    refine .creating f record fun r hr' => ?_
    obtain rfl := Option.some.inj (hr.symm.trans hr')
    exact .refl record
  | _ => exact nomatch hphase

theorem Inv.creates {record : DeploymentRecord} {g : Factory} (hI : Inv P id l)
    (hphase : l.phase = .waiting record .createCanister) (canisterId : Principal)
    (hs : SameRecord id l.factory g) (hty : record.strategyType = .selfHedging) :
    Inv P id (l.resume (.awaiting record (.installCode canisterId), g)) := by
  cases hI with
  | creating f record agrees =>
    cases hphase
    exact .installing g record canisterId none (agrees.others hs) hty (by simp)
  | _ => exact nomatch hphase

theorem Inv.installs {record : DeploymentRecord} {canisterId : Principal} (hI : Inv P id l)
    (hphase : l.phase = .waiting record (.installCode canisterId)) :
    Inv P id { l with canister := some .installed } := by
  cases hI with
  | installing f record canisterId canister agrees hty =>
    refine .installing f record canisterId _ agrees hty fun c hc => ?_
    obtain rfl := Option.some.inj hc
    exact Canister.steady_installed
  | _ => exact nomatch hphase

/-- If the code is installed, the factory decodes the configuration and calls the canister. -/
theorem Inv.codes {env : Env} {result : CallResult Unit} {record : DeploymentRecord}
    {canisterId : Principal} (hI : Inv P id l)
    (hphase : l.phase = .waiting record (.installCode canisterId))
    (hcanister : l.canister.isSome ∨ result.isOk = false) :
    Inv P id (l.resume (afterInstallCode P env l.factory id record canisterId result)) ∧
      (Reports P id (l.resume (afterInstallCode P env l.factory id record canisterId result)) ↔
        Ready P id l (.codeInstalled env result)) := by
  cases hI with
  | installing f record canisterId canister agrees hty hsteady =>
    cases hphase
    rcases afterInstallCode_cases P env f id hty canisterId result with
      hfails | ⟨hok, g, config, hsame, hd, heq⟩
    · exact inv_of_fails hfails trivial
    · obtain ⟨c, rfl⟩ := Option.isSome_iff_exists.1 (hcanister.resolve_right (by simp [hok]))
      rw [heq]
      exact inv_of_waiting (.installed g record canisterId config c (agrees.others hsame) hty hd
        (hsteady c rfl)) nofun trivial
  | _ => exact nomatch hphase

theorem Inv.canister {c c' : Canister} {record : DeploymentRecord} {stage : Stage}
    {e : CanisterEvent} (hI : Inv P id l) (hphase : l.phase = .waiting record stage)
    (hc : l.canister = some c) (hadmits : l.admits record e = true)
    (hs : c.step host e = some c') : Inv P id { l with canister := some c' } := by
  cases hI with
  | requested => exact nomatch hphase
  | creating => exact nomatch hc
  | installing f record canisterId canister agrees hty hsteady =>
    refine .installing f record canisterId _ agrees hty fun c'' hc'' => ?_
    obtain rfl := Option.some.inj hc''
    exact (Canister.step_sets (hsteady c hc) hs).1
  | installed f record canisterId config c agrees hty hd hsteady =>
    obtain rfl := Option.some.inj hc
    exact .installed f record canisterId config c' agrees hty hd (Canister.step_sets hsteady hs).1
  | called f record canisterId config c found agrees hty hd hsteady hanswered =>
    obtain rfl := Option.some.inj hc
    obtain ⟨hsteady', hsets⟩ := Canister.step_sets hsteady hs
    obtain ⟨rfl, -⟩ := Phase.waiting.inj hphase
    refine .called f record canisterId config c' found agrees hty hd hsteady'
      (hanswered.sets hsets ?_)
    -- after the init call the canister is called by third parties
    rintro env message rfl
    simpa [admits] using hadmits
  | returned => exact nomatch hphase

theorem Inv.init {call : InitCall} {record : DeploymentRecord} {time cycles : ℕ}
    (hI : Inv P id l) (hphase : l.phase = .waiting record (.initStrategy call))
    (hl : l.init P host call time cycles = some l') :
    Inv P id l' ∧ l'.phase = l.phase := by
  cases hI with
  | installed f record canisterId config c agrees hty hd hsteady =>
    cases hphase
    obtain rfl := Option.some.inj hl
    refine ⟨.called f record canisterId config _ c.memory agrees hty hd ?_ ?_, rfl⟩
    · exact hsteady.advance_update _ _
    · exact answered_advance c _ host record.owner config
  | called =>
    cases hphase
    exact nomatch hl
  | _ => exact nomatch hphase

/-- The return of the init call is where a strategy is reported as deployed. -/
theorem Inv.returns {env : Env} {result : CallResult Unit} {call : InitCall}
    {record : DeploymentRecord} (hI : Inv P id l)
    (hphase : l.phase = .waiting record (.initStrategy call))
    (hfound : l.found.isSome ∨ result.isOk = false) :
    Inv P id (l.resume (afterInitStrategy P env l.factory id record call.canisterId result)) ∧
      (Reports P id
        (l.resume (afterInitStrategy P env l.factory id record call.canisterId result)) ↔
          Ready P id l (.strategyInitialized env result)) := by
  cases hI with
  | installed f record canisterId config c agrees hty hd hsteady =>
    cases hphase
    rcases afterInitStrategy_cases P env f id hty hd canisterId result with
      ⟨-, hfails⟩ | ⟨rfl, -⟩
    · refine inv_of_fails hfails ?_
      cases result with
      | ok => exact nomatch hfound
      | error => trivial
    · exact nomatch hfound
  | called f record canisterId config c found agrees hty hd hsteady hanswered =>
    cases hphase
    rcases afterInitStrategy_cases P env f id hty hd canisterId result with
      ⟨hno, hfails⟩ | ⟨rfl, r, r', g, hr, hr', hfollows, hstatus, heq⟩
    · refine inv_of_fails hfails ?_
      cases result with
      | ok =>
        intro _ _ _ _ _ _ _ hstored
        exact absurd ⟨rfl, hstored⟩ hno
      | error => trivial
    · have hfollows' : r'.Follows record := hfollows.trans (agrees r hr)
      rw [heq]
      refine ⟨.returned _ _ _ _, ?_⟩
      constructor
      · intro hreports record' call found' config' hphase hfound' hd' _
        cases hphase
        cases hfound'
        obtain rfl := Except.ok.inj (hd.symm.trans hd')
        obtain ⟨c', r'', config', hc', hr'', -, hd'', hhas⟩ := hreports canisterId rfl
        cases hc'
        obtain rfl := Option.some.inj (hr'.symm.trans hr'')
        rw [hfollows'.configData, hd, Except.ok.injEq] at hd''
        rw [hfollows'.owner, ← hd''] at hhas
        exact hanswered.has_iff.1 hhas
      · intro hready canisterId' _
        have htakes := hready record _ found config rfl rfl hd (hr ▸ rfl)
        refine ⟨c, r', config, rfl, hr', hstatus, hfollows'.configData ▸ hd, ?_⟩
        rw [hfollows'.owner]
        exact hanswered.has_iff.2 htakes
  | _ => exact nomatch hphase

/-- A step keeps the invariant, and what it reports is so exactly if it is ready. -/
theorem Inv.step (hI : Inv P id l) (hs : step P host id l e = some l') :
    Inv P id l' ∧ (Reports P id l' ↔ Ready P id l e) := by
  cases steps_of_step hs with
  | others g hrunning hsame => exact inv_of_waiting (hI.others hsame hrunning) hrunning trivial
  | executeDeployment env hphase =>
    rcases executeDeployment_cases P env l.factory id with
      hfails | ⟨record, hr, heq⟩
    · exact inv_of_fails hfails trivial
    · rw [heq]
      exact inv_of_waiting (hI.starts hphase hr) nofun trivial
  | canisterCreated env result record hphase =>
    rcases afterCreateCanister_cases P env l.factory id record result with
      hfails | ⟨canisterId, g, hsame, hty, heq⟩
    · exact inv_of_fails hfails trivial
    · rw [heq]
      exact inv_of_waiting (hI.creates hphase canisterId hsame hty) nofun trivial
  | install record canisterId hphase =>
    exact inv_of_waiting (hI.installs hphase) (by simp [hphase]) trivial
  | codeInstalled env result record canisterId hphase hcanister =>
    exact hI.codes hphase hcanister
  | canister e record stage c c' hphase hc hadmits hstep =>
    exact inv_of_waiting (hI.canister hphase hc hadmits hstep) (by simp [hphase]) trivial
  | initCall time cycles record call l' hphase hinit =>
    obtain ⟨hI', hphase'⟩ := hI.init hphase hinit
    exact inv_of_waiting hI' (by simp [hphase', hphase]) trivial
  | strategyInitialized env result record call hphase hfound => exact hI.returns hphase hfound

/-- A run reports only strategies that belong to their buyer exactly if its init calls find
canisters that take the buyer and the configuration. -/
theorem reports_iff (P : Platform) (host : Host) (id : String) (f : Factory)
    (es : List LaunchEvent) :
    Runs.Throughout (step P host id) (Reports P id) (start f) es ↔
      Runs.Along (step P host id) (Ready P id) (start f) es :=
  Runs.throughout_iff_along (I := Inv P id) (fun _ _ _ hI _ _ hs => hI.step hs) (.requested f)
    nofun Runs.along_true

end Launch

/-! ## The other messages of the factory -/

/-- What is written is a later state of the record. -/
theorem Writes.sameRecord {P : Platform} {env : Env} {f g : Factory} {r r' : DeploymentRecord}
    {rs : List TransactionRecord} {id' : String} (hw : Writes P env f r' rs g)
    (hr : f.getDeploymentRecord id' = some r) (hfollows : r'.Follows r) (id : String) :
    SameRecord id f g := by
  intro x hx
  rw [Option.mem_def, hw.record] at hx
  split_ifs at hx with hid
  · obtain rfl := Option.some.inj hx
    have hid' : id = id' :=
      hid.trans (hfollows.deploymentId.trans (Factory.deploymentId_of_getDeploymentRecord hr))
    exact ⟨r, hid' ▸ hr, hfollows⟩
  · exact ⟨x, hx, .refl x⟩

theorem sameRecord_of_outcome {P : Platform} {env : Env} {f : Factory} {id' : String} {ends : Prop}
    {left : ℕ} {p : Progress × Factory} (h : Outcome P env f id' ends left p) (id : String) :
    SameRecord id f p.2 := by
  cases h with
  | lost => exact fun r hr => ⟨r, hr, .refl r⟩
  | waits r r' record stage g hr hends follows status writes =>
    exact writes.sameRecord hr follows id
  | failed r r' message g hr hends follows status writes => exact writes.sameRecord hr follows id
  | deployed r r' metadata canisterId g hr hends follows status hc hstored writes =>
    exact writes.sameRecord (f := f.storeStrategyMetadata metadata) hr follows id

/-- Whatever message the factory executes, the record of an accepted request keeps its owner and
its configuration, as long as it is stored. -/
theorem World.sameRecord_step {P : Platform} {L : LedgerRule} {w w' : World} {e : Event}
    (hsound : w.Sound) (htracked : w.Tracked) {q : Request} (hq : q ∈ w.requests)
    (hs : w.step P L e = some w') : SameRecord q.deploymentId w.factory w'.factory := by
  have hsame : ∀ g : Factory,
      g.getDeploymentRecord q.deploymentId = w.factory.getDeploymentRecord q.deploymentId →
        SameRecord q.deploymentId w.factory g := fun g hg r hr =>
    ⟨r, hg ▸ hr, .refl r⟩
  cases step_deploys hsound hs with
  | still e w' env rs pays => exact hsame _ (pays.record _)
  | cleans time cycles g archives =>
    rcases archives.record q.deploymentId with h | ⟨h, -⟩
    · exact hsame _ h
    · exact fun r hr => nomatch h.symm.trans hr
  | upgrades => exact fun r hr => nomatch (getDeploymentRecord_upgrade _).symm.trans hr
  | unserialized env config g passes posts records => exact hsame g (records _)
  | requested env config configData g p passes posts records registry outcome =>
    -- the new record has an id of its own
    rw [factory_resume _ outcome]
    refine (sameRecord_of_outcome outcome q.deploymentId).trans (hsame g ?_)
    rw [records, if_neg (htracked.fresh hq env)]
  | forced env id p executes outcome =>
    rw [factory_resume _ outcome]
    exact sameRecord_of_outcome outcome _
  | continued e task time cycles p mem executes outcome =>
    rw [factory_resume _ outcome]
    exact sameRecord_of_outcome outcome _

/-! ## A configuration that the init call refuses -/

/-- The execution has ended with a deployed strategy. -/
def Phase.isDeployed : Phase → Bool
  | .returned (.ok (.success _)) => true
  | _ => false

theorem Phase.exists_of_isDeployed {p : Phase} (h : p.isDeployed = true) :
    ∃ canisterId, p = .returned (.ok (.success canisterId)) := by
  unfold isDeployed at h
  split at h
  · exact ⟨_, rfl⟩
  · exact nomatch h

namespace Launch

/-- The factory with a user who can pay. -/
def sampleFactory : Factory :=
  (Api.adjustBalance Sample.platform (Sample.message 1 Sample.admin)
    (Api.init (Sample.message 0 Sample.admin)) Sample.user 200000000 "initial balance").2

/-- The request of the user. -/
def sampleRequest : Except String DeploymentRequest × Factory :=
  Api.requestSelfHedgingStrategy Sample.platform (Sample.message 2 Sample.user) sampleFactory
    Sample.config

/-- The host of the new canister. -/
def sampleHost : Host :=
  ⟨Sample.canister, fun _ => .error "unused"⟩

/-- A launch in which every call comes back. -/
def refused : List LaunchEvent :=
  [.executeDeployment (Sample.message 2 Sample.user),
    .canisterCreated (Sample.message 3 Sample.user) (.ok Sample.canister), .install,
    .codeInstalled (Sample.message 4 Sample.user) (.ok ()), .initCall 5 0,
    .strategyInitialized (Sample.message 6 Sample.user) (.ok ())]

/-- The configuration has a slippage of zero, which the factory accepts and the strategy does
not. The strategy is reported as deployed and has no owner. -/
theorem not_reports_refused : sampleRequest.1.isOk ∧
    ¬Runs.Throughout (step Sample.platform sampleHost Sample.deploymentId)
      (Reports Sample.platform Sample.deploymentId) (start sampleRequest.2) refused := by
  refine ⟨by decide +kernel, Runs.not_throughout (p := fun l =>
    l.phase.isDeployed && ((l.canister.any fun c => c.memory.state.owner = .anonymous) &&
      (l.factory.getDeploymentRecord Sample.deploymentId).any fun r => r.owner ≠ .anonymous))
    (fun l h hreports => ?_) (by decide +kernel)⟩
  simp only [Bool.and_eq_true, Option.any_eq_true, decide_eq_true_eq] at h
  obtain ⟨hphase, ⟨c, hc, hblank⟩, r, hr, howner⟩ := h
  obtain ⟨canisterId, hdeployed⟩ := Phase.exists_of_isDeployed hphase
  obtain ⟨c', r', config, hc', hr', -, -, hhas⟩ := hreports canisterId hdeployed
  obtain rfl := Option.some.inj (hc.symm.trans hc')
  obtain rfl := Option.some.inj (hr.symm.trans hr')
  exact howner (hhas.1.symm.trans hblank)

end Launch

end HunterFi
