import HunterFi.EndToEnd
import HunterFi.Registry

/-!
# The phases of a deployment

The abstract deployment : not requested, waiting for one of its three answers, deployed or
refunded, and at last archived, when its record is gone. There is no phase before the first
answer is awaited, since a request runs up to there in one segment. `DeploymentPhase.Next` has the
transitions. `World.phaseOf` reads the phase of a deployment off the executions that wait, those
that have ended and the record, and `Shows` says what the stores hold in each phase.

`deployment_phases` : as long as no admin forces the deployment, every step leaves its phase or
is a transition, and the stores show the phase. An upgrade, which loses all records, finds no
deployment under way (`World.next`).
-/

set_option linter.unusedSectionVars false

namespace HunterFi

/-! ## Phases -/

/-- Where a deployment is. One that was refunded may have a canister. One is archived with the
canister that it was deployed to, or with none if it was refunded. -/
inductive DeploymentPhase
  | unknown
  | waiting (stage : Stage)
  | deployed (canisterId : Principal)
  | refunded (canisterId : Option Principal)
  | archived (canisterId : Option Principal)
  deriving DecidableEq

/-- The transitions of a deployment that is executed once. It is refunded at once if the factory
has too few cycles, and archived by a cleanup or an upgrade. -/
inductive DeploymentPhase.Next : DeploymentPhase → DeploymentPhase → Prop
  | request : Next unknown (waiting .createCanister)
  | starve : Next unknown (refunded none)
  | create (canisterId : Principal) :
    Next (waiting .createCanister) (waiting (.installCode canisterId))
  | install (call : InitCall) :
    Next (waiting (.installCode call.canisterId)) (waiting (.initStrategy call))
  | deploy (call : InitCall) : Next (waiting (.initStrategy call)) (deployed call.canisterId)
  | fail (stage : Stage) : Next (waiting stage) (refunded stage.canister)
  | archive (canisterId : Principal) : Next (deployed canisterId) (archived (some canisterId))
  | forget (canisterId : Option Principal) : Next (refunded canisterId) (archived none)

/-- The status of the record while an execution waits. -/
def Stage.status : Stage → DeploymentStatus
  | .createCanister => .paymentReceived
  | .installCode _ => .canisterCreated
  | .initStrategy _ => .codeInstalled

theorem Stage.status_ne (stage : Stage) : stage.status ≠ .deployed ∧ stage.status ≠ .refunded := by
  cases stage <;> simp [Stage.status]

/-! ## Segments -/

namespace Deployment

variable {P : Platform} {env : Env} {f g : Factory} {id : String} {r record : DeploymentRecord}
  {p : Progress × Factory} {phase : DeploymentPhase}

/-- A segment on the stored record `r` takes its deployment from a phase to the next. -/
inductive Advances (P : Platform) (env : Env) (f : Factory) (r : DeploymentRecord)
    (phase : DeploymentPhase) : Progress × Factory → Prop
  | waits (r' record : DeploymentRecord) (stage : Stage) (g : Factory)
    (next : phase.Next (.waiting stage)) (follows : r'.Follows r)
    (status : r'.status = stage.status) (canister : r'.canisterId = stage.canister)
    (writes : Writes P env f r' [] g) : Advances P env f r phase (.awaiting record stage, g)
  | failed (r' : DeploymentRecord) (message : String) (g : Factory)
    (next : phase.Next (.refunded r'.canisterId)) (follows : r'.Follows r)
    (status : r'.status = .refunded) (writes : Writes P env f r' [refundOf P env r] g) :
    Advances P env f r phase (.returned (.ok (.failure message)), g)
  | deployed (r' : DeploymentRecord) (metadata : StrategyMetadata) (canisterId : Principal)
    (g : Factory) (next : phase.Next (.deployed canisterId)) (follows : r'.Follows r)
    (status : r'.status = .deployed) (canister : r'.canisterId = some canisterId)
    (stored : metadata.canisterId = canisterId)
    (writes : Writes P env (f.storeStrategyMetadata metadata) r' [] g) :
    Advances P env f r phase (.returned (.ok (.success canisterId)), g)

/-- A segment that goes on to wait or fails, by the record it leaves. -/
theorem Outcome.advances {ends : Prop} {left : ℕ} (h : Outcome P env f id ends left p)
    (hr : f.getDeploymentRecord id = some r) (hleft : 1 < left)
    (hfails : ∀ message, p.1 = .returned (.ok (.failure message)) →
      ∀ r', p.2.getDeploymentRecord id = some r' → phase.Next (.refunded r'.canisterId))
    (hwaits : ∀ record stage, p.1 = .awaiting record stage → phase.Next (.waiting stage) ∧
      ∀ r', p.2.getDeploymentRecord id = some r' →
        r'.status = stage.status ∧ r'.canisterId = stage.canister) :
    Advances P env f r phase p := by
  cases h with
  | lost message hr' => cases hr'.symm.trans hr
  | waits r₀ r' record stage g hr' hends follows status writes =>
    obtain rfl := Option.some.inj (hr.symm.trans hr')
    obtain ⟨hnext, hrecord⟩ := hwaits record stage rfl
    have hget := writes.get_self
    rw [follows.deploymentId, Factory.deploymentId_of_getDeploymentRecord hr] at hget
    obtain ⟨hstatus, hcanister⟩ := hrecord r' hget
    exact .waits r' record stage g hnext follows hstatus hcanister writes
  | failed r₀ r' message g hr' hends follows status writes =>
    obtain rfl := Option.some.inj (hr.symm.trans hr')
    have hget := writes.get_self
    rw [follows.deploymentId, Factory.deploymentId_of_getDeploymentRecord hr] at hget
    exact .failed r' message g (hfails message rfl r' hget) follows status writes
  | deployed r₀ r' metadata canisterId g hr' hends follows status _ _ writes last =>
    exact absurd last (Nat.not_le.2 hleft)

theorem canisterId_of_withStatus {r' : DeploymentRecord} (hr : f.getDeploymentRecord id = some r)
    {time : ℕ} {status : DeploymentStatus} {canisterId : Principal}
    {errorMessage : Option String}
    (hr' : (f.storeDeploymentRecord (r.withStatus time status (some canisterId)
      errorMessage)).getDeploymentRecord id = some r') : r'.canisterId = some canisterId := by
  have hid := Factory.deploymentId_of_getDeploymentRecord hr
  rw [Factory.getDeploymentRecord_storeDeploymentRecord, if_pos (show id =
    (r.withStatus time status (some canisterId) errorMessage).deploymentId from hid.symm)] at hr'
  obtain rfl := Option.some.inj hr'
  rfl

/-- A failing stage leaves the canister that it is given, or else that of the record. -/
theorem canisterId_fail {r' : DeploymentRecord} (hr : f.getDeploymentRecord id = some r)
    (hs : r.Sound) (canisterId : Option Principal) (error : DeploymentError)
    (hr' : (fail P env f id canisterId error).2.getDeploymentRecord id = some r') :
    r'.canisterId = canisterId.or r.canisterId := by
  let r₁ := r.withStatus env.time .deploymentFailed canisterId (some error.text)
  have hid := Factory.deploymentId_of_getDeploymentRecord hr
  have hid₁ : r₁.deploymentId = id := hid
  have hu : f.updateDeploymentStatus env id .deploymentFailed canisterId (some error.text) =
      .ok (f.storeDeploymentRecord r₁) := updateDeploymentStatus_some hr _ _ _
  have hg : (f.storeDeploymentRecord r₁).getDeploymentRecord id = some r₁ :=
    hid₁ ▸ (Writes.store P env f r₁).get_self
  obtain ⟨g, heq, hw⟩ := processBalanceRefund_writes P env hg hs.one_le_fee hs.fee_le
  simp only [fail, handleDeploymentFailure, hu, hg, heq] at hr'
  obtain rfl := Option.some.inj (((hw.record id).trans (if_pos hid₁.symm)).symm.trans hr')
  exact Option.none_or

theorem executeDeployment_advances (hf : f.Sound) (hr : f.getDeploymentRecord id = some r)
    (hstatus : r.status = .paymentReceived) (hcanister : r.canisterId = none) :
    Advances P env f r .unknown (executeDeployment P env f id) := by
  refine (executeDeployment_outcome hf).advances hr (by decide) (fun message h r' hr' => ?_)
    fun record stage h => ?_
  · unfold executeDeployment at h hr'
    simp only [hr] at h hr'
    split_ifs at h hr' with hcycles
    rw [canisterId_fail hr (hf id r hr) none _ hr', hcanister]
    exact .starve
  · obtain ⟨hr', rfl, hsame⟩ := executeDeployment_awaits h
    refine ⟨.request, fun r' hr' => ?_⟩
    rw [hsame] at hr'
    obtain rfl := Option.some.inj (hr.symm.trans hr')
    exact ⟨hstatus, hcanister⟩

theorem afterCreateCanister_advances (hf : f.Sound) (hr : f.getDeploymentRecord id = some r)
    (hcanister : r.canisterId = none) (hty : record.strategyType = .selfHedging)
    (result : CallResult Principal) : Advances P env f r (.waiting .createCanister)
      (afterCreateCanister P env f id record result) := by
  refine (afterCreateCanister_outcome hf hty result).advances hr (by decide)
    (fun message h r' hr' => ?_) fun record' stage h => ?_
  · unfold afterCreateCanister at h hr'
    cases result with
    | error code message =>
      rw [canisterId_fail hr (hf id r hr) none _ hr', hcanister]
      exact .fail .createCanister
    | ok canisterId =>
      simp only [updateDeploymentStatus_some hr, hty, getEmbeddedWasmModule, ne_eq,
        not_true_eq_false, if_false] at h
      cases h
  · unfold afterCreateCanister at h ⊢
    cases result with
    | error code message => cases h
    | ok canisterId =>
      simp only [updateDeploymentStatus_some hr, hty, getEmbeddedWasmModule, ne_eq,
        not_true_eq_false, if_false] at h ⊢
      cases h
      exact ⟨.create canisterId, fun r' hr' =>
        ⟨status_of_withStatus hr hr', canisterId_of_withStatus hr hr'⟩⟩

/-- A failing stage of a canister, from a state that has stored a later status of the record. -/
theorem canisterId_fail_withStatus {r' : DeploymentRecord} (hr : f.getDeploymentRecord id = some r)
    (hs : r.Sound) (status : DeploymentStatus) (canisterId : Principal) (error : DeploymentError)
    (hr' : (fail P env (f.storeDeploymentRecord (r.withStatus env.time status (some canisterId)
      none)) id (some canisterId) error).2.getDeploymentRecord id = some r')
    (hstatus : status ≠ .deploymentFailed) : r'.canisterId = some canisterId := by
  have hid := Factory.deploymentId_of_getDeploymentRecord hr
  have hr₁ : (f.storeDeploymentRecord (r.withStatus env.time status (some canisterId)
      none)).getDeploymentRecord id = some (r.withStatus env.time status (some canisterId) none) :=
    (Factory.getDeploymentRecord_storeDeploymentRecord _ _ _).trans (if_pos hid.symm)
  have hs₁ := (r.follows_withStatus env.time status (some canisterId) none).sound hs hstatus
  exact canisterId_fail hr₁ hs₁ (some canisterId) error hr'

theorem afterInstallCode_advances (hf : f.Sound) (hr : f.getDeploymentRecord id = some r)
    (hty : record.strategyType = .selfHedging) (canisterId : Principal)
    (result : CallResult Unit) : Advances P env f r (.waiting (.installCode canisterId))
      (afterInstallCode P env f id record canisterId result) := by
  have hs := hf id r hr
  refine (afterInstallCode_outcome hf hty canisterId result).advances hr (by decide)
    (fun message h r' hr' => ?_) fun record' stage h => ?_
  · have hcanister : r'.canisterId = some canisterId := by
      unfold afterInstallCode at h hr'
      cases result with
      | error code message => exact canisterId_fail hr hs (some canisterId) _ hr'
      | ok _ =>
        simp only [updateDeploymentStatus_some hr, initializeStrategy, hty] at h hr'
        cases hd : P.decodeSelfHedging record.configData with
        | error e =>
          simp only [hd] at hr'
          exact canisterId_fail_withStatus hr hs _ canisterId _ hr' (by decide)
        | ok config =>
          simp only [hd] at h
          cases h
    rw [hcanister]
    exact .fail (.installCode canisterId)
  · unfold afterInstallCode at h ⊢
    cases result with
    | error code message => cases h
    | ok _ =>
      simp only [updateDeploymentStatus_some hr, initializeStrategy, hty] at h ⊢
      cases hd : P.decodeSelfHedging record.configData with
      | error e =>
        simp only [hd] at h
        cases h
      | ok config =>
        simp only [hd] at h ⊢
        cases h
        exact ⟨.install ⟨canisterId, _, _, _⟩, fun r' hr' =>
          ⟨status_of_withStatus hr hr', canisterId_of_withStatus hr hr'⟩⟩

theorem canisterId_afterInitStrategy (hf : f.Sound) (hr : f.getDeploymentRecord id = some r)
    (canisterId : Principal) (result : CallResult Unit) {message : String}
    {r' : DeploymentRecord} (h : (afterInitStrategy P env f id record canisterId result).1 =
      .returned (.ok (.failure message)))
    (hr' : (afterInitStrategy P env f id record canisterId result).2.getDeploymentRecord id =
      some r') : r'.canisterId = some canisterId := by
  have hs := hf id r hr
  unfold afterInitStrategy at h hr'
  cases result with
  | error code message => exact canisterId_fail hr hs (some canisterId) _ hr'
  | ok _ =>
    simp only [updateDeploymentStatus_some hr] at h hr'
    cases hm : createStrategyMetadata P env record canisterId with
    | error e =>
      simp only [hm] at hr'
      exact canisterId_fail_withStatus hr hs _ canisterId _ hr' (by decide)
    | ok metadata =>
      simp only [hm] at h
      split at h <;> cases h

theorem afterInitStrategy_advances (hf : f.Sound) (hr : f.getDeploymentRecord id = some r)
    (hty : record.strategyType = .selfHedging) (call : InitCall) (result : CallResult Unit) :
    Advances P env f r (.waiting (.initStrategy call))
      (afterInitStrategy P env f id record call.canisterId result) := by
  have ho : InitOutcome P env f id record call.canisterId result
      (afterInitStrategy P env f id record call.canisterId result) :=
    afterInitStrategy_initOutcome hf hty call.canisterId result
  have hfails : ∀ message, (afterInitStrategy P env f id record call.canisterId result).1 =
      .returned (.ok (.failure message)) → ∀ r', (afterInitStrategy P env f id record
        call.canisterId result).2.getDeploymentRecord id = some r' →
          r'.canisterId = some call.canisterId :=
    fun message h r' hr' => canisterId_afterInitStrategy hf hr call.canisterId result h hr'
  generalize afterInitStrategy P env f id record call.canisterId result = p at ho hfails
  cases ho with
  | lost message hr' => cases hr'.symm.trans hr
  | failed r₀ r' message g hr' hends follows status writes =>
    obtain rfl := Option.some.inj (hr.symm.trans hr')
    have hget := writes.get_self
    rw [follows.deploymentId, Factory.deploymentId_of_getDeploymentRecord hr] at hget
    have hnext : DeploymentPhase.Next (.waiting (.initStrategy call)) (.refunded r'.canisterId) :=
      hfails message rfl r' hget ▸ .fail (.initStrategy call)
    exact .failed r' message g hnext follows status writes
  | deployed r₀ r' m g hr' hgo metadata follows status canister writes =>
    obtain rfl := Option.some.inj (hr.symm.trans hr')
    obtain ⟨hstored, -, -⟩ := createStrategyMetadata_eq_ok hty metadata
    exact .deployed r' m _ g (.deploy call) follows status canister hstored writes

end Deployment

/-! ## States -/

namespace World

open Deployment

variable {P : Platform} {L : LedgerRule} {w w' : World} {env : Env} {spawned : Bool} {id : String}
  {p : Progress × Factory} {e : Event} {phase : DeploymentPhase}

/-- How the spawned execution of a deployment has ended. -/
def outcomeOf (w : World) (id : String) : Option (Except String DeploymentResult) :=
  (w.ended.find? fun ret => ret.spawned && decide (ret.deploymentId = id)).map Return.result

/-- The phase of a deployment. -/
def phaseOf (w : World) (id : String) : DeploymentPhase :=
  match w.tasksOf id, w.outcomeOf id, w.factory.getDeploymentRecord id with
  | t :: _, _, _ => .waiting t.stage
  | [], some (.ok (.success canisterId)), some _ => .deployed canisterId
  | [], some (.ok (.success canisterId)), none => .archived (some canisterId)
  | [], some _, some record => .refunded record.canisterId
  | [], some _, none => .archived none
  | [], none, _ => .unknown

/-- The deployment was requested, and its fee is not given back. -/
def Charged (w : World) (id : String) : Prop :=
  (∃ q ∈ w.requests, q.deploymentId = id) ∧ w.refundsOf id = []

/-- The deployment was requested, and its fee is given back, once. -/
def Restituted (w : World) (id : String) : Prop :=
  ∃ q ∈ w.requests, q.deploymentId = id ∧ w.refundsOf id = [q.feeAmount]

/-- The record of the deployment tells of this status and this canister. -/
def Recorded (w : World) (id : String) (status : DeploymentStatus)
    (canisterId : Option Principal) : Prop :=
  ∃ r, w.factory.getDeploymentRecord id = some r ∧ r.status = status ∧ r.canisterId = canisterId

/-- What the stores hold of a deployment in a phase. -/
def Shows (w : World) (id : String) : DeploymentPhase → Prop
  | .unknown => (∀ q ∈ w.requests, q.deploymentId ≠ id) ∧ w.refundsOf id = [] ∧
    w.factory.getDeploymentRecord id = none
  | .waiting stage => w.Charged id ∧ w.Recorded id stage.status stage.canister
  | .deployed canisterId => w.Charged id ∧ w.Recorded id .deployed (some canisterId) ∧
    (w.factory.getStrategyMetadata canisterId).isSome
  | .refunded canisterId => w.Restituted id ∧ w.Recorded id .refunded canisterId
  | .archived (some canisterId) => w.Charged id ∧ w.factory.getDeploymentRecord id = none ∧
    (w.factory.getStrategyMetadata canisterId).isSome
  | .archived none => w.Restituted id ∧ w.factory.getDeploymentRecord id = none

/-- The invariant : at most one execution waits, it was spawned by the request, and the stores
show the phase. -/
structure Phased (w : World) (id : String) : Prop where
  alone : w.tasksOf id = [] ∨ ∃ t, w.tasksOf id = [t] ∧ t.spawned = true
  stores : w.Shows id (w.phaseOf id)

theorem phaseOf_congr (tasks : w'.tasksOf id = w.tasksOf id)
    (ended : w'.outcomeOf id = w.outcomeOf id)
    (record : w'.factory.getDeploymentRecord id = w.factory.getDeploymentRecord id) :
    w'.phaseOf id = w.phaseOf id := by
  rw [World.phaseOf, World.phaseOf, tasks, ended, record]

/-- A deployment in any phase but the first was requested. -/
theorem Shows.requested (h : w.Shows id phase) (hphase : phase ≠ .unknown) :
    ∃ q ∈ w.requests, q.deploymentId = id := by
  have hrestituted : w.Restituted id → ∃ q ∈ w.requests, q.deploymentId = id :=
    fun ⟨q, hq, hid, _⟩ => ⟨q, hq, hid⟩
  cases phase with
  | unknown => exact absurd rfl hphase
  | waiting stage => exact h.1.1
  | deployed canisterId => exact h.1.1
  | refunded canisterId => exact hrestituted h.1
  | archived canisterId =>
    cases canisterId with
    | some canisterId => exact h.1.1
    | none => exact hrestituted h.1

/-- A deployment that was not requested. -/
theorem Phased.phaseOf_eq_unknown (h : w.Phased id) (hq : ∀ q ∈ w.requests, q.deploymentId ≠ id) :
    w.phaseOf id = .unknown := by
  by_contra hphase
  obtain ⟨q, hmem, hid⟩ := h.stores.requested hphase
  exact hq q hmem hid

/-- What keeps the refunds, the requests and the record of a deployment and all strategies. -/
theorem Shows.congr (h : w.Shows id phase) (refunds : w'.refundsOf id = w.refundsOf id)
    (requests : ∀ q : Request, q.deploymentId = id → (q ∈ w'.requests ↔ q ∈ w.requests))
    (record : w'.factory.getDeploymentRecord id = w.factory.getDeploymentRecord id)
    (strategies : ∀ c, (w.factory.getStrategyMetadata c).isSome →
      (w'.factory.getStrategyMetadata c).isSome) : w'.Shows id phase := by
  have hcharged : w.Charged id → w'.Charged id := fun ⟨⟨q, hq, hid⟩, hrefunds⟩ =>
    ⟨⟨q, (requests q hid).2 hq, hid⟩, refunds.trans hrefunds⟩
  have hrestituted : w.Restituted id → w'.Restituted id := fun ⟨q, hq, hid, hrefunds⟩ =>
    ⟨q, (requests q hid).2 hq, hid, refunds.trans hrefunds⟩
  have hrecorded : ∀ status c, w.Recorded id status c → w'.Recorded id status c :=
    fun _ _ ⟨r, hr, h⟩ => ⟨r, record.trans hr, h⟩
  cases phase with
  | unknown =>
    exact ⟨fun q hq hid => h.1 q ((requests q hid).1 hq) hid, refunds.trans h.2.1,
      record.trans h.2.2⟩
  | waiting stage => exact ⟨hcharged h.1, hrecorded _ _ h.2⟩
  | deployed canisterId => exact ⟨hcharged h.1, hrecorded _ _ h.2.1, strategies _ h.2.2⟩
  | refunded canisterId => exact ⟨hrestituted h.1, hrecorded _ _ h.2⟩
  | archived canisterId =>
    cases canisterId with
    | some canisterId => exact ⟨hcharged h.1, record.trans h.2.1, strategies _ h.2.2⟩
    | none => exact ⟨hrestituted h.1, record.trans h.2⟩

/-- A step that does not touch the deployment. -/
theorem Phased.congr (h : w.Phased id) (tasks : w'.tasksOf id = w.tasksOf id)
    (ended : w'.outcomeOf id = w.outcomeOf id) (refunds : w'.refundsOf id = w.refundsOf id)
    (requests : ∀ q : Request, q.deploymentId = id → (q ∈ w'.requests ↔ q ∈ w.requests))
    (record : w'.factory.getDeploymentRecord id = w.factory.getDeploymentRecord id)
    (strategies : ∀ c, (w.factory.getStrategyMetadata c).isSome →
      (w'.factory.getStrategyMetadata c).isSome) :
    w'.Phased id ∧ w'.phaseOf id = w.phaseOf id := by
  have hphase : w'.phaseOf id = w.phaseOf id := phaseOf_congr tasks ended record
  refine ⟨⟨tasks ▸ h.alone, ?_⟩, hphase⟩
  rw [hphase]
  exact h.stores.congr refunds requests record strategies

/-- A deployment whose record is completed does not wait. -/
theorem Phased.tasksOf_of_completed {r : DeploymentRecord} (h : w.Phased id)
    (hr : w.factory.getDeploymentRecord id = some r) (hc : r.Completed) : w.tasksOf id = [] := by
  refine h.alone.resolve_right ?_
  rintro ⟨t, ht, -⟩
  have hs := h.stores
  rw [show w.phaseOf id = .waiting t.stage by rw [phaseOf, ht]] at hs
  obtain ⟨-, r', hr', hstatus, -⟩ := hs
  obtain rfl := Option.some.inj (hr.symm.trans hr')
  obtain ⟨hdeployed, hrefunded⟩ := t.stage.status_ne
  exact hc.elim (fun hc => hdeployed (hstatus.symm.trans hc))
    fun hc => hrefunded (hstatus.symm.trans hc)

/-- A step that only drops the record of a deployment that does not wait. -/
theorem Phased.archive (h : w.Phased id) (hidle : w.tasksOf id = [])
    (tasks : w'.tasksOf id = w.tasksOf id) (ended : w'.outcomeOf id = w.outcomeOf id)
    (refunds : w'.refundsOf id = w.refundsOf id) (requests : w'.requests = w.requests)
    (hnone : w'.factory.getDeploymentRecord id = none)
    (strategies : ∀ c, (w.factory.getStrategyMetadata c).isSome →
      (w'.factory.getStrategyMetadata c).isSome) :
    w'.Phased id ∧ (w'.phaseOf id = w.phaseOf id ∨ (w.phaseOf id).Next (w'.phaseOf id)) := by
  cases hr : w.factory.getDeploymentRecord id with
  | none =>
    exact (h.congr tasks ended refunds (fun _ _ => by rw [requests]) (hnone.trans hr.symm)
      strategies).imp_right Or.inl
  | some r =>
    have hs := h.stores
    have hcharged : w.Charged id → w'.Charged id := fun ⟨hq, hrefunds⟩ =>
      ⟨requests ▸ hq, refunds.trans hrefunds⟩
    have hrestituted : w.Restituted id → w'.Restituted id := fun ⟨q, hq, hid, hrefunds⟩ =>
      ⟨q, requests ▸ hq, hid, refunds.trans hrefunds⟩
    have hforget : w.phaseOf id = .refunded r.canisterId → w'.phaseOf id = .archived none →
        w'.Phased id ∧
          (w'.phaseOf id = w.phaseOf id ∨ (w.phaseOf id).Next (w'.phaseOf id)) := by
      intro hphase hphase'
      rw [hphase] at hs
      rw [hphase, hphase']
      exact ⟨⟨Or.inl (tasks.trans hidle), hphase' ▸ ⟨hrestituted hs.1, hnone⟩⟩, Or.inr (.forget _)⟩
    -- what the execution has ended with decides the phase before and after
    rcases ho : w.outcomeOf id with _ | e | c | m
    · have hphase : w.phaseOf id = .unknown := by simp [phaseOf, hidle, ho]
      rw [hphase] at hs
      cases hs.2.2.symm.trans hr
    · exact hforget (by simp [phaseOf, hidle, ho, hr])
        (by simp [phaseOf, tasks, hidle, ended, ho, hnone])
    · have hphase : w.phaseOf id = .deployed c := by simp [phaseOf, hidle, ho, hr]
      have hphase' : w'.phaseOf id = .archived (some c) := by
        simp [phaseOf, tasks, hidle, ended, ho, hnone]
      rw [hphase] at hs
      rw [hphase, hphase']
      exact ⟨⟨Or.inl (tasks.trans hidle),
        hphase' ▸ ⟨hcharged hs.1, hnone, strategies c hs.2.2⟩⟩, Or.inr (.archive c)⟩
    · exact hforget (by simp [phaseOf, hidle, ho, hr])
        (by simp [phaseOf, tasks, hidle, ended, ho, hnone])

/-! ## Segments of the deployment -/

theorem outcomeOf_resume_of_ne {id' : String} (h : id ≠ id') :
    (w.resume P env spawned id p).outcomeOf id' = w.outcomeOf id' := by
  rw [outcomeOf, ended_resume, outcomeOf]
  cases p.1.result with
  | none => rfl
  | some result => simp [h]

/-- The spawned execution has ended with its result. -/
theorem outcomeOf_resume_self {result : Except String DeploymentResult} {f : Factory} :
    (w.resume P env true id (.returned result, f)).outcomeOf id = some result := by
  rw [outcomeOf, ended_resume]
  simp [Progress.result]

/-- A segment of the deployment takes it to its next phase. -/
theorem phased_resume_self {ends : Prop} {left : ℕ} {r : DeploymentRecord} (hw : w.Tracked)
    (hnil : w.tasksOf id = []) (hrefunds : w.refundsOf id = [])
    (hr : w.factory.getDeploymentRecord id = some r) (ho : Outcome P env w.factory id ends left p)
    (ha : Advances P env w.factory r phase p) :
    (w.resume P env true id p).Phased id ∧ phase.Next ((w.resume P env true id p).phaseOf id) := by
  have hf := factory_resume (w := w) true ho
  have hid := Factory.deploymentId_of_getDeploymentRecord hr
  obtain ⟨q, hq, hqid, -, hqf⟩ := hw.record id r hr
  have hrequest : ∃ q ∈ (w.resume P env true id p).requests, q.deploymentId = id :=
    ⟨q, by rwa [requests_resume], hqid⟩
  have htasks : (w.resume P env true id p).tasksOf id = p.1.waiting true env.caller id := by
    rw [tasksOf_resume_self, hnil, List.append_nil]
  cases ha with
  | waits r' record stage g next follows status canister writes =>
    have hphase : (w.resume P env true id (.awaiting record stage, g)).phaseOf id =
        .waiting stage := by
      rw [phaseOf, htasks]
      rfl
    refine ⟨⟨Or.inr ⟨_, htasks, rfl⟩, ?_⟩, hphase ▸ next⟩
    rw [hphase]
    refine ⟨⟨hrequest, ?_⟩, r', ?_, status, canister⟩
    · rw [refundsOf, hf, writes.posts.records_eq, List.append_nil]
      exact hrefunds
    · rw [hf, writes.record, if_pos (follows.deploymentId.trans hid).symm]
  | failed r' message g next follows status writes =>
    have hget : (w.resume P env true id
        (.returned (.ok (.failure message)), g)).factory.getDeploymentRecord id = some r' := by
      rw [hf, writes.record, if_pos (follows.deploymentId.trans hid).symm]
    have hphase : (w.resume P env true id (.returned (.ok (.failure message)), g)).phaseOf id =
        .refunded r'.canisterId := by
      rw [phaseOf, htasks, outcomeOf_resume_self, hget]
      rfl
    refine ⟨⟨Or.inl htasks, ?_⟩, hphase ▸ next⟩
    rw [hphase]
    refine ⟨⟨q, by rwa [requests_resume], hqid, ?_⟩, r', hget, status, rfl⟩
    rw [refundsOf, hf, writes.posts.records_eq, refunds_append, refunds_singleton_refundOf,
      if_pos hid, hqf]
    exact congrArg (· ++ [r.feeAmount]) hrefunds
  | deployed r' metadata canisterId g next follows status canister stored writes =>
    have hget : (w.resume P env true id
        (.returned (.ok (.success canisterId)), g)).factory.getDeploymentRecord id = some r' := by
      rw [hf, writes.record, if_pos (follows.deploymentId.trans hid).symm]
    have hphase : (w.resume P env true id (.returned (.ok (.success canisterId)), g)).phaseOf id =
        .deployed canisterId := by
      rw [phaseOf, htasks, outcomeOf_resume_self, hget]
      rfl
    refine ⟨⟨Or.inl htasks, ?_⟩, hphase ▸ next⟩
    rw [hphase]
    refine ⟨⟨hrequest, ?_⟩, ⟨r', hget, status, canister⟩, ?_⟩
    · rw [refundsOf, hf, writes.posts.records_eq, List.append_nil]
      exact hrefunds
    · rw [hf, Factory.getStrategyMetadata, writes.registry.strategies,
        Factory.storeStrategyMetadata, ← stored, KeyedMap.get?_insert_self]
      rfl

/-! ## Steps -/

/-- No segment removes a strategy. -/
theorem strategies_of_outcome {f : Factory} {ends : Prop} {left : ℕ}
    (ho : Outcome P env f id ends left p) (c : Principal)
    (h : (f.getStrategyMetadata c).isSome) : (p.2.getStrategyMetadata c).isSome := by
  cases ho with
  | lost message hr => exact h
  | waits r r' record stage g hr hends follows status writes =>
    rwa [Factory.getStrategyMetadata, writes.registry.strategies]
  | failed r r' message g hr hends follows status writes =>
    rwa [Factory.getStrategyMetadata, writes.registry.strategies]
  | deployed r r' metadata canisterId g hr hends follows status _ _ writes =>
    rw [Factory.getStrategyMetadata, writes.registry.strategies, Factory.storeStrategyMetadata,
      KeyedMap.get?_insert]
    split_ifs
    · rfl
    · exact h

/-- A segment of another deployment. -/
theorem Phased.resume_of_ne {ends : Prop} {left : ℕ} {id' : String} (h : w.Phased id')
    (hne : id ≠ id') (ho : Outcome P env w.factory id ends left p) :
    (w.resume P env spawned id p).Phased id' ∧
      (w.resume P env spawned id p).phaseOf id' = w.phaseOf id' := by
  obtain ⟨hrecord, hrefunds⟩ := other_of_outcome hne ho
  have hf := factory_resume (w := w) spawned ho
  refine h.congr (tasksOf_resume_of_ne hne) (outcomeOf_resume_of_ne hne) ?_
    (fun q _ => by rw [requests_resume]) ?_ fun c hc => ?_
  · rw [refundsOf, hf, hrefunds, refundsOf]
  · rw [hf, hrecord]
  · rw [hf]
    exact strategies_of_outcome ho c hc

/-- A step in which no execution runs leaves the phase, or a cleanup or an upgrade drops the
record. -/
theorem Deploys.phased (hd : Deploys P w e w') (h : w.Phased id) (he : w.executes e = none)
    (hreq : ∀ env config, e ≠ .requestStrategy env config) :
    w'.Phased id ∧ (w'.phaseOf id = w.phaseOf id ∨ (w.phaseOf id).Next (w'.phaseOf id)) := by
  cases hd with
  | still e w' env rs pays norefund tasks requests returned ended executes =>
    refine (h.congr (by rw [tasksOf, tasks, tasksOf]) (by rw [outcomeOf, ended, outcomeOf])
      (refundsOf_of_posts pays.posts norefund id) (fun q _ => by rw [requests])
      (pays.record id) fun c hc => ?_).imp_right Or.inl
    rwa [Factory.getStrategyMetadata, pays.strategies]
  | cleans time cycles g archives =>
    have hrefunds : (w.withFactory g).refundsOf id = w.refundsOf id :=
      refundsOf_of_posts archives.posts (by simp) id
    have hstrategies : ∀ c, (w.factory.getStrategyMetadata c).isSome →
        ((w.withFactory g).factory.getStrategyMetadata c).isSome := by
      intro c hc
      show (g.getStrategyMetadata c).isSome
      rwa [Factory.getStrategyMetadata, archives.registry.strategies]
    rcases archives.record id with heq | ⟨hnone, r, hr, hc⟩
    · have hsame : (w.withFactory g).Phased id ∧ (w.withFactory g).phaseOf id = w.phaseOf id :=
        h.congr rfl rfl hrefunds (fun _ _ => Iff.rfl) heq hstrategies
      exact hsame.imp_right Or.inl
    · exact h.archive (h.tasksOf_of_completed hr hc) rfl rfl hrefunds rfl hnone hstrategies
  | upgrades tasks =>
    have hnil : w.tasksOf id = [] := by rw [tasksOf, tasks, List.filter_nil]
    have hstrategies : ∀ c, w.factory.upgrade.getStrategyMetadata c =
        w.factory.getStrategyMetadata c :=
      KeyedMap.get?_eq_of_vals_perm w.factory.strategies_upgrade
    refine h.archive hnil rfl rfl rfl rfl rfl fun c hc => ?_
    show (w.factory.upgrade.getStrategyMetadata c).isSome
    rwa [hstrategies]
  | unserialized env config g passes posts records registry => exact absurd rfl (hreq env config)
  | requested env config configData g p passes posts records registry outcome =>
    exact absurd rfl (hreq env config)
  | forced env id p executes outcome => cases he.symm.trans executes
  | continued e task time cycles p mem executes outcome => cases he.symm.trans executes

/-- A request starts its own deployment and leaves the others. -/
theorem Phased.requestStrategy {config : Config} (h : w.Phased id) (hs : w.Sound) (hw : w.Tracked)
    (hwrap : w.factory.deploymentIdCounter + 1 < 2 ^ 64) :
    (w.requestStrategy P env config).Phased id ∧
      ((w.requestStrategy P env config).phaseOf id = w.phaseOf id ∨
        (w.phaseOf id).Next ((w.requestStrategy P env config).phaseOf id)) := by
  have hr := requestStrategy_requested hs P env config
  generalize w.requestStrategy P env config = w' at hr
  cases hr with
  | refused hn => exact ⟨⟨h.alone, h.stores⟩, Or.inl rfl⟩
  | unserialized e' g hp encode posts records registry =>
    have hsame : (w.withFactory g).Phased id ∧ (w.withFactory g).phaseOf id = w.phaseOf id := by
      refine h.congr rfl rfl (refundsOf_of_posts posts (by simp [feeOf]) id) (fun _ _ => Iff.rfl)
        (records id) fun c hc => ?_
      show (g.getStrategyMetadata c).isSome
      rwa [Factory.getStrategyMetadata, registry.strategies]
    exact hsame.imp_right Or.inl
  | accepted configData g hp encode posts records registry hg outcome =>
    have hrefunds : (w.accept env g).refundsOf id = w.refundsOf id :=
      refundsOf_of_posts posts (by simp [feeOf]) id
    by_cases hid : (w.factory.generateDeploymentId env).1 = id
    · subst hid
      have hnone : ∀ q ∈ w.requests, q.deploymentId ≠ (w.factory.generateDeploymentId env).1 :=
        fun q hq => hw.fresh hq env
      have hnil : (w.accept env g).tasksOf (w.factory.generateDeploymentId env).1 = [] := by
        refine List.filter_eq_nil_iff.2 fun t htm => ?_
        obtain ⟨q, hq, hqid⟩ := hw.task t htm
        simpa using fun h => hnone q hq (hqid.trans h)
      have hr : (w.accept env g).factory.getDeploymentRecord
          (w.factory.generateDeploymentId env).1 = some (newRecord env w.factory configData) :=
        (records _).trans (if_pos rfl)
      rw [h.phaseOf_eq_unknown hnone]
      exact (phased_resume_self (hw.accept hwrap hp posts records registry) hnil
        (hrefunds.trans (hw.refundsOf_new env)) hr outcome
        (executeDeployment_advances hg hr rfl rfl)).imp_right Or.inr
    · have hold : (w.accept env g).Phased id ∧ (w.accept env g).phaseOf id = w.phaseOf id := by
        refine h.congr rfl rfl hrefunds (fun q hq => ?_)
          ((records id).trans (if_neg (Ne.symm hid))) fun c hc => ?_
        · refine ⟨fun hmem => (List.mem_cons.1 hmem).resolve_left ?_, List.mem_cons_of_mem _⟩
          rintro rfl
          exact hid hq
        · show (g.getStrategyMetadata c).isSome
          rwa [Factory.getStrategyMetadata, registry.strategies]
      obtain ⟨hphased, hphase⟩ := hold.1.resume_of_ne hid outcome
      exact ⟨hphased, Or.inl (hphase.trans hold.2)⟩

/-- An answer to an execution takes its deployment to the next phase and leaves the others. -/
theorem Phased.answered {ends : Prop} {left : ℕ} {task : Task} (h : w.Phased id) (hw : w.Tracked)
    (mem : task ∈ w.tasks) (ho : Outcome P env w.factory task.deploymentId ends left p)
    (ha : ∀ r, w.factory.getDeploymentRecord task.deploymentId = some r →
      r.canisterId = task.stage.canister → Advances P env w.factory r (.waiting task.stage) p) :
    (resume { w with tasks := w.tasks.erase task } P env task.spawned task.deploymentId
        p).Phased id ∧
      ((resume { w with tasks := w.tasks.erase task } P env task.spawned task.deploymentId
          p).phaseOf id = w.phaseOf id ∨
        (w.phaseOf id).Next ((resume { w with tasks := w.tasks.erase task } P env task.spawned
          task.deploymentId p).phaseOf id)) := by
  have herase : ({ w with tasks := w.tasks.erase task } : World).tasksOf id =
      (w.tasksOf id).erase task := List.erase_filter.symm
  by_cases hid : task.deploymentId = id
  · subst hid
    have hmem : task ∈ w.tasksOf task.deploymentId :=
      List.mem_filter.2 ⟨mem, decide_eq_true rfl⟩
    obtain ⟨t, honly, hspawned⟩ := h.alone.resolve_left (List.ne_nil_of_mem hmem)
    obtain rfl : task = t := by simpa [honly] using hmem
    have hphase : w.phaseOf task.deploymentId = .waiting task.stage := by
      rw [phaseOf, honly]
    have hs := h.stores
    rw [hphase] at hs ⊢
    obtain ⟨⟨-, hrefunds⟩, r, hr, -, hcanister⟩ := hs
    rw [honly, List.erase_cons_head] at herase
    rw [hspawned]
    exact (phased_resume_self (hw.erase task) herase hrefunds hr ho (ha r hr hcanister)).imp_right
      Or.inr
  · have hold : ({ w with tasks := w.tasks.erase task } : World).Phased id ∧
        ({ w with tasks := w.tasks.erase task } : World).phaseOf id = w.phaseOf id := by
      refine h.congr ?_ rfl rfl (fun _ _ => Iff.rfl) rfl fun c hc => hc
      rw [herase, List.erase_of_not_mem]
      exact fun hmem => hid (of_decide_eq_true (List.mem_filter.1 hmem).2)
    obtain ⟨hphased, hphase⟩ := hold.1.resume_of_ne hid ho
    exact ⟨hphased, Or.inl (hphase.trans hold.2)⟩

/-- Every step that does not force the deployment leaves its phase or is a transition. -/
theorem Phased.next (h : w.Phased id) (hs : w.Sound) (hw : w.Tracked)
    (hc : e.isRequest = true → w.CounterFits e)
    (hforce : ∀ env, e ≠ .forceExecuteDeployment env id) (hn : next P L w e = some w') :
    w'.Phased id ∧ (w'.phaseOf id = w.phaseOf id ∨ (w.phaseOf id).Next (w'.phaseOf id)) := by
  have hd := next_deploys hs hn
  cases e with
  | requestStrategy env config =>
    obtain rfl := Option.some.inj hn
    exact h.requestStrategy hs hw (hc rfl)
  | forceExecuteDeployment env id' =>
    have hne : id' ≠ id := by
      rintro rfl
      exact hforce env rfl
    rcases next_forceExecuteDeployment hn with ⟨-, rfl⟩ | ⟨-, rfl⟩
    · exact ⟨⟨h.alone, h.stores⟩, Or.inl rfl⟩
    · exact (h.resume_of_ne hne (executeDeployment_outcome hs.records)).imp_right Or.inl
  | canisterCreated task time cycles result =>
    obtain ⟨ht, hst, rfl⟩ := next_canisterCreated hn
    refine h.answered hw ht (afterCreateCanister_outcome hs.records (hs.tasks task ht) result)
      fun r hr hcanister => ?_
    rw [hst] at hcanister ⊢
    exact afterCreateCanister_advances hs.records hr hcanister (hs.tasks task ht) result
  | codeInstalled task time cycles result =>
    obtain ⟨canisterId, ht, hst, rfl⟩ := next_codeInstalled hn
    refine h.answered hw ht
      (afterInstallCode_outcome hs.records (hs.tasks task ht) canisterId result) fun r hr _ => ?_
    rw [hst]
    exact afterInstallCode_advances hs.records hr (hs.tasks task ht) canisterId result
  | strategyInitialized task time cycles result =>
    obtain ⟨call, ht, hst, rfl⟩ := next_strategyInitialized hn
    refine h.answered hw ht
      (afterInitStrategy_outcome hs.records (hs.tasks task ht) call.canisterId result)
      fun r hr _ => ?_
    rw [hst]
    exact afterInitStrategy_advances hs.records hr (hs.tasks task ht) call result
  | _ => exact hd.phased h rfl nofun

/-! ## Runs -/

/-- The books and the requests of a state, and the phase of one deployment. -/
structure Settling (w : World) (id : String) : Prop where
  sound : w.Sound
  tracked : w.Tracked
  phased : w.Phased id

theorem settling_start (env : Env) (ledger : Ledger) (id : String) :
    (start env ledger).Settling id where
  sound := sound_start env ledger
  tracked := tracked_start env ledger
  phased := ⟨Or.inl rfl, fun _ hq => absurd hq List.not_mem_nil, rfl, rfl⟩

theorem Settling.step (h : w.Settling id) (hc : e.isRequest = true → w.CounterFits e)
    (hforce : ∀ env, e ≠ .forceExecuteDeployment env id) (hs : step P L w e = some w') :
    w'.Settling id ∧ (w'.phaseOf id = w.phaseOf id ∨ (w.phaseOf id).Next (w'.phaseOf id)) := by
  have hd := step_deploys h.sound hs
  unfold World.step at hs
  split_ifs at hs
  obtain ⟨hphased, hnext⟩ := h.phased.next h.sound h.tracked hc hforce hs
  exact ⟨⟨hd.sound h.sound, hd.tracked h.tracked hc, hphased⟩, hnext⟩

/-- The steps of a run of events with `D`, while the id counter fits. -/
theorem along_fits (P : Platform) (L : LedgerRule) (env : Env) (ledger : Ledger)
    {es : List Event} {D : Event → Prop} (hfew : es.countP Event.isRequest < 2 ^ 64)
    (hD : ∀ e ∈ es, D e) :
    Runs.Along (World.step P L) (fun w e => (e.isRequest = true → w.CounterFits e) ∧ D e)
      (start env ledger) es :=
  (along_requestFits (sound_start env ledger) ((Nat.zero_add _).trans_lt hfew)).and
    (Runs.along_of_forall hD)

/-- A deployment that no admin forces goes through its phases in order, and in each phase the
stores show it : the record's status and canister, the refunds and the strategy. -/
theorem deployment_phases (P : Platform) (L : LedgerRule) (env : Env) (ledger : Ledger)
    (es : List Event) (id : String) (hfew : es.countP Event.isRequest < 2 ^ 64)
    (hforce : ∀ env', .forceExecuteDeployment env' id ∉ es) :
    Runs.Throughout (World.step P L) (fun w => w.Shows id (w.phaseOf id))
        (start env ledger) es ∧
      Runs.Along (World.step P L) (fun w e => ∀ w', World.step P L w e = some w' →
        w'.phaseOf id = w.phaseOf id ∨ (w.phaseOf id).Next (w'.phaseOf id))
        (start env ledger) es := by
  have hunforced := along_fits P L env ledger
    (D := fun e => ∀ env', e ≠ .forceExecuteDeployment env' id) hfew
    fun e he env' heq => hforce env' (heq ▸ he)
  have hstart := settling_start env ledger id
  refine ⟨(Runs.throughout_of_along (P := fun w => w.Settling id) ?_ hstart hunforced).mono
    fun w h => h.phased.stores, ?_⟩
  · rintro w e w' h ⟨hc, hf⟩ hs
    exact (h.step hc hf hs).1
  · refine Runs.along_of_step (I := fun w => w.Settling id) ?_ hstart hunforced
    rintro w e w' h ⟨hc, hf⟩ hs
    obtain ⟨h', hnext⟩ := h.step hc hf hs
    refine ⟨h', fun w'' hs' => ?_⟩
    obtain rfl := Option.some.inj (hs.symm.trans hs')
    exact hnext

/-- A request whose calls all succeed ends in the phase `deployed`. -/
theorem deployment_phases_succeeds : ∃ w, Runs.run Sample.step Sample.world succeeds = some w ∧
    w.phaseOf Sample.deploymentId = .deployed Sample.canister ∧
    w.Shows Sample.deploymentId (.deployed Sample.canister) := by
  have hend : (Runs.run Sample.step Sample.world succeeds).any (fun w =>
      decide (w.phaseOf Sample.deploymentId = .deployed Sample.canister)) = true := by
    decide +kernel
  obtain ⟨w, hrun, hw⟩ := (Option.any_eq_true _ _).1 hend
  have hphase := of_decide_eq_true hw
  have h := (deployment_phases Sample.platform icrc1Transfer (Sample.message 0 Sample.admin)
    Sample.ledger succeeds Sample.deploymentId (by decide)
    (by simp [succeeds, Sample.requested])).1.last hrun
  exact ⟨w, hrun, hphase, hphase ▸ h⟩

end World

end HunterFi
