import HunterFi.Books

/-!
# What a deployment segment does

A stored record is `Sound` if its fee can be paid back, its strategy is the one that has
code, and it is not left in `DeploymentFailed`. From sound records every segment of
`execute_deployment` has one of four outcomes (`Outcome`) : the record is gone and nothing
changes, it waits for the next answer, it fails with the fee refunded and the record
`Refunded`, or the strategy is stored and the record is `Deployed`. `ends` says which of the
last three, by what the segment was answered.

`Writes f r rs g` is the frame : the segment stores `r`, posts `rs` and leaves the rest of
the factory alone. `RequestOutcome` is the same for `create_strategy_request`.
-/

set_option linter.unusedSectionVars false

namespace HunterFi

/-! ## Records -/

/-- A record whose fee can be refunded and that is not left in `DeploymentFailed`. -/
structure DeploymentRecord.Sound (r : DeploymentRecord) : Prop where
  one_le_fee : 1 ≤ r.feeAmount
  fee_le : r.feeAmount ≤ u64Max
  strategyType_eq : r.strategyType = .selfHedging
  status_ne : r.status ≠ .deploymentFailed

/-- `r'` is a later state of the record `r`. -/
structure DeploymentRecord.Follows (r' r : DeploymentRecord) : Prop where
  deploymentId : r'.deploymentId = r.deploymentId
  strategyType : r'.strategyType = r.strategyType
  owner : r'.owner = r.owner
  feeAmount : r'.feeAmount = r.feeAmount
  requestTime : r'.requestTime = r.requestTime
  configData : r'.configData = r.configData

namespace DeploymentRecord

variable {r r' r'' : DeploymentRecord}

theorem Follows.refl (r : DeploymentRecord) : r.Follows r :=
  ⟨rfl, rfl, rfl, rfl, rfl, rfl⟩

theorem Follows.trans (h' : r''.Follows r') (h : r'.Follows r) : r''.Follows r :=
  ⟨h'.1.trans h.1, h'.2.trans h.2, h'.3.trans h.3, h'.4.trans h.4, h'.5.trans h.5,
    h'.6.trans h.6⟩

/-- A new status keeps what the request has set. -/
theorem follows_withStatus (r : DeploymentRecord) (time : ℕ) (status : DeploymentStatus)
    (canisterId : Option Principal) (errorMessage : Option String) :
    (r.withStatus time status canisterId errorMessage).Follows r :=
  ⟨rfl, rfl, rfl, rfl, rfl, rfl⟩

/-- A later state of a sound record is sound unless it has failed. -/
theorem Follows.sound (h : r'.Follows r) (hr : r.Sound) (hs : r'.status ≠ .deploymentFailed) :
    r'.Sound :=
  ⟨h.feeAmount ▸ hr.one_le_fee, h.feeAmount ▸ hr.fee_le, h.strategyType ▸ hr.strategyType_eq, hs⟩

end DeploymentRecord

/-- Every stored record is sound. -/
def Factory.Sound (f : Factory) : Prop :=
  ∀ id r, f.getDeploymentRecord id = some r → r.Sound

/-! ## Frames -/

/-- The registry, the fee, the admins and the id counter are the same. -/
structure SameRegistry (f g : Factory) : Prop where
  strategies : g.strategies = f.strategies
  ownerStrategies : g.ownerStrategies = f.ownerStrategies
  deploymentFee : g.deploymentFee = f.deploymentFee
  admins : g.admins = f.admins
  counter : g.deploymentIdCounter = f.deploymentIdCounter

theorem SameRegistry.refl (f : Factory) : SameRegistry f f :=
  ⟨rfl, rfl, rfl, rfl, rfl⟩

theorem SameRegistry.trans {f g h : Factory} (hfg : SameRegistry f g) (hgh : SameRegistry g h) :
    SameRegistry f h :=
  ⟨hgh.1.trans hfg.1, hgh.2.trans hfg.2, hgh.3.trans hfg.3, hgh.4.trans hfg.4, hgh.5.trans hfg.5⟩

/-- A segment stores the record `r`, posts `rs`, and changes nothing else. -/
structure Writes (P : Platform) (env : Env) (f : Factory) (r : DeploymentRecord)
    (rs : List TransactionRecord) (g : Factory) : Prop where
  record : ∀ id, g.getDeploymentRecord id =
    if id = r.deploymentId then some r else f.getDeploymentRecord id
  posts : Posts P env f rs g
  registry : SameRegistry f g

namespace Writes

variable {P : Platform} {env : Env} {f g h : Factory} {r r' : DeploymentRecord}
  {rs ss : List TransactionRecord}

theorem refl {id : String} (hr : f.getDeploymentRecord id = some r) : Writes P env f r [] f := by
  refine ⟨fun id' => ?_, Posts.refl f, SameRegistry.refl f⟩
  split_ifs with hid
  · rw [hid, Factory.deploymentId_of_getDeploymentRecord hr, hr]
  · rfl

theorem store (P : Platform) (env : Env) (f : Factory) (r : DeploymentRecord) :
    Writes P env f r [] (f.storeDeploymentRecord r) :=
  ⟨fun id => f.getDeploymentRecord_storeDeploymentRecord r id,
    Posts.idle (fun _ => rfl) (fun _ => rfl) rfl, ⟨rfl, rfl, rfl, rfl, rfl⟩⟩

theorem trans (hfg : Writes P env f r rs g) (hgh : Writes P env g r' ss h)
    (hid : r'.deploymentId = r.deploymentId) : Writes P env f r' (rs ++ ss) h := by
  refine ⟨fun id => ?_, hfg.posts.trans hgh.posts, hfg.registry.trans hgh.registry⟩
  rw [hgh.record, hfg.record, hid]
  split_ifs <;> rfl

theorem get_self (hw : Writes P env f r rs g) : g.getDeploymentRecord r.deploymentId = some r := by
  rw [hw.record, if_pos rfl]

/-- What is written keeps the factory sound. -/
theorem sound (hw : Writes P env f r rs g) (hf : f.Sound) (hr : r.Sound) : g.Sound := by
  intro id r' h
  rw [hw.record] at h
  split_ifs at h with hid
  · exact Option.some.inj h ▸ hr
  · exact hf id r' h

end Writes

/-- The number of answers an execution still waits for. -/
def Stage.left : Stage → ℕ
  | .createCanister => 3
  | .installCode _ => 2
  | .initStrategy _ => 1

/-! ## Refunds -/

/-- The transaction that records the refund of `r`. -/
def refundOf (P : Platform) (env : Env) (r : DeploymentRecord) : TransactionRecord :=
  Factory.newTransaction P env r.owner r.feeAmount .refund
    ("Refund for deployment: " ++ r.deploymentId)

@[simp] theorem amount_refundOf (P : Platform) (env : Env) (r : DeploymentRecord) :
    (refundOf P env r).amount = r.feeAmount :=
  rfl

@[simp] theorem user_refundOf (P : Platform) (env : Env) (r : DeploymentRecord) :
    (refundOf P env r).user = r.owner :=
  rfl

namespace Deployment

variable {P : Platform} {env : Env} {f : Factory} {id : String} {r record : DeploymentRecord}

/-- A refund writes its status and posts one record. -/
theorem processBalanceRefund_writes (P : Platform) (env : Env)
    (hr : f.getDeploymentRecord id = some r)
    (h1 : 1 ≤ r.feeAmount) (h2 : r.feeAmount ≤ u64Max) :
    ∃ g, Payment.processBalanceRefund P env f r.owner r.feeAmount id = (.ok (), g) ∧
      Writes P env f (r.withStatus env.time .refunded none (some "Deployment fee refunded"))
        [refundOf P env r] g := by
  obtain rfl := Factory.deploymentId_of_getDeploymentRecord hr
  refine ⟨_, Payment.processBalanceRefund_eq h1 h2 hr, fun id => ?_, ?_, ⟨rfl, rfl, rfl, rfl, rfl⟩⟩
  · exact Factory.getDeploymentRecord_storeDeploymentRecord _ _ _
  · exact (Posts.credit f r.owner r.feeAmount .refund _ rfl).then_idle (fun _ => rfl)
      (fun _ => rfl) rfl

/-- A stored record takes the new status. -/
theorem updateDeploymentStatus_some (hr : f.getDeploymentRecord id = some r)
    (status : DeploymentStatus) (canisterId : Option Principal) (errorMessage : Option String) :
    f.updateDeploymentStatus env id status canisterId errorMessage =
      .ok (f.storeDeploymentRecord (r.withStatus env.time status canisterId errorMessage)) :=
  Factory.updateDeploymentStatus_eq_ok.2 ⟨r, hr, rfl⟩

/-- Without a record there is an error. -/
theorem updateDeploymentStatus_none (hr : f.getDeploymentRecord id = none)
    (status : DeploymentStatus) (canisterId : Option Principal) (errorMessage : Option String) :
    f.updateDeploymentStatus env id status canisterId errorMessage =
      .error ("Deployment record not found: " ++ id) := by
  rw [Factory.updateDeploymentStatus, hr]

/-- A failing stage of a stored record refunds its fee. -/
theorem fail_writes (P : Platform) (env : Env) (hr : f.getDeploymentRecord id = some r)
    (hs : r.Sound) (canisterId : Option Principal) (error : DeploymentError) :
    ∃ r' g, fail P env f id canisterId error = (.returned (.ok (.failure error.text)), g) ∧
      r'.Follows r ∧ r'.status = .refunded ∧ Writes P env f r' [refundOf P env r] g := by
  let r₁ := r.withStatus env.time .deploymentFailed canisterId (some error.text)
  have hid := Factory.deploymentId_of_getDeploymentRecord hr
  have hu : f.updateDeploymentStatus env id .deploymentFailed canisterId (some error.text) =
      .ok (f.storeDeploymentRecord r₁) := updateDeploymentStatus_some hr _ _ _
  have hid₁ : r₁.deploymentId = id := hid
  have hg : (f.storeDeploymentRecord r₁).getDeploymentRecord id = some r₁ :=
    hid₁ ▸ (Writes.store P env f r₁).get_self
  obtain ⟨g, heq, hw⟩ := processBalanceRefund_writes P env hg hs.one_le_fee
    hs.fee_le
  refine ⟨r₁.withStatus env.time .refunded none (some "Deployment fee refunded"), g, ?_,
    (r₁.follows_withStatus _ _ _ _).trans (r.follows_withStatus _ _ _ _), rfl, ?_⟩
  · simp only [fail, handleDeploymentFailure, hu, hg, heq]
  · exact (Writes.store P env f r₁).trans hw rfl

/-- A failing stage, from a state that has stored a later state of the record. -/
theorem fail_after_writes {r₁ : DeploymentRecord} {f₁ : Factory}
    (hr : f.getDeploymentRecord id = some r) (hs : r.Sound) (hf : r₁.Follows r)
    (hs₁ : r₁.status ≠ .deploymentFailed) (hw : Writes P env f r₁ [] f₁)
    (canisterId : Option Principal) (error : DeploymentError) :
    ∃ r' g, fail P env f₁ id canisterId error = (.returned (.ok (.failure error.text)), g) ∧
      r'.Follows r ∧ r'.status = .refunded ∧ Writes P env f r' [refundOf P env r] g := by
  have hid : r₁.deploymentId = id :=
    hf.deploymentId.trans (Factory.deploymentId_of_getDeploymentRecord hr)
  have hr₁ : f₁.getDeploymentRecord id = some r₁ := hid ▸ hw.get_self
  obtain ⟨r', g, heq, hf', hst, hw'⟩ := fail_writes P env hr₁ (hf.sound hs hs₁)
    canisterId error
  have hrefund : refundOf P env r₁ = refundOf P env r := by
    rw [refundOf, refundOf, hf.owner, hf.feeAmount, hf.deploymentId]
  exact ⟨r', g, heq, hf'.trans hf, hst, hrefund ▸ hw.trans hw' hf'.deploymentId⟩

/-- A failing stage whose record is gone changes nothing. -/
theorem fail_lost (P : Platform) (env : Env) (hr : f.getDeploymentRecord id = none)
    (canisterId : Option Principal) (error : DeploymentError) :
    ∃ message, fail P env f id canisterId error = (.returned (.error message), f) := by
  refine ⟨"Failed to update deployment status: " ++ ("Deployment record not found: " ++ id), ?_⟩
  simp only [fail, handleDeploymentFailure, updateDeploymentStatus_none hr]

/-! ## The four outcomes -/

/-- What a segment of `execute_deployment` leads to, when at most `left` answers were still
to come. `ends` is the case in which it ends if its record is there. -/
inductive Outcome (P : Platform) (env : Env) (f : Factory) (id : String) (ends : Prop)
    (left : ℕ) : Progress × Factory → Prop
  | lost (message : String) (hr : f.getDeploymentRecord id = none) :
    Outcome P env f id ends left (.returned (.error message), f)
  | waits (r r' record : DeploymentRecord) (stage : Stage) (g : Factory)
    (hr : f.getDeploymentRecord id = some r) (hends : ¬ends) (follows : r'.Follows r)
    (status : r'.status = r.status ∨ r'.status = .canisterCreated ∨ r'.status = .codeInstalled)
    (writes : Writes P env f r' [] g) (strategyType : record.strategyType = .selfHedging)
    (fewer : stage.left < left) :
    Outcome P env f id ends left (.awaiting record stage, g)
  | failed (r r' : DeploymentRecord) (message : String) (g : Factory)
    (hr : f.getDeploymentRecord id = some r) (hends : ends) (follows : r'.Follows r)
    (status : r'.status = .refunded) (writes : Writes P env f r' [refundOf P env r] g) :
    Outcome P env f id ends left (.returned (.ok (.failure message)), g)
  | deployed (r r' : DeploymentRecord) (metadata : StrategyMetadata) (canisterId : Principal)
    (g : Factory) (hr : f.getDeploymentRecord id = some r) (hends : ends) (follows : r'.Follows r)
    (status : r'.status = .deployed) (canister : r'.canisterId = some canisterId)
    (stored : metadata.canisterId = canisterId)
    (writes : Writes P env (f.storeStrategyMetadata metadata) r' [] g) (last : left ≤ 1) :
    Outcome P env f id ends left (.returned (.ok (.success canisterId)), g)

/-- A failing stage, from a state that has stored later states of the record. -/
theorem outcome_fail {ends : Prop} {left : ℕ} {r₁ : DeploymentRecord} {f₁ : Factory}
    (hr : f.getDeploymentRecord id = some r) (hs : r.Sound) (hends : ends) (hf : r₁.Follows r)
    (hs₁ : r₁.status ≠ .deploymentFailed) (hw : Writes P env f r₁ [] f₁)
    (canisterId : Option Principal) (error : DeploymentError) :
    Outcome P env f id ends left (fail P env f₁ id canisterId error) := by
  obtain ⟨r', g, heq, hf', hst, hw'⟩ := fail_after_writes hr hs hf hs₁ hw canisterId error
  rw [heq]
  exact .failed r r' _ g hr hends hf' hst hw'

/-- A segment that finds no record. -/
theorem outcome_fail_lost {ends : Prop} {left : ℕ} (hr : f.getDeploymentRecord id = none)
    (canisterId : Option Principal) (error : DeploymentError) :
    Outcome P env f id ends left (fail P env f id canisterId error) := by
  obtain ⟨message, heq⟩ := fail_lost P env hr canisterId error
  rw [heq]
  exact .lost message hr

/-- The first segment of an execution. -/
theorem executeDeployment_outcome (hf : f.Sound) :
    Outcome P env f id (env.cycles < creationCycles) 4 (executeDeployment P env f id) := by
  unfold executeDeployment
  cases hr : f.getDeploymentRecord id with
  | none => exact .lost _ hr
  | some r =>
    dsimp only
    split_ifs with hc
    · exact outcome_fail hr (hf id r hr) hc (.refl r) (hf id r hr).status_ne (.refl hr) _ _
    · exact .waits r r r _ f hr hc (.refl r) (Or.inl rfl) (.refl hr)
        (hf id r hr).strategyType_eq (by decide)

/-- The segment after the creation. -/
theorem afterCreateCanister_outcome (hf : f.Sound) (hty : record.strategyType = .selfHedging)
    (result : CallResult Principal) :
    Outcome P env f id (result.isOk = false) 3 (afterCreateCanister P env f id record result) := by
  unfold afterCreateCanister
  cases hr : f.getDeploymentRecord id with
  | none =>
    cases result with
    | error code message => exact outcome_fail_lost hr _ _
    | ok canisterId =>
      simp only [updateDeploymentStatus_none hr]
      exact .lost _ hr
  | some r =>
    cases result with
    | error code message =>
      exact outcome_fail hr (hf id r hr) rfl (.refl r) (hf id r hr).status_ne (.refl hr) _ _
    | ok canisterId =>
      simp only [updateDeploymentStatus_some hr, hty, getEmbeddedWasmModule, ne_eq,
        not_true_eq_false, if_false]
      exact .waits r _ record _ _ hr (by simp [CallResult.isOk]) (r.follows_withStatus _ _ _ _)
        (Or.inr (Or.inl rfl)) (.store P env f _) hty (by simp [Stage.left])

/-- The answers of `install_code` after which the execution ends. -/
def installEnds (P : Platform) (record : DeploymentRecord) (result : CallResult Unit) : Prop :=
  result.isOk = false ∨ ∃ e, P.decodeSelfHedging record.configData = .error e

/-- The segment after the installation. -/
theorem afterInstallCode_outcome (hf : f.Sound) (hty : record.strategyType = .selfHedging)
    (canisterId : Principal) (result : CallResult Unit) :
    Outcome P env f id (installEnds P record result) 2
      (afterInstallCode P env f id record canisterId result) := by
  unfold afterInstallCode
  cases hr : f.getDeploymentRecord id with
  | none =>
    cases result with
    | error code message => exact outcome_fail_lost hr _ _
    | ok _ =>
      simp only [updateDeploymentStatus_none hr]
      exact .lost _ hr
  | some r =>
    cases result with
    | error code message =>
      exact outcome_fail hr (hf id r hr) (Or.inl rfl) (.refl r) (hf id r hr).status_ne (.refl hr)
        _ _
    | ok _ =>
      simp only [updateDeploymentStatus_some hr, initializeStrategy, hty]
      cases hd : P.decodeSelfHedging record.configData with
      | error e =>
        exact outcome_fail hr (hf id r hr) (Or.inr ⟨e, hd⟩) (r.follows_withStatus _ _ _ _)
          (by simp [DeploymentRecord.withStatus]) (.store P env f _) _ _
      | ok config =>
        refine .waits r _ record _ _ hr ?_ (r.follows_withStatus _ _ _ _)
          (Or.inr (Or.inr rfl)) (.store P env f _) hty (by simp [Stage.left])
        rintro (h | ⟨e, he⟩)
        · cases h
        · rw [hd] at he
          cases he

/-- The metadata of a strategy names its canister, its owner and its type. -/
theorem createStrategyMetadata_eq_ok {canisterId : Principal} {m : StrategyMetadata}
    (hty : record.strategyType = .selfHedging)
    (hm : createStrategyMetadata P env record canisterId = .ok m) :
    m.canisterId = canisterId ∧ m.owner = record.owner ∧ m.strategyType = record.strategyType := by
  simp only [createStrategyMetadata, hty] at hm
  cases hd : P.decodeSelfHedging record.configData with
  | error e =>
    rw [hd] at hm
    cases hm
  | ok c =>
    rw [hd] at hm
    obtain rfl := Except.ok.inj hm
    exact ⟨rfl, rfl, rfl⟩

/-- An initialised strategy is stored, and its deployment is `Deployed`. -/
theorem afterInitStrategy_ok {canisterId : Principal} {m : StrategyMetadata}
    (hr : f.getDeploymentRecord id = some r)
    (hm : createStrategyMetadata P env record canisterId = .ok m) :
    ∃ r' g, afterInitStrategy P env f id record canisterId (.ok ()) =
        (.returned (.ok (.success canisterId)), g) ∧ r'.Follows r ∧ r'.status = .deployed ∧
      r'.canisterId = some canisterId ∧ Writes P env (f.storeStrategyMetadata m) r' [] g := by
  obtain ⟨r₁, hr₁⟩ : ∃ r₁, r₁ = r.withStatus env.time .initialized (some canisterId) none :=
    ⟨_, rfl⟩
  have hf₁ : r₁.Follows r := hr₁ ▸ r.follows_withStatus _ _ _ _
  have hid := Factory.deploymentId_of_getDeploymentRecord hr
  -- the metadata and the record are kept in different maps
  have hg : ((f.storeDeploymentRecord r₁).storeStrategyMetadata m).getDeploymentRecord id =
      some r₁ :=
    (hf₁.deploymentId.trans hid) ▸ (Writes.store P env f r₁).get_self
  refine ⟨r₁.withStatus env.time .deployed (some canisterId) none, _, ?_,
    (r₁.follows_withStatus _ _ _ _).trans hf₁, rfl, rfl,
    (Writes.store P env (f.storeStrategyMetadata m) r₁).trans (.store P env _ _) rfl⟩
  simp only [afterInitStrategy, updateDeploymentStatus_some hr, hm, ← hr₁,
    updateDeploymentStatus_some hg]
  rfl

/-- What the last segment of an execution leads to. -/
inductive InitOutcome (P : Platform) (env : Env) (f : Factory) (id : String)
    (record : DeploymentRecord) (canisterId : Principal) (result : CallResult Unit) :
    Progress × Factory → Prop
  | lost (message : String) (hr : f.getDeploymentRecord id = none) :
    InitOutcome P env f id record canisterId result (.returned (.error message), f)
  | failed (r r' : DeploymentRecord) (message : String) (g : Factory)
    (hr : f.getDeploymentRecord id = some r) (hends : installEnds P record result)
    (follows : r'.Follows r) (status : r'.status = .refunded)
    (writes : Writes P env f r' [refundOf P env r] g) :
    InitOutcome P env f id record canisterId result (.returned (.ok (.failure message)), g)
  | deployed (r r' : DeploymentRecord) (m : StrategyMetadata) (g : Factory)
    (hr : f.getDeploymentRecord id = some r) (hgo : ¬installEnds P record result)
    (metadata : createStrategyMetadata P env record canisterId = .ok m)
    (follows : r'.Follows r) (status : r'.status = .deployed)
    (canister : r'.canisterId = some canisterId)
    (writes : Writes P env (f.storeStrategyMetadata m) r' [] g) :
    InitOutcome P env f id record canisterId result (.returned (.ok (.success canisterId)), g)

/-- The last segment, which reads nothing of the reply but whether there is one. -/
theorem afterInitStrategy_initOutcome (hf : f.Sound) (hty : record.strategyType = .selfHedging)
    (canisterId : Principal) (result : CallResult Unit) :
    InitOutcome P env f id record canisterId result
      (afterInitStrategy P env f id record canisterId result) := by
  cases hr : f.getDeploymentRecord id with
  | none =>
    cases result with
    | error code message =>
      obtain ⟨message, heq⟩ := fail_lost P env hr (some canisterId) (.initializationFailed
        ("Failed to initialize strategy: code=" ++ code.debug ++ ", message=" ++ message))
      rw [afterInitStrategy, heq]
      exact .lost message hr
    | ok _ =>
      simp only [afterInitStrategy, updateDeploymentStatus_none hr]
      exact .lost _ hr
  | some r =>
    have hs := hf id r hr
    cases result with
    | error code message =>
      obtain ⟨r', g, heq, follows, status, writes⟩ := fail_after_writes hr hs (.refl r)
        hs.status_ne (.refl hr) (some canisterId) (.initializationFailed
          ("Failed to initialize strategy: code=" ++ code.debug ++ ", message=" ++ message))
      rw [afterInitStrategy, heq]
      exact .failed r r' _ g hr (Or.inl rfl) follows status writes
    | ok _ =>
      cases hm : createStrategyMetadata P env record canisterId with
      | error e =>
        obtain ⟨r', g, heq, follows, status, writes⟩ := fail_after_writes hr hs
          (r.follows_withStatus env.time .initialized (some canisterId) none)
          (by simp [DeploymentRecord.withStatus]) (.store P env f _) (some canisterId)
          (.metadataError e)
        simp only [afterInitStrategy, updateDeploymentStatus_some hr, hm, heq]
        refine .failed r r' _ g hr (Or.inr ?_) follows status writes
        simp only [createStrategyMetadata, hty] at hm
        cases hd : P.decodeSelfHedging record.configData with
        | error e => exact ⟨e, rfl⟩
        | ok c =>
          rw [hd] at hm
          cases hm
      | ok m =>
        obtain ⟨r', g, heq, follows, status, canister, writes⟩ := afterInitStrategy_ok hr hm
        rw [heq]
        refine .deployed r r' m g hr ?_ hm follows status canister writes
        rintro (h | ⟨e, he⟩)
        · cases h
        · simp only [createStrategyMetadata, hty, he] at hm
          cases hm

theorem afterInitStrategy_outcome (hf : f.Sound) (hty : record.strategyType = .selfHedging)
    (canisterId : Principal) (result : CallResult Unit) :
    Outcome P env f id True 1 (afterInitStrategy P env f id record canisterId result) := by
  have ho : InitOutcome P env f id record canisterId result
      (afterInitStrategy P env f id record canisterId result) :=
    afterInitStrategy_initOutcome hf hty canisterId result
  generalize afterInitStrategy P env f id record canisterId result = p at ho
  cases ho with
  | lost message hr => exact .lost message hr
  | failed r r' message g hr hends follows status writes =>
    exact .failed r r' message g hr trivial follows status writes
  | deployed r r' m g hr hgo metadata follows status canister writes =>
    exact .deployed r r' m canisterId g hr trivial follows status canister
      (createStrategyMetadata_eq_ok hty metadata).1 writes le_rfl

/-- After an error the record is gone, so the second refund is never made. -/
theorem Outcome.spawnedReturn_eq {ends : Prop} {left : ℕ} {result : Except String DeploymentResult}
    {g : Factory} (h : Outcome P env f id ends left (.returned result, g)) :
    spawnedReturn P env g id result = g := by
  cases h with
  | lost message hr => simp only [spawnedReturn, hr]
  | failed => rfl
  | deployed => rfl

/-! ## Requests -/

/-- The transaction that records the fee of a request. -/
def feeOf (P : Platform) (env : Env) (f : Factory) : TransactionRecord :=
  Factory.newTransaction P env env.caller f.deploymentFee .deploymentFee
    "Deployment fee for SelfHedging strategy"

/-- The record that an accepted request stores. -/
def newRecord (env : Env) (f : Factory) (configData : List UInt8) : DeploymentRecord where
  deploymentId := (f.generateDeploymentId env).1
  strategyType := .selfHedging
  owner := env.caller
  feeAmount := f.deploymentFee
  requestTime := env.time
  status := .paymentReceived
  canisterId := none
  configData := configData
  errorMessage := none
  lastUpdated := env.time

/-- A request passes the checks and its fee is covered. -/
structure Passes (env : Env) (f : Factory) (config : Config) : Prop where
  caller_ne : env.caller ≠ .anonymous
  validate_eq : config.validate = .ok ()
  strategyType_eq : config.getStrategyType = .selfHedging
  one_le_fee : 1 ≤ f.deploymentFee
  fee_le : f.deploymentFee ≤ u64Max
  covered : f.deploymentFee ≤ f.balance env.caller

/-- The checks of `create_strategy_request` pass and the fee is covered. -/
structure Chargeable (env : Env) (f : Factory) (config : Config) : Prop where
  validate_eq : config.validate = .ok ()
  strategyType_eq : config.getStrategyType = .selfHedging
  one_le_fee : 1 ≤ f.deploymentFee
  fee_le : f.deploymentFee ≤ u64Max
  covered : f.deploymentFee ≤ f.balance env.caller

theorem Passes.chargeable {f : Factory} {config : Config} (h : Passes env f config) :
    Chargeable env f config :=
  ⟨h.2, h.3, h.4, h.5, h.6⟩

/-- The state after the fee of a request is paid. -/
def charged (P : Platform) (env : Env) (f : Factory) : Factory :=
  (f.debit env.caller f.deploymentFee).post P env env.caller f.deploymentFee .deploymentFee
    "Deployment fee for SelfHedging strategy"

/-- The state after an accepted request is sound. -/
theorem Passes.sound {f g : Factory} {config : Config} {configData : List UInt8}
    (h : Passes env f config) (hf : f.Sound)
    (records : ∀ id, g.getDeploymentRecord id =
      if id = (f.generateDeploymentId env).1 then some (newRecord env f configData)
      else f.getDeploymentRecord id) : g.Sound := by
  intro id r hr
  rw [records] at hr
  split_ifs at hr with hid
  · obtain rfl := Option.some.inj hr
    exact ⟨h.one_le_fee, h.fee_le, rfl, by simp [newRecord]⟩
  · exact hf id r hr

/-- What a strategy request leads to, before its deployment starts. -/
inductive RequestOutcome (P : Platform) (env : Env) (f : Factory) (config : Config) :
    Except String DeploymentRequest × Factory → Prop
  | refused (message : String) (h : ¬Passes env f config) :
    RequestOutcome P env f config (.error message, f)
  | unserialized (message e : String) (g : Factory) (h : Passes env f config)
    (encode : P.encodeOne config = .error e) (posts : Posts P env f [feeOf P env f] g)
    (records : ∀ id, g.getDeploymentRecord id = f.getDeploymentRecord id)
    (registry : SameRegistry (f.generateDeploymentId env).2 g) :
    RequestOutcome P env f config (.error message, g)
  | accepted (configData : List UInt8) (g : Factory) (h : Passes env f config)
    (encode : P.encodeOne config = .ok configData) (posts : Posts P env f [feeOf P env f] g)
    (records : ∀ id, g.getDeploymentRecord id =
      if id = (f.generateDeploymentId env).1 then some (newRecord env f configData)
      else f.getDeploymentRecord id)
    (registry : SameRegistry (f.generateDeploymentId env).2 g) :
    RequestOutcome P env f config
      (.ok ⟨(f.generateDeploymentId env).1, f.deploymentFee, .selfHedging⟩, g)

/-- `create_strategy_request` up to `generate_deployment_id`, with the id that it returns. -/
def identifyRequest (P : Platform) (env : Env) (f : Factory) (config : Config) :
    Except String String × Factory :=
  let owner := env.caller
  let fee := f.getFee
  match config.validate with
  | .error e => (.error (DeploymentError.configError e).text, f)
  | .ok () =>
    let strategyType := config.getStrategyType
    let wasm := getEmbeddedWasmModule strategyType
    if wasm.isNone || strategyType ≠ .selfHedging then
      (.error (DeploymentError.moduleNotFound strategyType).text, f)
    else
      match Payment.processBalancePayment P env f owner fee
          ("Deployment fee for " ++ strategyType.debug ++ " strategy") with
      | (.error e, f) => (.error (DeploymentError.paymentError e).text, f)
      | (.ok (), f) =>
        let (deploymentId, f) := f.generateDeploymentId env
        (.ok deploymentId, f)

/-- `create_strategy_request` from the id on : the record is made and stored. -/
def recordRequest (P : Platform) (env : Env) (config : Config) (fee : ℕ) :
    Except String String × Factory → Except String DeploymentRequest × Factory
  | (.error e, f) => (.error e, f)
  | (.ok deploymentId, f) =>
    match createDeploymentRecord P env deploymentId config.getStrategyType env.caller fee
        config with
    | .error e => (.error e.text, f)
    | .ok record =>
      (.ok ⟨deploymentId, fee, config.getStrategyType⟩, f.storeDeploymentRecord record)

/-- A request is identified, charged and recorded. -/
theorem createStrategyRequest_eq (P : Platform) (env : Env) (f : Factory) (config : Config) :
    createStrategyRequest P env f config =
      recordRequest P env config f.getFee (identifyRequest P env f config) := by
  unfold createStrategyRequest identifyRequest
  dsimp only
  cases config.validate with
  | error e => rfl
  | ok _ =>
    dsimp only
    split_ifs with hgate
    · rfl
    · rcases Payment.processBalancePayment P env f env.caller f.getFee
          ("Deployment fee for " ++ config.getStrategyType.debug ++ " strategy") with
        ⟨_ | _, g⟩
      · rfl
      · rfl

/-- A request has an id exactly if it is charged. -/
theorem identifyRequest_cases (P : Platform) (env : Env) (f : Factory) (config : Config) :
    (¬Chargeable env f config ∧ ∃ message, identifyRequest P env f config = (.error message, f)) ∨
      Chargeable env f config ∧ identifyRequest P env f config =
        (.ok (f.generateDeploymentId env).1, ((charged P env f).generateDeploymentId env).2) := by
  unfold identifyRequest
  dsimp only
  cases hv : config.validate with
  | error e =>
    refine Or.inl ⟨fun h => ?_, _, rfl⟩
    rw [h.validate_eq] at hv
    cases hv
  | ok _ =>
    by_cases hty : config.getStrategyType = .selfHedging
    · have hgate : ((getEmbeddedWasmModule .selfHedging).isNone ||
          decide (StrategyType.selfHedging ≠ .selfHedging)) = false := rfl
      simp only [hty, hgate, Bool.false_eq_true, if_false]
      rcases Payment.processBalancePayment_cases P env f env.caller f.getFee
          ("Deployment fee for " ++ StrategyType.debug .selfHedging ++ " strategy") with
        ⟨h1, h2, h3, heq⟩ | ⟨hn, e, heq⟩
      · rw [heq]
        exact Or.inr ⟨⟨hv, hty, h1, h2, h3⟩, rfl⟩
      · rw [heq]
        exact Or.inl ⟨fun h => hn ⟨h.one_le_fee, h.fee_le, h.covered⟩, _, rfl⟩
    · have hgate : ((getEmbeddedWasmModule config.getStrategyType).isNone ||
          decide (config.getStrategyType ≠ .selfHedging)) = true := by
        rw [decide_eq_true hty, Bool.or_true]
      simp only [hgate, if_true]
      exact Or.inl ⟨fun h => hty h.strategyType_eq, _, rfl⟩

/-- A request that does not pass the checks changes nothing. One that does has paid its fee before
its configuration is serialized. -/
theorem createStrategyRequest_cases (P : Platform) (env : Env) (f : Factory) (config : Config) :
    (¬Chargeable env f config ∧
      ∃ message, createStrategyRequest P env f config = (.error message, f)) ∨
    Chargeable env f config ∧
      ((∃ e message, P.encodeOne config = .error e ∧ createStrategyRequest P env f config =
          (.error message, ((charged P env f).generateDeploymentId env).2)) ∨
        ∃ configData, P.encodeOne config = .ok configData ∧
          createStrategyRequest P env f config =
            (.ok ⟨(f.generateDeploymentId env).1, f.deploymentFee, .selfHedging⟩,
              ((charged P env f).generateDeploymentId env).2.storeDeploymentRecord
                (newRecord env f configData))) := by
  rw [createStrategyRequest_eq]
  rcases identifyRequest_cases P env f config with ⟨hn, message, heq⟩ | ⟨hc, heq⟩
  · rw [heq]
    exact Or.inl ⟨hn, message, rfl⟩
  · rw [heq]
    refine Or.inr ⟨hc, ?_⟩
    simp only [recordRequest, createDeploymentRecord, hc.strategyType_eq]
    cases P.encodeOne config with
    | error e => exact Or.inl ⟨e, _, rfl, rfl⟩
    | ok configData => exact Or.inr ⟨configData, rfl, rfl⟩

/-- How a request ends. -/
theorem requestStrategy_outcome (P : Platform) (env : Env) (f : Factory) (config : Config) :
    RequestOutcome P env f config (Api.requestStrategy P env f config) := by
  unfold Api.requestStrategy
  split_ifs with hcaller
  · exact .refused _ fun h => h.caller_ne hcaller
  · rcases createStrategyRequest_cases P env f config with ⟨hn, message, heq⟩ | ⟨hc, hcases⟩
    · rw [heq]
      exact .refused message fun h => hn h.chargeable
    · have hpass : Passes env f config := ⟨hcaller, hc.1, hc.2, hc.3, hc.4, hc.5⟩
      have hposts : Posts P env f [feeOf P env f] (charged P env f) :=
        Posts.debit f env.caller f.deploymentFee .deploymentFee _ hc.covered rfl
      rcases hcases with ⟨e, message, hencode, heq⟩ | ⟨configData, hencode, heq⟩
      · rw [heq]
        exact .unserialized message e _ hpass hencode
          (hposts.then_idle (fun _ => rfl) (fun _ => rfl) rfl) (fun _ => rfl)
          ⟨rfl, rfl, rfl, rfl, rfl⟩
      · rw [heq]
        exact .accepted configData _ hpass hencode
          (hposts.then_idle (fun _ => rfl) (fun _ => rfl) rfl)
          (fun id => Factory.getDeploymentRecord_storeDeploymentRecord _ _ id)
          ⟨rfl, rfl, rfl, rfl, rfl⟩

end Deployment

end HunterFi
