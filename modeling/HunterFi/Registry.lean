import HunterFi.Money

/-!
# The registry

A strategy is stored in two places, by its canister and in the list of its owner, and its
deployment names it. `Coherent` says that the three agree. They are written in the last segment of
an execution, which may run several times for one record, each time for a canister of its own.

A deployment id names its owner (`Stamped`), so the record that an execution read at its start and
the one it finds at its end have the same owner. `Enrols` says what a segment does to the registry.

The invariant is `Registered`, together with this : the canisters of the executions that wait and
of the stored strategies (`World.canisters`) are pairwise different, as long as `create_canister`
returns no id twice.
-/

set_option linter.unusedSectionVars false

namespace HunterFi

/-! ## Coherence -/

namespace Factory

/-- The canisters in the list of an owner. -/
def strategiesOf (f : Factory) (o : Principal) : List Principal :=
  f.ownerStrategies.listed o

/-- A deployed record names a stored strategy of its owner and type, and the strategies are listed
under their owners, each once and under no one else. -/
structure Coherent (f : Factory) : Prop where
  deployed : ∀ id r, f.getDeploymentRecord id = some r → r.status = .deployed →
    ∃ c m, r.canisterId = some c ∧ f.getStrategyMetadata c = some m ∧ m.owner = r.owner ∧
      m.strategyType = r.strategyType
  once : ∀ o c, (f.strategiesOf o).count c = 1 ↔
    ∃ m, f.getStrategyMetadata c = some m ∧ m.owner = o
  only : ∀ o c, c ∈ f.strategiesOf o → ∃ m, f.getStrategyMetadata c = some m ∧ m.owner = o

/-- The deployed records name stored strategies. -/
def Named (f : Factory) : Prop :=
  ∀ id r, f.getDeploymentRecord id = some r → r.status = .deployed →
    ∃ c m, r.canisterId = some c ∧ f.getStrategyMetadata c = some m ∧ m.owner = r.owner ∧
      m.strategyType = r.strategyType

/-- The lists of the owners are an index of the strategies. -/
def Indexed (f : Factory) : Prop :=
  KeyedMap.Indexes StrategyMetadata.owner f.strategies f.ownerStrategies

theorem coherent_of_indexed {f : Factory} (hn : f.Named) (hi : f.Indexed) : f.Coherent :=
  ⟨hn, fun _ _ => hi.count_eq_one_iff, fun _ _ => hi.of_mem⟩

end Factory

/-! ## Ids and owners -/

/-- The id was made for `owner`. -/
def Stamped (id : String) (owner : Principal) : Prop :=
  ∃ time k, id = stampId time owner (toString (k : ℕ))

/-- A deployment id names its owner. -/
theorem Stamped.unique {id : String} {o o' : Principal} (h : Stamped id o) (h' : Stamped id o') :
    o = o' := by
  obtain ⟨time, k, rfl⟩ := h
  obtain ⟨time', k', heq⟩ := h'
  obtain rfl := counter_of_stampId heq
  exact (stampId_inj heq).2

/-! ## What a segment does to the registry -/

/-- The canister of an execution that waits. -/
def Stage.canister : Stage → Option Principal
  | .createCanister => none
  | .installCode canisterId => some canisterId
  | .initStrategy call => some call.canisterId

/-- The canister that a call of `create_canister` returned. -/
def CallResult.canister : CallResult Principal → Option Principal
  | .ok canisterId => some canisterId
  | .error _ _ => none

/-- A segment of an execution for `owner` that has been given a canister, or none yet : it leaves
the registry and stores no deployed record, or it stores the strategy with a deployed record. -/
inductive Enrols (P : Platform) (env : Env) (f : Factory) (id : String) (owner : Principal)
    (given : Option Principal) : Progress × Factory → Prop
  | keeps (p : Progress) (g : Factory) (registry : SameRegistry f g)
    (records : ∀ id' r', g.getDeploymentRecord id' = some r' →
      f.getDeploymentRecord id' = some r' ∨ r'.status ≠ .deployed ∧
        ∃ r, f.getDeploymentRecord id' = some r ∧ r'.Follows r)
    (waiting : ∀ record stage, p = .awaiting record stage →
      record.owner = owner ∧ stage.canister = given) :
    Enrols P env f id owner given (p, g)
  | enrols (r r' : DeploymentRecord) (m : StrategyMetadata)
    (result : Except String DeploymentResult) (g : Factory)
    (hr : f.getDeploymentRecord id = some r) (stored : given = some m.canisterId)
    (owner_eq : m.owner = owner) (strategyType : m.strategyType = r.strategyType)
    (follows : r'.Follows r) (canister : r'.canisterId = some m.canisterId)
    (writes : Writes P env (f.storeStrategyMetadata m) r' [] g) :
    Enrols P env f id owner given (.returned result, g)

namespace Deployment

variable {P : Platform} {env : Env} {f g : Factory} {id : String} {record : DeploymentRecord}
  {p : Progress × Factory} {owner : Principal} {given : Option Principal} {stage : Stage}

/-- What a segment writes that stores a record and leaves the registry. -/
theorem enrols_of_writes {r r' : DeploymentRecord} {rs : List TransactionRecord} {q : Progress}
    (hr : f.getDeploymentRecord id = some r) (follows : r'.Follows r)
    (writes : Writes P env f r' rs g) (status : g = f ∨ r'.status ≠ .deployed)
    (waiting : ∀ record stage, q = .awaiting record stage →
      record.owner = owner ∧ stage.canister = given) : Enrols P env f id owner given (q, g) := by
  refine .keeps q g writes.registry (fun id' x hx => ?_) waiting
  rcases status with rfl | status
  · exact Or.inl hx
  · rw [writes.record] at hx
    split_ifs at hx with hid
    · obtain rfl := Option.some.inj hx
      refine Or.inr ⟨status, r, ?_, follows⟩
      rw [hid, follows.deploymentId, Factory.deploymentId_of_getDeploymentRecord hr, hr]
    · exact Or.inl hx

/-- A segment before the last answer, by what it does when it goes on to wait. -/
theorem Outcome.enrols {ends : Prop} {left : ℕ} (h : Outcome P env f id ends left p)
    (hleft : 1 < left) (hwaits : ∀ record stage, p.1 = .awaiting record stage →
      (record.owner = owner ∧ stage.canister = given) ∧
        (p.2 = f ∨ ∀ r', p.2.getDeploymentRecord id = some r' → r'.status ≠ .deployed)) :
    Enrols P env f id owner given p := by
  cases h with
  | lost message hr =>
    exact .keeps _ f (.refl f) (fun _ _ => Or.inl) fun _ _ h => (nomatch h)
  | waits r r' record stage g hr hends follows status writes =>
    obtain ⟨hnew, hdeployed⟩ := hwaits record stage rfl
    have hget := writes.get_self
    rw [follows.deploymentId, Factory.deploymentId_of_getDeploymentRecord hr] at hget
    refine enrols_of_writes hr follows writes (hdeployed.imp_right fun h => h r' hget) ?_
    rintro _ _ ⟨⟩
    exact hnew
  | failed r r' message g hr hends follows status writes =>
    exact enrols_of_writes hr follows writes (Or.inr (by simp [status])) fun _ _ h => (nomatch h)
  | deployed r r' metadata canisterId g hr hends follows status _ _ writes last =>
    exact absurd last (Nat.not_le.2 hleft)

/-- What `execute_deployment` waits with. -/
theorem executeDeployment_awaits
    (h : (executeDeployment P env f id).1 = .awaiting record stage) :
    f.getDeploymentRecord id = some record ∧ stage = .createCanister ∧
      (executeDeployment P env f id).2 = f := by
  unfold executeDeployment at h ⊢
  cases hr : f.getDeploymentRecord id with
  | none => simp [hr] at h
  | some r =>
    simp only [hr] at h ⊢
    split_ifs at h ⊢ with hc
    · cases h
    · cases h
      exact ⟨rfl, rfl, rfl⟩

theorem executeDeployment_enrols (hf : f.Sound)
    (howner : ∀ r, f.getDeploymentRecord id = some r → r.owner = owner) :
    Enrols P env f id owner none (executeDeployment P env f id) := by
  refine (executeDeployment_outcome hf).enrols (by decide) fun record stage h => ?_
  obtain ⟨hr, rfl, hsame⟩ := executeDeployment_awaits h
  exact ⟨⟨howner record hr, rfl⟩, Or.inl hsame⟩

/-- The status that `update_deployment_status` has stored. -/
theorem status_of_withStatus {r r' : DeploymentRecord} (hr : f.getDeploymentRecord id = some r)
    {time : ℕ} {status : DeploymentStatus} {canisterId : Option Principal}
    {errorMessage : Option String}
    (hr' : (f.storeDeploymentRecord (r.withStatus time status canisterId
      errorMessage)).getDeploymentRecord id = some r') : r'.status = status := by
  have hid := Factory.deploymentId_of_getDeploymentRecord hr
  rw [Factory.getDeploymentRecord_storeDeploymentRecord, if_pos (show id =
    (r.withStatus time status canisterId errorMessage).deploymentId from hid.symm)] at hr'
  obtain rfl := Option.some.inj hr'
  rfl

theorem afterCreateCanister_enrols (hf : f.Sound) (hty : record.strategyType = .selfHedging)
    (result : CallResult Principal) : Enrols P env f id record.owner result.canister
      (afterCreateCanister P env f id record result) := by
  refine (afterCreateCanister_outcome hf hty result).enrols (by decide) fun record' stage h => ?_
  unfold afterCreateCanister at h ⊢
  cases result with
  | error code message => cases h
  | ok canisterId =>
    cases hr : f.getDeploymentRecord id with
    | none =>
      simp only [updateDeploymentStatus_none hr] at h
      cases h
    | some r =>
      simp only [updateDeploymentStatus_some hr, hty, getEmbeddedWasmModule, ne_eq,
        not_true_eq_false, if_false] at h ⊢
      cases h
      refine ⟨⟨rfl, rfl⟩, Or.inr fun r' hr' => ?_⟩
      rw [status_of_withStatus hr hr']
      decide

theorem afterInstallCode_enrols (hf : f.Sound) (hty : record.strategyType = .selfHedging)
    (canisterId : Principal) (result : CallResult Unit) :
    Enrols P env f id record.owner (some canisterId)
      (afterInstallCode P env f id record canisterId result) := by
  refine (afterInstallCode_outcome hf hty canisterId result).enrols (by decide)
    fun record' stage h => ?_
  unfold afterInstallCode at h ⊢
  cases result with
  | error code message => cases h
  | ok _ =>
    cases hr : f.getDeploymentRecord id with
    | none =>
      simp only [updateDeploymentStatus_none hr] at h
      cases h
    | some r =>
      simp only [updateDeploymentStatus_some hr, initializeStrategy, hty] at h ⊢
      cases hd : P.decodeSelfHedging record.configData with
      | error e =>
        simp only [hd] at h
        cases h
      | ok config =>
        simp only [hd] at h ⊢
        cases h
        refine ⟨⟨rfl, rfl⟩, Or.inr fun r' hr' => ?_⟩
        rw [status_of_withStatus hr hr']
        decide

theorem afterInitStrategy_enrols (hf : f.Sound) (hty : record.strategyType = .selfHedging)
    (canisterId : Principal) (result : CallResult Unit) :
    Enrols P env f id record.owner (some canisterId)
      (afterInitStrategy P env f id record canisterId result) := by
  have ho : InitOutcome P env f id record canisterId result
      (afterInitStrategy P env f id record canisterId result) :=
    afterInitStrategy_initOutcome hf hty canisterId result
  generalize afterInitStrategy P env f id record canisterId result = p at ho
  cases ho with
  | lost message hr =>
    exact .keeps _ f (.refl f) (fun _ _ => Or.inl) fun _ _ h => (nomatch h)
  | failed r r' message g hr hends follows status writes =>
    exact enrols_of_writes hr follows writes (Or.inr (by simp [status])) fun _ _ h => (nomatch h)
  | deployed r r' m g hr hgo metadata follows status canister writes =>
    obtain ⟨hstored, howner, htype⟩ := createStrategyMetadata_eq_ok hty metadata
    exact .enrols r r' m _ g hr (congrArg some hstored.symm) howner
      (htype.trans (hty.trans (hf id r hr).strategyType_eq.symm)) follows
      (hstored.symm ▸ canister) writes

end Deployment

/-! ## The registry along a step -/

/-- The canisters that a step is given. -/
def Event.created : Event → List Principal
  | .canisterCreated _ _ _ result => result.canister.toList
  | _ => []

namespace World

open Deployment

variable {P : Platform} {L : LedgerRule} {w w' : World} {env : Env} {spawned : Bool} {id : String}
  {p : Progress × Factory} {e : Event} {owner : Principal} {given : Option Principal}

/-- The canisters of the stored strategies. -/
def strategyCanisters (f : Factory) : List Principal :=
  f.strategies.vals.map StrategyMetadata.canisterId

/-- The canisters of the executions that wait and of the stored strategies. -/
def canisters (w : World) : List Principal :=
  w.tasks.filterMap (fun t => t.stage.canister) ++ strategyCanisters w.factory

/-- The records and the lists of the owners agree with the strategies, and ids name owners. -/
structure Registered (w : World) : Prop where
  named : w.factory.Named
  indexed : w.factory.Indexed
  records : ∀ id r, w.factory.getDeploymentRecord id = some r → Stamped id r.owner
  tasks : ∀ t ∈ w.tasks, Stamped t.deploymentId t.record.owner

theorem registered_start (env : Env) (ledger : Ledger) : (start env ledger).Registered where
  named := fun _ _ hr => by cases hr
  indexed := KeyedMap.indexes_empty
  records := fun _ _ hr => by cases hr
  tasks := fun _ ht => absurd ht List.not_mem_nil

/-- A step that keeps the strategies and stores no deployed record. -/
theorem Registered.keeps (h : w.Registered) (w' : World) (tasks : w'.tasks = w.tasks)
    (strategies : w'.factory.strategies.vals.Perm w.factory.strategies.vals)
    (ownerStrategies : w'.factory.ownerStrategies = w.factory.ownerStrategies)
    (records : ∀ id r, w'.factory.getDeploymentRecord id = some r →
      w.factory.getDeploymentRecord id = some r ∨ r.status ≠ .deployed ∧ Stamped id r.owner) :
    w'.Registered ∧ w'.canisters.Perm w.canisters := by
  have hget : ∀ c, w'.factory.getStrategyMetadata c = w.factory.getStrategyMetadata c :=
    KeyedMap.get?_eq_of_vals_perm strategies
  refine ⟨⟨fun id r hr hs => ?_, ?_, fun id r hr => ?_, fun t ht => h.tasks t (tasks ▸ ht)⟩, ?_⟩
  · rcases records id r hr with hr | ⟨hne, -⟩
    · simp only [hget]
      exact h.named id r hr hs
    · exact absurd hs hne
  · rw [Factory.Indexed, ownerStrategies]
    exact h.indexed.congr hget
  · rcases records id r hr with hr | ⟨-, hst⟩
    · exact h.records id r hr
    · exact hst
  · rw [canisters, canisters, tasks]
    exact (strategies.map _).append_left _

/-- A strategy under a canister that stores none, with a later state of its deployment. -/
theorem Registered.enrols {r r' : DeploymentRecord} {m : StrategyMetadata} {g : Factory}
    (h : w.Registered) (hnew : m.canisterId ∉ w.canisters)
    (hr : w.factory.getDeploymentRecord id = some r) (ho : m.owner = r.owner)
    (ht : m.strategyType = r.strategyType) (follows : r'.Follows r)
    (canister : r'.canisterId = some m.canisterId)
    (writes : Writes P env (w.factory.storeStrategyMetadata m) r' [] g) :
    ({ w with factory := g } : World).Registered ∧
      ({ w with factory := g } : World).canisters.Perm (m.canisterId :: w.canisters) := by
  have hfree : w.factory.strategies.get? m.canisterId = none := by
    refine KeyedMap.get?_eq_none.2 fun v hv hvm => hnew ?_
    exact List.mem_append_right _ (hvm ▸ List.mem_map_of_mem hv)
  have hstrategies : g.strategies = w.factory.strategies.insert m := writes.registry.strategies
  have hlists : g.ownerStrategies = w.factory.ownerStrategies.list m.owner m.canisterId :=
    writes.registry.ownerStrategies
  have hrecord : ∀ id', g.getDeploymentRecord id' =
      if id' = r'.deploymentId then some r' else w.factory.getDeploymentRecord id' := writes.record
  have hid : r'.deploymentId = id :=
    follows.deploymentId.trans (Factory.deploymentId_of_getDeploymentRecord hr)
  refine ⟨⟨fun id' x hx hs => ?_, ?_, fun id' x hx => ?_, h.tasks⟩, ?_⟩
  · replace hx := (hrecord id').symm.trans hx
    show ∃ c m', x.canisterId = some c ∧ g.strategies.get? c = some m' ∧ _
    rw [hstrategies]
    split_ifs at hx
    · obtain rfl := Option.some.inj hx
      exact ⟨m.canisterId, m, canister, KeyedMap.get?_insert_self _ m, ho.trans follows.owner.symm,
        ht.trans follows.strategyType.symm⟩
    · obtain ⟨c, m', hc, hm', hrest⟩ := h.named id' x hx hs
      have hne : c ≠ m.canisterId := by
        rintro rfl
        exact Option.some_ne_none m' (hm'.symm.trans hfree)
      exact ⟨c, m', hc, (KeyedMap.get?_insert _ m c).trans ((if_neg hne).trans hm'), hrest⟩
  · show KeyedMap.Indexes _ g.strategies g.ownerStrategies
    rw [hstrategies, hlists]
    exact h.indexed.insert hfree
  · replace hx := (hrecord id').symm.trans hx
    split_ifs at hx with heq
    · obtain rfl := Option.some.inj hx
      rw [heq, hid, follows.owner]
      exact h.records id r hr
    · exact h.records id' x hx
  · have hvals : g.strategies.vals = m :: w.factory.strategies.vals := by
      rw [hstrategies, KeyedMap.vals_insert_of_get?_eq_none hfree]
    rw [canisters, strategyCanisters, hvals]
    exact List.perm_middle

/-- What a segment leaves waiting holds the canister it has been given. -/
theorem canisters_waiting {q : Progress} {caller : Principal}
    (waiting : ∀ record stage, q = .awaiting record stage →
      record.owner = owner ∧ stage.canister = given) :
    ((q.waiting spawned caller id).filterMap fun t => t.stage.canister).Sublist given.toList := by
  cases q with
  | returned result => exact List.nil_sublist _
  | awaiting record stage =>
    obtain ⟨-, hst⟩ := waiting record stage rfl
    rw [Progress.waiting, List.filterMap_cons, hst]
    cases given <;> exact List.Sublist.refl _

/-- A segment of an execution for `owner`, which waits with the canister it has been given. -/
theorem Registered.resume {ends : Prop} {left : ℕ} (spawned : Bool) (h : w.Registered)
    (ho : Outcome P env w.factory id ends left p) (he : Enrols P env w.factory id owner given p)
    (hid : Stamped id owner) (hnew : (given.toList ++ w.canisters).Nodup) :
    (w.resume P env spawned id p).Registered ∧
      (w.resume P env spawned id p).canisters.Subperm (given.toList ++ w.canisters) := by
  have hf := factory_resume (w := w) spawned ho
  have htasks : (w.resume P env spawned id p).tasks =
      p.1.waiting spawned env.caller id ++ w.tasks := tasks_resume
  cases he with
  | keeps q g registry records waiting =>
    obtain ⟨hr, hp⟩ := h.keeps { w with factory := g } rfl
      (registry.strategies ▸ List.Perm.refl _) registry.ownerStrategies fun id' r' hr' => by
        refine (records id' r' hr').imp_right (And.imp_right ?_)
        rintro ⟨r, hr, follows⟩
        exact follows.owner ▸ h.records id' r hr
    refine ⟨⟨hf ▸ hr.named, hf ▸ hr.indexed, hf ▸ hr.records, fun t ht => ?_⟩, ?_⟩
    · rcases List.mem_append.1 (htasks ▸ ht) with ht | ht
      · cases q with
        | returned result => cases ht
        | awaiting record stage =>
          obtain rfl := List.mem_singleton.1 ht
          exact (waiting record stage rfl).1 ▸ hid
      · exact h.tasks t ht
    · rw [canisters, htasks, hf, List.filterMap_append, List.append_assoc]
      exact ((canisters_waiting waiting).subperm).append hp.subperm
  | enrols r r' m result g hr stored owner_eq strategyType follows canister writes =>
    subst stored
    obtain ⟨hnot, -⟩ := List.nodup_cons.1 hnew
    have howner : m.owner = r.owner := owner_eq.trans (hid.unique (h.records id r hr))
    obtain ⟨hr', hp⟩ := h.enrols hnot hr howner strategyType follows canister writes
    refine ⟨⟨hf ▸ hr'.named, hf ▸ hr'.indexed, hf ▸ hr'.records, ?_⟩, ?_⟩
    · rw [htasks]
      exact h.tasks
    · rw [canisters, htasks, hf]
      exact hp.subperm

/-- An execution that waited goes on, with a new canister or the one it held. -/
theorem Registered.continued {ends : Prop} {left : ℕ} {task : Task} {created : List Principal}
    (h : w.Registered) (mem : task ∈ w.tasks)
    (ho : Outcome P env w.factory task.deploymentId ends left p)
    (he : Enrols P env w.factory task.deploymentId task.record.owner given p)
    (hgiven : given.toList = created ++ task.stage.canister.toList)
    (hnew : (created ++ w.canisters).Nodup) :
    (World.resume { w with tasks := w.tasks.erase task } P env task.spawned task.deploymentId
        p).Registered ∧
      (World.resume { w with tasks := w.tasks.erase task } P env task.spawned task.deploymentId
        p).canisters.Subperm (created ++ w.canisters) := by
  have hrest : ({ w with tasks := w.tasks.erase task } : World).Registered :=
    ⟨h.named, h.indexed, h.records, fun t ht => h.tasks t (List.mem_of_mem_erase ht)⟩
  -- the canister of the execution is taken out of those held and handed back to it
  have hheld : w.canisters.Perm (task.stage.canister.toList ++
      ({ w with tasks := w.tasks.erase task } : World).canisters) := by
    have hp := (List.perm_cons_erase mem).filterMap fun t => t.stage.canister
    rw [canisters, canisters, ← List.append_assoc]
    refine List.Perm.append_right _ (hp.trans ?_)
    rw [List.filterMap_cons]
    cases task.stage.canister <;> exact List.Perm.refl _
  have hp : (given.toList ++ ({ w with tasks := w.tasks.erase task } : World).canisters).Perm
      (created ++ w.canisters) := by
    rw [hgiven, List.append_assoc]
    exact hheld.symm.append_left created
  obtain ⟨hr, hsub⟩ := hrest.resume task.spawned ho he (h.tasks task mem)
    (hp.nodup_iff.2 hnew)
  exact ⟨hr, hsub.trans hp.subperm⟩

/-- A request, with the first segment of its deployment. -/
theorem Registered.requestStrategy (h : w.Registered) (hs : w.Sound) (hnodup : w.canisters.Nodup)
    (P : Platform) (env : Env) (config : Config) : (w.requestStrategy P env config).Registered ∧
      (w.requestStrategy P env config).canisters.Subperm w.canisters := by
  have hr := requestStrategy_requested hs P env config
  generalize w.requestStrategy P env config = w' at hr
  cases hr with
  | refused hn => exact ⟨⟨h.named, h.indexed, h.records, h.tasks⟩, List.Subperm.refl _⟩
  | unserialized e' g hp encode posts records registry =>
    refine (h.keeps (w.withFactory g) rfl (registry.strategies ▸ List.Perm.refl _)
      registry.ownerStrategies fun id r hr => Or.inl ?_).imp_right List.Perm.subperm
    exact records id ▸ hr
  | accepted configData g hp encode posts records registry hg outcome =>
    obtain ⟨hr, hperm⟩ := h.keeps (w.accept env g) rfl
      (registry.strategies ▸ List.Perm.refl _) registry.ownerStrategies fun id r hr => by
        replace hr := (records id).symm.trans hr
        split_ifs at hr with hid
        · obtain rfl := Option.some.inj hr
          exact Or.inr ⟨by simp [newRecord], hid ▸ ⟨env.time, w.factory.deploymentIdCounter, rfl⟩⟩
        · exact Or.inl hr
    have howner : ∀ r, g.getDeploymentRecord (w.factory.generateDeploymentId env).1 = some r →
        r.owner = env.caller := by
      intro r hr
      obtain rfl := Option.some.inj (((records _).trans (if_pos rfl)).symm.trans hr)
      rfl
    obtain ⟨hr', hsub⟩ := hr.resume true outcome
      (executeDeployment_enrols hg howner) ⟨env.time, w.factory.deploymentIdCounter, rfl⟩
      (hperm.nodup_iff.2 hnodup)
    exact ⟨hr', hsub.trans hperm.subperm⟩

/-- An execution that an admin forces. -/
theorem Registered.forced (h : w.Registered) (hs : w.Sound) (hnodup : w.canisters.Nodup)
    (P : Platform) (env : Env) (id : String) :
    (w.resume P env false id (executeDeployment P env w.factory id)).Registered ∧
      (w.resume P env false id (executeDeployment P env w.factory id)).canisters.Subperm
        w.canisters := by
  cases hr : w.factory.getDeploymentRecord id with
  | none =>
    have hlost : executeDeployment P env w.factory id = (.returned (.error
        (DeploymentError.recordNotFound ("Deployment record not found for ID: " ++ id)).text),
          w.factory) := by
      rw [executeDeployment, hr]
    rw [hlost]
    exact ⟨⟨h.named, h.indexed, h.records, h.tasks⟩, List.Subperm.refl _⟩
  | some r =>
    refine h.resume false (executeDeployment_outcome hs.records)
      (executeDeployment_enrols hs.records fun r' hr' => ?_) (h.records id r hr) hnodup
    rw [Option.some.inj (hr'.symm.trans hr)]

/-- A step in which no execution runs. -/
theorem Deploys.registered (hd : Deploys P w e w') (h : w.Registered) (he : w.executes e = none)
    (hreq : ∀ env config, e ≠ .requestStrategy env config) :
    w'.Registered ∧ w'.canisters.Perm w.canisters := by
  cases hd with
  | still e w' env rs pays norefund tasks requests returned ended executes =>
    exact h.keeps w' tasks (pays.strategies ▸ List.Perm.refl _) pays.ownerStrategies
      fun id r hr => Or.inl (pays.record id ▸ hr)
  | cleans time cycles g archives =>
    refine h.keeps (w.withFactory g) rfl (archives.registry.strategies ▸ List.Perm.refl _)
      archives.registry.ownerStrategies fun id r hr => Or.inl ?_
    rcases archives.record id with heq | ⟨hnone, -⟩
    · exact heq ▸ hr
    · cases hnone.symm.trans hr
  | upgrades tasks =>
    exact h.keeps (w.withFactory w.factory.upgrade) rfl w.factory.strategies_upgrade rfl
      fun id r hr => by cases hr
  | unserialized env config g passes posts records registry => exact absurd rfl (hreq env config)
  | requested env config configData g p passes posts records registry outcome =>
    exact absurd rfl (hreq env config)
  | forced env id p executes outcome => cases he.symm.trans executes
  | continued e task time cycles p mem executes outcome => cases he.symm.trans executes

/-- A step keeps the registry, if it is given no canister that is held already. -/
theorem step_registered (hs : w.Sound) (h : w.Registered)
    (hnew : (e.created ++ w.canisters).Nodup) (ht : step P L w e = some w') :
    w'.Registered ∧ w'.canisters.Subperm (e.created ++ w.canisters) := by
  have hd : Deploys P w e w' := step_deploys hs ht
  unfold step at ht
  split_ifs at ht
  cases e with
  | requestStrategy env config =>
    obtain rfl := Option.some.inj ht
    exact h.requestStrategy hs hnew P env config
  | forceExecuteDeployment env id =>
    rcases next_forceExecuteDeployment ht with ⟨-, rfl⟩ | ⟨-, rfl⟩
    · exact ⟨⟨h.named, h.indexed, h.records, h.tasks⟩, List.Subperm.refl _⟩
    · exact h.forced hs hnew P env id
  | canisterCreated task time cycles result =>
    obtain ⟨mem, hst, rfl⟩ := next_canisterCreated ht
    have hty : task.record.strategyType = .selfHedging := hs.tasks task mem
    refine h.continued mem (afterCreateCanister_outcome hs.records hty result)
      (afterCreateCanister_enrols hs.records hty result) ?_ hnew
    rw [hst]
    exact (List.append_nil _).symm
  | codeInstalled task time cycles result =>
    obtain ⟨canisterId, mem, hst, rfl⟩ := next_codeInstalled ht
    have hty : task.record.strategyType = .selfHedging := hs.tasks task mem
    refine h.continued mem (afterInstallCode_outcome hs.records hty canisterId result)
      (afterInstallCode_enrols hs.records hty canisterId result) ?_ hnew
    rw [hst]
    rfl
  | strategyInitialized task time cycles result =>
    obtain ⟨call, mem, hst, rfl⟩ := next_strategyInitialized ht
    have hty : task.record.strategyType = .selfHedging := hs.tasks task mem
    refine h.continued mem (afterInitStrategy_outcome hs.records hty call.canisterId result)
      (afterInitStrategy_enrols hs.records hty call.canisterId result) ?_ hnew
    rw [hst]
    rfl
  | _ => exact (hd.registered h rfl fun _ _ he => by cases he).imp_right List.Perm.subperm

/-! ## Runs -/

/-- In every reachable state the records, the strategies and the lists of the owners agree, if
`create_canister` returns no id twice. -/
theorem registry_coherent (P : Platform) (L : LedgerRule) (env : Env) (ledger : Ledger)
    (es : List Event) (hnew : (es.flatMap Event.created).Nodup) :
    Runs.Throughout (step P L) (fun w => w.factory.Coherent) (start env ledger) es := by
  refine (Runs.throughout_of_fresh (I := fun w => w.Sound ∧ w.Registered) Event.created
    canisters (fun w e w' h hnodup ht => ?_)
    ⟨sound_start env ledger, registered_start env ledger⟩ ?_).mono
    fun w h => Factory.coherent_of_indexed h.2.named h.2.indexed
  · obtain ⟨hr, hsub⟩ := step_registered h.1 h.2 hnodup ht
    exact ⟨⟨(step_deploys h.1 ht).sound h.1, hr⟩, hsub⟩
  · exact (List.append_nil _).symm ▸ hnew

/-- An execution that an admin forces while the one of the request waits, at a stage. -/
def forcedTask (stage : Stage) : Task :=
  { Sample.task stage with spawned := false, caller := Sample.admin }

/-- The canister of the forced execution. -/
def secondCanister : Principal :=
  ⟨[10], by decide⟩

/-- Two executions of one deployment, which both succeed. -/
def deploysTwice : List Event :=
  Sample.requested ++
    [.forceExecuteDeployment (Sample.message 3 Sample.admin) Sample.deploymentId,
      .canisterCreated (Sample.task .createCanister) 4 0 (.ok Sample.canister),
      .canisterCreated (forcedTask .createCanister) 5 0 (.ok secondCanister),
      .codeInstalled (forcedTask (.installCode secondCanister)) 6 0 (.ok ()),
      .codeInstalled (Sample.task (.installCode Sample.canister)) 7 0 (.ok ()),
      .strategyInitialized (forcedTask (.initStrategy ⟨secondCanister, "init_self_hedging",
        Sample.user, .selfHedging Sample.config⟩)) 8 0 (.ok ()),
      .strategyInitialized (Sample.task (.initStrategy ⟨Sample.canister, "init_self_hedging",
        Sample.user, .selfHedging Sample.config⟩)) 9 0 (.ok ())]

/-- They end with two strategies of the owner, and a record that names the later one. -/
theorem registry_coherent_deploysTwice : ∃ w,
    Runs.run Sample.step Sample.world deploysTwice = some w ∧ w.factory.Coherent ∧
      w.factory.strategiesOf Sample.user = [secondCanister, Sample.canister] ∧
      (w.factory.getDeploymentRecord Sample.deploymentId).map (fun r => (r.status, r.canisterId)) =
        some (.deployed, some Sample.canister) := by
  have hend : (Runs.run Sample.step Sample.world deploysTwice).any (fun w =>
      decide (w.factory.strategiesOf Sample.user = [secondCanister, Sample.canister]) &&
        decide ((w.factory.getDeploymentRecord Sample.deploymentId).map
          (fun r => (r.status, r.canisterId)) = some (.deployed, some Sample.canister))) =
      true := by
    decide +kernel
  obtain ⟨w, hrun, hw⟩ := (Option.any_eq_true _ _).1 hend
  obtain ⟨hlist, hrecord⟩ := Bool.and_eq_true_iff.1 hw
  have h := (registry_coherent Sample.platform icrc1Transfer (Sample.message 0 Sample.admin)
    Sample.ledger deploysTwice (by decide)).last hrun
  exact ⟨w, hrun, h, of_decide_eq_true hlist, of_decide_eq_true hrecord⟩

end World

end HunterFi
