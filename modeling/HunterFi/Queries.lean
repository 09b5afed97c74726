import HunterFi.Registry

/-!
# What the queries show

The query methods of `api.rs`. The strategies of an owner are looked up through the list of the
owner, and all strategies are read from the map. A caller who is no admin is refused or gets an
empty answer for what is not theirs, but for a strategy whose canister they name.

`queries_agree` : in every reachable state these ways agree, nothing of the caller's is hidden and
the lists show nothing of another's. It rests on the index that the registry keeps
(`Registered`).
-/

set_option linter.unusedSectionVars false

namespace HunterFi

namespace Factory

/-- The bincode bytes of a principal. -/
def bincodePrincipal (p : Principal) : List UInt8 :=
  ((List.range 8).map fun i => UInt8.ofNat (p.bytes.length / 256 ^ i)) ++ p.bytes

/-- The strategies, in the order of the stable map. -/
def sortedStrategies (f : Factory) : List StrategyMetadata :=
  f.strategies.vals.mergeSort fun a b =>
    !decide (bincodePrincipal b.canisterId < bincodePrincipal a.canisterId)

/-- `get_deployment_records_by_owner`. -/
def getDeploymentRecordsByOwner (f : Factory) (owner : Principal) : List DeploymentRecord :=
  f.getAllDeploymentRecords.filter fun record => record.owner = owner

end Factory

namespace Api

/-! ## Queries -/

/-- `get_strategy_wasm`. -/
def getStrategyWasm (env : Env) (f : Factory) (strategyType : StrategyType) : Option WasmCode :=
  if f.isAdmin env then Deployment.getEmbeddedWasmModule strategyType else none

/-- `get_strategies_by_owner`. -/
def getStrategiesByOwner (env : Env) (f : Factory) (owner : Principal) : List StrategyMetadata :=
  if env.caller ≠ owner && !f.isAdmin env then []
  else
    match f.ownerStrategies.get? owner with
    | some (_, canisterIds) => canisterIds.filterMap f.getStrategyMetadata
    | none => []

/-- `get_all_strategies`, in the order of the stable map. -/
def getAllStrategies (env : Env) (f : Factory) : Except String (List StrategyMetadata) :=
  match f.requireAdmin env with
  | .error e => .error e
  | .ok () => .ok f.sortedStrategies

/-- `get_strategy`, which checks no caller. -/
def getStrategy (f : Factory) (canisterId : Principal) : Option StrategyMetadata :=
  f.getStrategyMetadata canisterId

/-- `get_strategy_count`. -/
def getStrategyCount (f : Factory) : ℕ :=
  f.strategies.vals.length

/-- `get_deployment_records`. -/
def getDeploymentRecords (env : Env) (f : Factory) : List DeploymentRecord :=
  if f.isAdmin env then f.getAllDeploymentRecords else []

/-- `get_my_deployment_records`. -/
def getMyDeploymentRecords (env : Env) (f : Factory) : List DeploymentRecord :=
  f.getDeploymentRecordsByOwner env.caller

/-- `get_deployment`. -/
def getDeployment (env : Env) (f : Factory) (deploymentId : String) : Option DeploymentRecord :=
  match f.getDeploymentRecord deploymentId with
  | none => none
  | some record => if record.owner = env.caller ∨ f.isAdmin env then some record else none

/-- `get_account_info`. -/
def getAccountInfo (env : Env) (f : Factory) : UserAccount :=
  f.getUserAccount env.caller

/-! ## What they show -/

/-- The caller is entitled to what belongs to `owner`. -/
def MaySee (env : Env) (f : Factory) (owner : Principal) : Prop :=
  env.caller = owner ∨ f.isAdmin env = true

/-- The queries show a caller what they may see, all of it and nothing else, and they agree with
each other. -/
structure Agrees (env : Env) (f : Factory) : Prop where
  /-- the list of an owner shows the strategies of this owner, each once -/
  byOwner : ∀ o, MaySee env f o →
    (getStrategiesByOwner env f o).Perm (f.strategies.vals.filter fun m => m.owner = o)
  hidden : ∀ o, ¬MaySee env f o → getStrategiesByOwner env f o = []
  /-- an admin reads all strategies, no one else does -/
  all : ∀ ms, getAllStrategies env f = .ok ms ↔ f.isAdmin env = true ∧ ms = f.sortedStrategies
  /-- anyone reads the strategy of a canister -/
  byId : ∀ c m, getStrategy f c = some m ↔ m ∈ f.sortedStrategies ∧ m.canisterId = c
  /-- an admin reads the code that a deployment installs -/
  wasm : ∀ ty code, getStrategyWasm env f ty = some code ↔
    f.isAdmin env = true ∧ Deployment.getEmbeddedWasmModule ty = some code
  count : f.sortedStrategies.Perm f.strategies.vals ∧
    f.sortedStrategies.length = getStrategyCount f
  deployment : ∀ id r, getDeployment env f id = some r ↔
    f.getDeploymentRecord id = some r ∧ MaySee env f r.owner
  /-- an admin reads all records, no one else does -/
  records : ∀ r, r ∈ getDeploymentRecords env f ↔
    f.isAdmin env = true ∧ f.getDeploymentRecord r.deploymentId = some r
  mine : ∀ r, r ∈ getMyDeploymentRecords env f ↔
    f.getDeploymentRecord r.deploymentId = some r ∧ r.owner = env.caller
  /-- the strategy of a deployed record is shown to its owner -/
  deployed : ∀ r ∈ getMyDeploymentRecords env f, r.status = .deployed →
    ∃ m ∈ getStrategiesByOwner env f env.caller, r.canisterId = some m.canisterId ∧
      m.strategyType = r.strategyType
  history : ∀ t ∈ getTransactionHistory f env.caller, t.user = env.caller
  account : (getAccountInfo env f).owner = env.caller

variable {env : Env} {f : Factory} {o : Principal}

/-- To an owner and to admins the strategies of the owner are shown, in their order. -/
theorem getStrategiesByOwner_of_maySee (h : MaySee env f o) :
    getStrategiesByOwner env f o = (f.strategiesOf o).filterMap f.getStrategyMetadata := by
  have hsee : (env.caller ≠ o && !f.isAdmin env) = false := by
    rcases h with h | h <;> simp [h]
  rw [getStrategiesByOwner, hsee, Factory.strategiesOf, KeyedMap.listed]
  cases f.ownerStrategies.get? o <;> rfl

/-- To others none. -/
theorem getStrategiesByOwner_of_not_maySee (h : ¬MaySee env f o) :
    getStrategiesByOwner env f o = [] := by
  obtain ⟨hcaller, hadmin⟩ := not_or.1 h
  exact if_pos (by simp [hcaller, hadmin])

/-- The sorted strategies are those that are stored. -/
theorem mem_sortedStrategies {m : StrategyMetadata} :
    m ∈ f.sortedStrategies ↔ f.getStrategyMetadata m.canisterId = some m := by
  rw [Factory.sortedStrategies, (List.mergeSort_perm _ _).mem_iff, KeyedMap.mem_vals]
  rfl

/-- A caller sees the stored records of the deployments they own. -/
theorem mem_getMyDeploymentRecords {r : DeploymentRecord} : r ∈ getMyDeploymentRecords env f ↔
    f.getDeploymentRecord r.deploymentId = some r ∧ r.owner = env.caller := by
  rw [getMyDeploymentRecords, Factory.getDeploymentRecordsByOwner, List.mem_filter,
    mem_getAllDeploymentRecords, KeyedMap.mem_vals, decide_eq_true_eq]
  rfl

theorem mem_getTransactionHistory {u : Principal} {t : TransactionRecord}
    (h : t ∈ getTransactionHistory f u) : t.user = u := by
  have hmem : t ∈ f.getUserTransactionRecords u := by
    unfold getTransactionHistory at h
    dsimp only at h
    split_ifs at h
    · exact List.mem_of_mem_take h
    · exact h
  exact of_decide_eq_true (List.mem_filter.1 hmem).2

/-- Where the registry is coherent the queries agree. -/
theorem agrees_of_registry (hn : f.Named) (hi : f.Indexed) : Agrees env f where
  byOwner o h := by
    rw [getStrategiesByOwner_of_maySee h]
    exact hi.lookup_perm o
  hidden o h := getStrategiesByOwner_of_not_maySee h
  all ms := by
    unfold getAllStrategies Factory.requireAdmin
    cases f.isAdmin env <;> simp [eq_comm]
  byId c m := by
    rw [mem_sortedStrategies]
    constructor
    · intro h
      obtain rfl := KeyedMap.key_of_get? h
      exact ⟨h, rfl⟩
    · rintro ⟨h, rfl⟩
      exact h
  wasm ty code := by
    unfold getStrategyWasm
    cases f.isAdmin env <;> simp
  count := ⟨List.mergeSort_perm _ _, List.length_mergeSort _⟩
  deployment id r := by
    unfold getDeployment
    cases hr : f.getDeploymentRecord id with
    | none => simp
    | some r' =>
      dsimp only
      split_ifs with h
      · exact ⟨fun heq => ⟨heq, Option.some.inj heq ▸ h.imp_left Eq.symm⟩, fun heq => heq.1⟩
      · refine iff_of_false nofun ?_
        rintro ⟨⟨⟩, hsee⟩
        exact h (hsee.imp_left Eq.symm)
  records r := by
    unfold getDeploymentRecords
    split_ifs with h
    · rw [mem_getAllDeploymentRecords, KeyedMap.mem_vals]
      exact (and_iff_right h).symm
    · simp [h]
  mine r := mem_getMyDeploymentRecords
  deployed r hr hs := by
    obtain ⟨hstored, howner⟩ := mem_getMyDeploymentRecords.1 hr
    obtain ⟨c, m, hc, hm, hmo, hmt⟩ := hn _ r hstored hs
    refine ⟨m, ?_, ?_, hmt⟩
    · rw [getStrategiesByOwner_of_maySee (Or.inl rfl)]
      refine (hi.lookup_perm env.caller).mem_iff.2 (List.mem_filter.2 ⟨KeyedMap.mem_of_get? hm, ?_⟩)
      exact decide_eq_true (hmo.trans howner)
    · rw [hc, ← KeyedMap.key_of_get? hm]
  history t h := mem_getTransactionHistory h
  account := by
    rw [getAccountInfo, Factory.getUserAccount]
    cases h : f.userAccounts.get? env.caller with
    | none => rfl
    | some a => exact KeyedMap.key_of_get? h

end Api

namespace World

/-- In every reachable state the queries show each caller what they may see, all of it and nothing
else, if `create_canister` returns no id twice. -/
theorem queries_agree (P : Platform) (L : LedgerRule) (env : Env) (ledger : Ledger)
    (es : List Event) (hnew : (es.flatMap Event.created).Nodup) :
    Runs.Throughout (step P L) (fun w => ∀ env' : Env, Api.Agrees env' w.factory)
      (start env ledger) es := by
  refine (Runs.throughout_of_fresh (I := fun w => w.Sound ∧ w.Registered) Event.created
    canisters (fun w e w' h hnodup ht => ?_)
    ⟨sound_start env ledger, registered_start env ledger⟩ ?_).mono
    fun w h env' => Api.agrees_of_registry h.2.named h.2.indexed
  · obtain ⟨hr, hsub⟩ := step_registered h.1 h.2 hnodup ht
    exact ⟨⟨(step_deploys h.1 ht).sound h.1, hr⟩, hsub⟩
  · exact (List.append_nil _).symm ▸ hnew

/-- After two executions of one deployment its owner is shown two strategies. -/
theorem queries_agree_deploysTwice : ∃ w,
    Runs.run Sample.step Sample.world deploysTwice = some w ∧
      Api.Agrees (Sample.message 10 Sample.user) w.factory ∧
      (Api.getStrategiesByOwner (Sample.message 10 Sample.user) w.factory Sample.user).length =
        2 := by
  have hend : (Runs.run Sample.step Sample.world deploysTwice).any (fun w => decide
      ((Api.getStrategiesByOwner (Sample.message 10 Sample.user) w.factory
        Sample.user).length = 2)) = true := by
    decide +kernel
  obtain ⟨w, hrun, hw⟩ := (Option.any_eq_true _ _).1 hend
  exact ⟨w, hrun, (queries_agree Sample.platform icrc1Transfer (Sample.message 0 Sample.admin)
    Sample.ledger deploysTwice (by decide)).last hrun _, of_decide_eq_true hw⟩

end World

end HunterFi
