import HunterFi.State

/-!
# Upgrades

An upgrade runs `pre_upgrade`, drops the heap and runs `post_upgrade`. The stable maps and
the saved blob share one stable memory : `stable_save` writes its blob from offset 0, over
the header of the memory manager, and a memory manager that finds no header starts with all
its maps empty. What survives is what `UpgradeData` copies.

`transactions_upgrade` and its neighbours say what an upgrade keeps. Deployment records are
not copied, and the transaction cache is rebuilt from itself, not from the map.
-/

set_option linter.unusedSectionVars false

namespace HunterFi

/-! ## Stable memory -/

/-- The stable maps. -/
structure StableMaps where
  strategies : KeyedMap StrategyMetadata.canisterId
  deploymentRecords : KeyedMap DeploymentRecord.deploymentId
  userAccounts : KeyedMap UserAccount.owner
  transactions : KeyedMap TransactionRecord.transactionId

/-- `UpgradeData`. -/
structure UpgradeData where
  ownerStrategies : KeyedMap (Prod.fst : Principal × List Principal → Principal)
  admins : Finset Principal
  deploymentIdCounter : ℕ
  deploymentFee : ℕ
  transactions : Option (List (String × TransactionRecord))
  userAccounts : Option (List (Principal × UserAccount))
  strategies : Option (List (Principal × StrategyMetadata))

/-- The stable memory : laid out by the memory manager, or overwritten by a saved blob. -/
inductive StableMemory
  | managed (maps : StableMaps)
  | blob (data : UpgradeData)

namespace StableMemory

/-- `ic_cdk::storage::stable_save`. -/
def stableSave (_ : StableMemory) (data : UpgradeData) : StableMemory :=
  .blob data

/-- `ic_cdk::storage::stable_restore`. -/
def stableRestore : StableMemory → Except String UpgradeData
  | managed _ => .error "no saved data"
  | blob data => .ok data

/-- `MemoryManager::init` and `StableBTreeMap::init` : the maps that are there, or empty ones
where the header is gone. -/
def init : StableMemory → StableMaps
  | managed maps => maps
  | blob _ => ⟨∅, ∅, ∅, ∅⟩

end StableMemory

namespace Factory

/-- The stable part of the state. -/
def stableMaps (f : Factory) : StableMaps :=
  ⟨f.strategies, f.deploymentRecords, f.userAccounts, f.transactions⟩

/-- A canister with a new heap over the maps of its stable memory. -/
def ofStableMaps (maps : StableMaps) : Factory :=
  { initial with
    strategies := maps.strategies
    deploymentRecords := maps.deploymentRecords
    userAccounts := maps.userAccounts
    transactions := maps.transactions }

/-! ## The hooks -/

/-- `get_upgrade_data`. -/
def getUpgradeData (f : Factory) : UpgradeData where
  ownerStrategies := f.ownerStrategies
  admins := f.admins
  deploymentIdCounter := f.deploymentIdCounter
  deploymentFee := f.deploymentFee
  transactions := some (f.transactions.vals.map fun record => (record.transactionId, record))
  userAccounts := some (f.userAccounts.vals.map fun account => (account.owner, account))
  strategies := some (f.strategies.vals.map fun metadata => (metadata.canisterId, metadata))

/-- Insert the values of saved pairs, each filed under its own key. -/
def restorePairs {K V : Type} [DecidableEq K] {key : V → K} (m : KeyedMap key)
    (pairs : Option (List (K × V))) : KeyedMap key :=
  match pairs with
  | none => m
  | some pairs => (pairs.map Prod.snd).foldl KeyedMap.insert m

/-- `restore_upgrade_data`. -/
def restoreUpgradeData (f : Factory) (data : UpgradeData) : Factory :=
  { f with
    ownerStrategies := data.ownerStrategies
    admins := data.admins
    deploymentIdCounter := data.deploymentIdCounter
    deploymentFee := data.deploymentFee
    transactions := restorePairs f.transactions data.transactions
    userAccounts := restorePairs f.userAccounts data.userAccounts
    strategies := restorePairs f.strategies data.strategies }

/-- `pre_upgrade` : what it leaves in the stable memory. -/
def preUpgrade (f : Factory) : StableMemory :=
  (StableMemory.managed f.stableMaps).stableSave f.getUpgradeData

/-- `post_upgrade`, on a new heap. An error is a trap. -/
def postUpgrade (memory : StableMemory) : Except String Factory :=
  match memory.stableRestore with
  | .error e => .error ("Failed to restore stable data: " ++ e)
  | .ok data =>
    let f := (ofStableMaps memory.init).restoreUpgradeData data
    .ok { f with transactionCache := f.getAllTransactionRecords }

/-- An upgrade : both hooks, with the history variable carried over. -/
def upgrade (f : Factory) : Factory :=
  match postUpgrade f.preUpgrade with
  | .error _ => f
  | .ok g => { g with journal := f.journal }

/-! ## What an upgrade keeps -/

/-- The saved values are those that are restored. -/
theorem restorePairs_vals {K V : Type} [DecidableEq K] {key : V → K} (m : KeyedMap key) :
    restorePairs ∅ (some (m.vals.map fun v => (key v, v))) =
      (KeyedMap.ofVals m.vals : KeyedMap key) := by
  simp [restorePairs, KeyedMap.ofVals, Function.comp_def]

/-- The hooks never trap, and `upgrade` is the state after them. -/
theorem postUpgrade_preUpgrade (f : Factory) :
    ∃ g, postUpgrade f.preUpgrade = .ok g ∧ f.upgrade = { g with journal := f.journal } :=
  ⟨_, rfl, rfl⟩

@[simp] theorem journal_upgrade (f : Factory) : f.upgrade.journal = f.journal :=
  rfl

/-- An upgrade keeps the transactions. -/
theorem transactions_upgrade (f : Factory) :
    f.upgrade.transactions.vals.Perm f.transactions.vals := by
  have h : f.upgrade.transactions = KeyedMap.ofVals f.transactions.vals :=
    restorePairs_vals f.transactions
  rw [h]
  exact f.transactions.ofVals_vals_perm

/-- It keeps the accounts. -/
theorem userAccounts_upgrade (f : Factory) :
    f.upgrade.userAccounts.vals.Perm f.userAccounts.vals := by
  have h : f.upgrade.userAccounts = KeyedMap.ofVals f.userAccounts.vals :=
    restorePairs_vals f.userAccounts
  rw [h]
  exact f.userAccounts.ofVals_vals_perm

/-- It keeps the strategies. -/
theorem strategies_upgrade (f : Factory) :
    f.upgrade.strategies.vals.Perm f.strategies.vals := by
  have h : f.upgrade.strategies = KeyedMap.ofVals f.strategies.vals :=
    restorePairs_vals f.strategies
  rw [h]
  exact f.strategies.ofVals_vals_perm

@[simp] theorem deploymentRecords_upgrade (f : Factory) : f.upgrade.deploymentRecords = ∅ :=
  rfl

@[simp] theorem transactionCache_upgrade (f : Factory) : f.upgrade.transactionCache = [] :=
  rfl

end Factory

end HunterFi
