import HunterFi.KeyedMap
import HunterFi.Types
import Mathlib.Data.Finset.Basic
import Mathlib.Data.Finset.Card

/-!
# The factory's state

`state.rs` : user accounts, the transaction history and its cache, deployment records, the
strategy registry, the fee, the admins and the id counter, with the functions that read and
write them. A stable B-tree map is a `KeyedMap` : every store of the code files a value
under the key the value itself holds, and bincode gives back what it was given.

`Env` is what a message segment reads of the platform, `Platform` what the factory uses of
code outside the repository. The field `journal` is a history variable that is not in the
code : every record passed to `store_transaction_record`, oldest first, with the caller of
the segment that recorded it.
-/

set_option linter.unusedSectionVars false

namespace HunterFi

/-! ## Data -/

/-- The account of a user with the factory. -/
structure UserAccount where
  owner : Principal
  balance : ℕ
  lastDeposit : ℕ
  totalDeposited : ℕ
  totalConsumed : ℕ
  deriving DecidableEq, Inhabited

/-- The kinds of transactions. -/
inductive TransactionType
  | deposit
  | deploymentFee
  | refund
  | adminAdjustment
  | withdrawal
  | transfer
  deriving DecidableEq, Inhabited

/-- A transaction as the factory records it. -/
structure TransactionRecord where
  transactionId : String
  user : Principal
  amount : ℕ
  transactionType : TransactionType
  timestamp : ℕ
  description : String
  deriving DecidableEq, Inhabited

/-- The record `update_deployment_status` writes back : the canister id and the message are
kept where no new one is given. -/
def DeploymentRecord.withStatus (record : DeploymentRecord) (time : ℕ)
    (status : DeploymentStatus) (canisterId : Option Principal) (errorMessage : Option String) :
    DeploymentRecord :=
  { record with
    status := status
    lastUpdated := time
    canisterId := canisterId.or record.canisterId
    errorMessage := errorMessage.or record.errorMessage }

/-- What a message segment reads of the platform : `time()`, `caller()` and
`canister_balance()`. -/
structure Env where
  time : ℕ
  caller : Principal
  cycles : ℕ
  deriving DecidableEq, Inhabited

/-- What the factory uses of code outside the repository : its canister id and the candid
codec of the configurations. -/
structure Platform where
  id : Principal
  encodeOne : Config → Except String (List UInt8)
  decodeDCA : List UInt8 → Except String DCAConfig
  decodeValueAvg : List UInt8 → Except String ValueAvgConfig
  decodeFixedBalance : List UInt8 → Except String FixedBalanceConfig
  decodeLimitOrder : List UInt8 → Except String LimitOrderConfig
  decodeSelfHedging : List UInt8 → Except String SelfHedgingConfig

/-- A recorded transaction with the caller of the segment that recorded it. -/
structure Posting where
  caller : Principal
  record : TransactionRecord
  deriving DecidableEq

/-- The factory's state. `journal` is a history variable. -/
structure Factory where
  strategies : KeyedMap StrategyMetadata.canisterId
  deploymentRecords : KeyedMap DeploymentRecord.deploymentId
  userAccounts : KeyedMap UserAccount.owner
  transactions : KeyedMap TransactionRecord.transactionId
  ownerStrategies : KeyedMap (Prod.fst : Principal × List Principal → Principal)
  deploymentFee : ℕ
  admins : Finset Principal
  deploymentIdCounter : ℕ
  transactionCache : List TransactionRecord
  maxCacheSize : ℕ
  journal : List Posting

/-- `DEFAULT_DEPLOYMENT_FEE`, 1 ICP. -/
def defaultDeploymentFee : ℕ :=
  100000000

/-- `RETENTION_PERIOD_NS`, 90 days. -/
def retentionPeriodNs : ℕ :=
  90 * 24 * 60 * 60 * 1000000000

/-- `MAX_COMPLETED_RECORDS`. -/
def maxCompletedRecords : ℕ :=
  10000

/-- `ARCHIVING_THRESHOLD_PERCENT`. -/
def archivingThresholdPercent : ℕ :=
  80

namespace Factory

/-- The state of a new canister. -/
def initial : Factory where
  strategies := ∅
  deploymentRecords := ∅
  userAccounts := ∅
  transactions := ∅
  ownerStrategies := ∅
  deploymentFee := defaultDeploymentFee
  admins := ∅
  deploymentIdCounter := 0
  transactionCache := []
  maxCacheSize := 1000
  journal := []

/-! ## Deployment records and the registry -/

/-- `generate_deployment_id`. The counter is a `u64` that wraps. -/
def generateDeploymentId (f : Factory) (env : Env) : String × Factory :=
  (stampId env.time env.caller (toString f.deploymentIdCounter),
    { f with deploymentIdCounter := (f.deploymentIdCounter + 1) % 2 ^ 64 })

/-- `store_deployment_record`. -/
def storeDeploymentRecord (f : Factory) (record : DeploymentRecord) : Factory :=
  { f with deploymentRecords := f.deploymentRecords.insert record }

/-- `get_deployment_record`. -/
def getDeploymentRecord (f : Factory) (deploymentId : String) : Option DeploymentRecord :=
  f.deploymentRecords.get? deploymentId

/-- `update_deployment_status` : an error if there is no record. -/
def updateDeploymentStatus (f : Factory) (env : Env) (deploymentId : String)
    (status : DeploymentStatus) (canisterId : Option Principal) (errorMessage : Option String) :
    Except String Factory :=
  match f.getDeploymentRecord deploymentId with
  | some record =>
    .ok (f.storeDeploymentRecord (record.withStatus env.time status canisterId errorMessage))
  | none => .error ("Deployment record not found: " ++ deploymentId)

/-- `store_strategy_metadata` : the metadata, and the canister under its owner. -/
def storeStrategyMetadata (f : Factory) (metadata : StrategyMetadata) : Factory :=
  let canisters := ((f.ownerStrategies.get? metadata.owner).map Prod.snd).getD []
  { f with
    strategies := f.strategies.insert metadata
    ownerStrategies :=
      f.ownerStrategies.insert (metadata.owner, canisters ++ [metadata.canisterId]) }

/-- `get_strategy_metadata`. -/
def getStrategyMetadata (f : Factory) (canisterId : Principal) : Option StrategyMetadata :=
  f.strategies.get? canisterId

/-- The bincode bytes of a string, by which a stable map orders its keys. -/
def bincodeText (s : String) : List UInt8 :=
  ((List.range 8).map fun i => UInt8.ofNat ((asBytes s).length / 256 ^ i)) ++ asBytes s

/-- `get_all_deployment_records`, in the order of the stable map. -/
def getAllDeploymentRecords (f : Factory) : List DeploymentRecord :=
  f.deploymentRecords.vals.mergeSort fun a b =>
    !decide (bincodeText b.deploymentId < bincodeText a.deploymentId)

/-- `get_deployment_records_by_status`. -/
def getDeploymentRecordsByStatus (f : Factory) (status : DeploymentStatus) :
    List DeploymentRecord :=
  f.getAllDeploymentRecords.filter fun record => record.status = status

/-! ## Archiving -/

/-- The ids that `archive_old_deployment_records` removes : of the completed records sorted by
`last_updated`, the first ones in excess of the limit and those older than the retention
period. -/
def recordsToArchive (f : Factory) (env : Env) : List String :=
  let completed := f.getAllDeploymentRecords.filter fun record =>
    record.status = .deployed || record.status = .refunded
  let sorted := completed.mergeSort fun a b => a.lastUpdated ≤ b.lastUpdated
  let excessCount := sorted.length - maxCompletedRecords
  let retentionThreshold := env.time - retentionPeriodNs
  (sorted.zipIdx.filter fun (record, index) =>
      index < excessCount || record.lastUpdated < retentionThreshold).map
    fun (record, _) => record.deploymentId

/-- Remove one record, counting it if it was there. -/
def archiveRecord : ℕ × Factory → String → ℕ × Factory
  | (count, f), deploymentId =>
    (if (f.deploymentRecords.get? deploymentId).isSome then count + 1 else count,
      { f with deploymentRecords := f.deploymentRecords.erase deploymentId })

/-- `archive_old_deployment_records` : the number removed and the state without them. -/
def archiveOldDeploymentRecords (f : Factory) (env : Env) : ℕ × Factory :=
  (f.recordsToArchive env).foldl archiveRecord (0, f)

/-- `get_memory_usage_percent` : 500 bytes a record, of `4 * 1024 * 1024`, cast to `u8`. -/
def getMemoryUsagePercent (f : Factory) : ℕ :=
  min (min (f.deploymentRecords.vals.length * 500 * 100 / (4 * 1024 * 1024)) 255) 100

/-- `should_archive_records`. -/
def shouldArchiveRecords (f : Factory) : Bool :=
  archivingThresholdPercent < f.getMemoryUsagePercent

/-! ## Admins and the fee -/

/-- `is_admin` of the caller. -/
def isAdmin (f : Factory) (env : Env) : Bool :=
  env.caller ∈ f.admins

/-- `require_admin`. -/
def requireAdmin (f : Factory) (env : Env) : Except String Unit :=
  if f.isAdmin env then .ok () else .error "Caller is not authorized to perform this action"

/-- `get_fee`. -/
def getFee (f : Factory) : ℕ :=
  f.deploymentFee

/-- `set_fee`, for admins only. -/
def setFee (f : Factory) (env : Env) (fee : ℕ) : Except String Factory :=
  match f.requireAdmin env with
  | .error e => .error e
  | .ok () => .ok { f with deploymentFee := fee }

/-! ## Transactions -/

/-- `hex::encode`. -/
def hexEncode (bs : List UInt8) : String :=
  String.ofList (bs.flatMap fun b => [Nat.digitChar (b.toNat / 16), Nat.digitChar (b.toNat % 16)])

/-- `generate_transaction_id`. -/
def generateTransactionId (P : Platform) (env : Env) : String :=
  stampId env.time env.caller (hexEncode P.id.bytes)

/-- `store_transaction_record` : the map, and the cache without its oldest entry once it is
too long. -/
def storeTransactionRecord (f : Factory) (record : TransactionRecord) : Factory :=
  let cache := f.transactionCache ++ [record]
  { f with
    transactions := f.transactions.insert record
    transactionCache := if f.maxCacheSize < cache.length then cache.drop 1 else cache }

/-- `get_all_transaction_records` : the cache alone. -/
def getAllTransactionRecords (f : Factory) : List TransactionRecord :=
  f.transactionCache

/-- `get_user_transaction_records` : of the cache alone. -/
def getUserTransactionRecords (f : Factory) (user : Principal) : List TransactionRecord :=
  f.transactionCache.filter fun record => record.user = user

/-- The record that `record_transaction` stores. -/
def newTransaction (P : Platform) (env : Env) (user : Principal) (amount : ℕ)
    (transactionType : TransactionType) (description : String) : TransactionRecord where
  transactionId := generateTransactionId P env
  user := user
  amount := amount
  transactionType := transactionType
  timestamp := env.time
  description := description

/-- `record_transaction` : the id and the state with the record stored and posted. -/
def recordTransaction (f : Factory) (P : Platform) (env : Env) (user : Principal) (amount : ℕ)
    (transactionType : TransactionType) (description : String) : String × Factory :=
  let record := newTransaction P env user amount transactionType description
  (record.transactionId,
    { f.storeTransactionRecord record with journal := f.journal ++ [⟨env.caller, record⟩] })

/-! ## Accounts -/

/-- `store_user_account`. -/
def storeUserAccount (f : Factory) (account : UserAccount) : Factory :=
  { f with userAccounts := f.userAccounts.insert account }

/-- `get_user_account`, an empty account where none is stored. -/
def getUserAccount (f : Factory) (user : Principal) : UserAccount :=
  (f.userAccounts.get? user).getD ⟨user, 0, 0, 0, 0⟩

/-- `update_user_balance` : the new balance and the state, or an error that changes nothing. -/
def updateUserBalance (f : Factory) (env : Env) (user : Principal) (amount : ℕ)
    (isDeposit : Bool) : Except String (ℕ × Factory) :=
  let account := f.getUserAccount user
  if isDeposit then
    let account' := { account with
      balance := saturatingAdd account.balance amount
      lastDeposit := env.time
      totalDeposited := saturatingAdd account.totalDeposited amount }
    .ok (account'.balance, f.storeUserAccount account')
  else if account.balance < amount then
    .error ("Insufficient balance: current balance " ++ toString account.balance ++
      " e8s, required " ++ toString amount ++ " e8s")
  else
    let account' := { account with
      balance := account.balance - amount
      totalConsumed := saturatingAdd account.totalConsumed amount }
    .ok (account'.balance, f.storeUserAccount account')

/-- `check_user_balance`. -/
def checkUserBalance (f : Factory) (user : Principal) (amount : ℕ) : Bool :=
  amount ≤ (f.getUserAccount user).balance

/-- `state::process_balance_refund`, the one the cleanup uses : it leaves the status of the
deployment record as it is. -/
def processBalanceRefund (f : Factory) (P : Platform) (env : Env) (user : Principal) (amount : ℕ)
    (deploymentId : String) : Except String Factory :=
  if amount = 0 then .error "Refund amount must be greater than 0"
  else
    match f.updateUserBalance env user amount true with
    | .error e => .error ("Failed to update user balance: " ++ e)
    | .ok (_, f) =>
      .ok (f.recordTransaction P env user amount .refund
        ("Refund for failed deployment (ID: " ++ deploymentId ++ ")")).2

/-! ## What the operations do -/

/-- The balance of a user. -/
def balance (f : Factory) (user : Principal) : ℕ :=
  (f.getUserAccount user).balance

/-- The state after `update_user_balance` adds `amount`. -/
def credit (f : Factory) (env : Env) (user : Principal) (amount : ℕ) : Factory :=
  f.storeUserAccount { f.getUserAccount user with
    balance := saturatingAdd (f.balance user) amount
    lastDeposit := env.time
    totalDeposited := saturatingAdd (f.getUserAccount user).totalDeposited amount }

/-- The state after `update_user_balance` takes `amount`. -/
def debit (f : Factory) (user : Principal) (amount : ℕ) : Factory :=
  f.storeUserAccount { f.getUserAccount user with
    balance := f.balance user - amount
    totalConsumed := saturatingAdd (f.getUserAccount user).totalConsumed amount }

/-- The state after `record_transaction`. -/
def post (f : Factory) (P : Platform) (env : Env) (user : Principal) (amount : ℕ)
    (transactionType : TransactionType) (description : String) : Factory :=
  (f.recordTransaction P env user amount transactionType description).2

variable (f : Factory) (P : Platform) (env : Env) (user : Principal) (amount : ℕ)
  (ty : TransactionType) (description : String)

@[simp] theorem user_newTransaction :
    (newTransaction P env user amount ty description).user = user :=
  rfl

@[simp] theorem amount_newTransaction :
    (newTransaction P env user amount ty description).amount = amount :=
  rfl

@[simp] theorem transactionType_newTransaction :
    (newTransaction P env user amount ty description).transactionType = ty :=
  rfl

/-- A deposit credits the account. -/
theorem updateUserBalance_true : f.updateUserBalance env user amount true =
    .ok (saturatingAdd (f.balance user) amount, f.credit env user amount) :=
  rfl

/-- A payment that the balance covers debits it. -/
theorem updateUserBalance_false (h : amount ≤ f.balance user) :
    f.updateUserBalance env user amount false =
      .ok (f.balance user - amount, f.debit user amount) := by
  simp only [updateUserBalance, Bool.false_eq_true, if_false]
  exact if_neg (Nat.not_lt.2 h)

/-- A debit that is not covered fails and changes nothing. -/
theorem updateUserBalance_false_error (h : f.balance user < amount) :
    ∃ e, f.updateUserBalance env user amount false = .error e := by
  simp only [updateUserBalance, Bool.false_eq_true, if_false]
  exact ⟨_, if_pos h⟩

@[simp] theorem owner_getUserAccount : (f.getUserAccount user).owner = user := by
  unfold getUserAccount
  cases h : f.userAccounts.get? user with
  | none => rfl
  | some account => exact KeyedMap.key_of_get? h

/-- A stored account is read back, and the others are as before. -/
theorem getUserAccount_storeUserAccount (account : UserAccount) :
    (f.storeUserAccount account).getUserAccount user =
      if user = account.owner then account else f.getUserAccount user := by
  unfold getUserAccount storeUserAccount
  rw [KeyedMap.get?_insert]
  split_ifs <;> rfl

theorem get?_storeUserAccount_of_ne {account : UserAccount} (h : user ≠ account.owner) :
    (f.storeUserAccount account).userAccounts.get? user = f.userAccounts.get? user :=
  (KeyedMap.get?_insert _ _ _).trans (if_neg h)

/-- The account of another user. -/
theorem get?_credit_of_ne {v : Principal} (h : v ≠ user) :
    (f.credit env user amount).userAccounts.get? v = f.userAccounts.get? v :=
  f.get?_storeUserAccount_of_ne v (by simpa using h)

theorem get?_debit_of_ne {v : Principal} (h : v ≠ user) :
    (f.debit user amount).userAccounts.get? v = f.userAccounts.get? v :=
  f.get?_storeUserAccount_of_ne v (by simpa using h)

/-- A credit adds to the balance of its user, which saturates. -/
theorem balance_credit (v : Principal) : (f.credit env user amount).balance v =
    if v = user then saturatingAdd (f.balance user) amount else f.balance v := by
  unfold credit balance
  rw [getUserAccount_storeUserAccount, owner_getUserAccount]
  split_ifs <;> rfl

/-- A debit takes from it. -/
theorem balance_debit (v : Principal) : (f.debit user amount).balance v =
    if v = user then f.balance user - amount else f.balance v := by
  unfold debit balance
  rw [getUserAccount_storeUserAccount, owner_getUserAccount]
  split_ifs <;> rfl

@[simp] theorem balance_post (v : Principal) :
    (f.post P env user amount ty description).balance v = f.balance v :=
  rfl

@[simp] theorem journal_credit : (f.credit env user amount).journal = f.journal :=
  rfl

@[simp] theorem journal_debit : (f.debit user amount).journal = f.journal :=
  rfl

@[simp] theorem journal_post : (f.post P env user amount ty description).journal =
    f.journal ++ [⟨env.caller, newTransaction P env user amount ty description⟩] :=
  rfl

@[simp] theorem deploymentRecords_credit :
    (f.credit env user amount).deploymentRecords = f.deploymentRecords :=
  rfl

@[simp] theorem deploymentRecords_debit :
    (f.debit user amount).deploymentRecords = f.deploymentRecords :=
  rfl

@[simp] theorem deploymentRecords_post :
    (f.post P env user amount ty description).deploymentRecords = f.deploymentRecords :=
  rfl

/-- A refund credits the amount and is posted. -/
theorem processBalanceRefund_eq (deploymentId : String) (h : amount ≠ 0) :
    f.processBalanceRefund P env user amount deploymentId =
      .ok ((f.credit env user amount).post P env user amount .refund
        ("Refund for failed deployment (ID: " ++ deploymentId ++ ")")) := by
  rw [processBalanceRefund, if_neg h, updateUserBalance_true]
  rfl

/-- A stored record is read back, and the others are as before. -/
theorem getDeploymentRecord_storeDeploymentRecord (record : DeploymentRecord) (id : String) :
    (f.storeDeploymentRecord record).getDeploymentRecord id =
      if id = record.deploymentId then some record else f.getDeploymentRecord id :=
  KeyedMap.get?_insert _ _ _

/-- A record is filed under its own id. -/
theorem deploymentId_of_getDeploymentRecord {f : Factory} {id : String}
    {record : DeploymentRecord} (h : f.getDeploymentRecord id = some record) :
    record.deploymentId = id :=
  KeyedMap.key_of_get? h

/-- `update_deployment_status` writes the record of its id and nothing else, and fails
exactly when there is none. -/
theorem updateDeploymentStatus_eq_ok {f f' : Factory} {env : Env} {id : String}
    {status : DeploymentStatus} {canisterId : Option Principal} {errorMessage : Option String} :
    f.updateDeploymentStatus env id status canisterId errorMessage = .ok f' ↔
      ∃ record, f.getDeploymentRecord id = some record ∧
        f' = f.storeDeploymentRecord
          (record.withStatus env.time status canisterId errorMessage) := by
  unfold updateDeploymentStatus
  cases f.getDeploymentRecord id with
  | none => simp
  | some record => simp [eq_comm]

end Factory

end HunterFi
