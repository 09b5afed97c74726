import HunterFi.Deployment

/-!
# The factory's messages

`api.rs` and the cleanup of `timer.rs`. A message that awaits is given by its first segment
here ; what runs from the answer is in `Payment` and `Deployment`, with the same checks
before it. `request*` and `forceExecuteDeployment` run `execute_deployment` in the message
itself, up to its first await.
-/

set_option linter.unusedSectionVars false

namespace HunterFi

/-- `MAX_TRANSACTION_QUERY_LIMIT`. -/
def maxTransactionQueryLimit : ℕ :=
  100

namespace Api

/-- `init` : the caller is the first admin. -/
def init (env : Env) : Factory :=
  { Factory.initial with admins := {env.caller} }

/-! ## Admins -/

/-- `add_admin`. -/
def addAdmin (env : Env) (f : Factory) (principal : Principal) : Except String Unit × Factory :=
  match f.requireAdmin env with
  | .error e => (.error e, f)
  | .ok () =>
    if principal = .anonymous then
      (.error "Cannot add anonymous principal as admin", f)
    else (.ok (), { f with admins := insert principal f.admins })

/-- `remove_admin`. The last admin stays. -/
def removeAdmin (env : Env) (f : Factory) (principal : Principal) :
    Except String Unit × Factory :=
  match f.requireAdmin env with
  | .error e => (.error e, f)
  | .ok () =>
    if f.admins.card ≤ 1 ∧ principal ∈ f.admins then
      (.error "Cannot remove the last admin", f)
    else (.ok (), { f with admins := f.admins.erase principal })

/-- `set_deployment_fee`. The result of `set_fee` is dropped. -/
def setDeploymentFee (env : Env) (f : Factory) (fee : ℕ) : Except String Unit × Factory :=
  match f.requireAdmin env with
  | .error e => (.error e, f)
  | .ok () =>
    match f.setFee env fee with
    | .error _ => (.ok (), f)
    | .ok f => (.ok (), f)

/-- `adjust_balance` : an admin credits a user. -/
def adjustBalance (P : Platform) (env : Env) (f : Factory) (user : Principal) (amount : ℕ)
    (reason : String) : Except String Unit × Factory :=
  match f.requireAdmin env with
  | .error e => (.error e, f)
  | .ok () =>
    match f.updateUserBalance env user amount true with
    | .error e => (.error e, f)
    | .ok (_, f) => (.ok (), (f.recordTransaction P env user amount .adminAdjustment reason).2)

/-- `withdraw_icp` : an admin's transfer from the factory's account. -/
def withdrawIcp (env : Env) (f : Factory) (recipient : Principal) (amount : ℕ) :
    Except String TransferArgs :=
  match f.requireAdmin env with
  | .error e => .error e
  | .ok () => Payment.withdrawFunds env recipient amount

/-! ## Strategies -/

/-- What the five request methods do. -/
def requestStrategy (P : Platform) (env : Env) (f : Factory) (config : Config) :
    Except String DeploymentRequest × Factory :=
  if env.caller = .anonymous then
    (.error "Anonymous principal cannot deploy strategies", f)
  else Deployment.createStrategyRequest P env f config

/-- A request for a strategy that buys at intervals. -/
def requestDcaStrategy (P : Platform) (env : Env) (f : Factory) (config : DCAConfig) :
    Except String DeploymentRequest × Factory :=
  requestStrategy P env f (.dca config)

/-- A request for value averaging. -/
def requestValueAvgStrategy (P : Platform) (env : Env) (f : Factory) (config : ValueAvgConfig) :
    Except String DeploymentRequest × Factory :=
  requestStrategy P env f (.valueAvg config)

/-- A request for a strategy of fixed shares. -/
def requestFixedBalanceStrategy (P : Platform) (env : Env) (f : Factory)
    (config : FixedBalanceConfig) : Except String DeploymentRequest × Factory :=
  requestStrategy P env f (.fixedBalance config)

/-- A request for a limit order. -/
def requestLimitOrderStrategy (P : Platform) (env : Env) (f : Factory)
    (config : LimitOrderConfig) : Except String DeploymentRequest × Factory :=
  requestStrategy P env f (.limitOrder config)

/-- A request for a self-hedging strategy. -/
def requestSelfHedgingStrategy (P : Platform) (env : Env) (f : Factory)
    (config : SelfHedgingConfig) : Except String DeploymentRequest × Factory :=
  requestStrategy P env f (.selfHedging config)

/-- The request method of a configuration. -/
def request (P : Platform) (env : Env) (f : Factory) :
    Config → Except String DeploymentRequest × Factory
  | .dca config => requestDcaStrategy P env f config
  | .valueAvg config => requestValueAvgStrategy P env f config
  | .fixedBalance config => requestFixedBalanceStrategy P env f config
  | .limitOrder config => requestLimitOrderStrategy P env f config
  | .selfHedging config => requestSelfHedgingStrategy P env f config

theorem request_eq (P : Platform) (env : Env) (f : Factory) (config : Config) :
    request P env f config = requestStrategy P env f config := by
  cases config <;> rfl

/-- `force_execute_deployment` : an admin runs an execution once more. -/
def forceExecuteDeployment (P : Platform) (env : Env) (f : Factory) (deploymentId : String) :
    Except String (Progress × Factory) :=
  match f.requireAdmin env with
  | .error e => .error e
  | .ok () => .ok (Deployment.executeDeployment P env f deploymentId)

/-! ## Balances -/

/-- `deposit_icp` up to its transfer. -/
def depositIcp (P : Platform) (env : Env) (amount : ℕ) : Except String TransferArgs :=
  if env.caller = .anonymous then .error "Anonymous identity cannot make deposits"
  else
    match Payment.processDeposit P env env.caller amount with
    | .error e => .error e.text
    | .ok args => .ok args

/-- `withdraw_user_icp` up to its transfer. -/
def withdrawUserIcp (env : Env) (f : Factory) (amount : ℕ) : Except String TransferArgs :=
  if env.caller = .anonymous then .error "Anonymous identity cannot withdraw funds"
  else
    match Payment.userWithdrawFunds env f env.caller amount with
    | .error e => .error e.text
    | .ok args => .ok args

/-- `get_transaction_history`. -/
def getTransactionHistory (f : Factory) (user : Principal) : List TransactionRecord :=
  let transactions := f.getUserTransactionRecords user
  if maxTransactionQueryLimit < transactions.length then
    transactions.take maxTransactionQueryLimit
  else transactions

/-! ## The cleanup -/

/-- One record of the loop of `timer::process_failed_deployments`. -/
def processFailedDeployment (P : Platform) (env : Env) :
    ℕ × Factory → DeploymentRecord → ℕ × Factory
  | (count, f), record =>
    if record.status ≠ .refunded then
      match f.processBalanceRefund P env record.owner record.feeAmount record.deploymentId with
      | .error _ => (count, f)
      | .ok f => (count + 1, f)
    else (count, f)

/-- `timer::process_failed_deployments`. -/
def processFailedDeployments (P : Platform) (env : Env) (f : Factory) : ℕ × Factory :=
  (f.getDeploymentRecordsByStatus .deploymentFailed).foldl (processFailedDeployment P env) (0, f)

/-- `execute_cleanup_tasks`. -/
def executeCleanupTasks (P : Platform) (env : Env) (f : Factory) : Factory :=
  let f := if f.shouldArchiveRecords then (f.archiveOldDeploymentRecords env).2 else f
  (processFailedDeployments P env f).2

end Api

end HunterFi
