import HunterFi.Api
import HunterFi.Upgrade
import HunterFi.Runs

/-!
# The factory among its callers, the ledger and the new canisters

The state of the whole is the factory, the ledger's accounts, the `icrc1_transfer` calls in
flight and the executions of `execute_deployment` that wait for an answer. An event is one
message segment of the factory, one transfer that the ledger takes up, or a transfer that a
user makes at the ledger on their own. `next` has the segments in any order that the calls
allow : a call may be answered at any time after it was made, or never.

The ledger is a parameter `L`, which says what an accepted transfer does to the accounts,
or that the sender has too little. It may refuse any transfer for reasons of its own, and a
reply may come back as an error although the transfer went through.

The factory is upgraded with no call of its own in flight, as when its operator stops it first. The
strategy canister is more liberal (`CanisterEvent`) : its only controller is the factory, which
has no code that would stop it, and an upgrade may come at any time and drops what waits.

`accepted`, `deposits`, `received`, `requests`, `returned` and `ended` are history variables.
-/

set_option linter.unusedSectionVars false

namespace HunterFi

/-! ## The ledger -/

/-- The balances of the ledger. -/
abbrev Ledger :=
  Account → ℕ

/-- What an accepted transfer does, by the calling canister or user and the arguments. -/
abbrev LedgerRule :=
  Principal → TransferArgs → Ledger → Option Ledger

/-- The default account of a principal. -/
def defaultAccount (owner : Principal) : Account :=
  ⟨owner, none⟩

/-- The ICRC-1 rule : the default account of the caller pays the amount and the fee, the
account in the field `to` receives the amount. -/
def icrc1Transfer : LedgerRule := fun caller args l =>
  let cost := args.amount + args.fee.getD paymentConfig.icpTransferFee
  let payer := defaultAccount caller
  if l payer < cost then none
  else
    let l := Function.update l payer (l payer - cost)
    some (Function.update l args.toAccount (l args.toAccount + args.amount))

/-- The answer of the ledger to a transfer : whether it moved the amount, and what the call
returns. A block index is returned only for a transfer that went through. -/
structure LedgerAnswer where
  accepted : Bool
  result : CallResult ℕ
  accepted_of_isOk : result.isOk → accepted
  deriving DecidableEq

/-- The continuation that waits for a transfer. -/
inductive Purpose
  | deposit (user : Principal) (amount : ℕ)
  | withdrawUser (user : Principal) (amount : ℕ)
  | withdrawIcp (recipient : Principal) (amount retries : ℕ)
  deriving DecidableEq

/-- An `icrc1_transfer` call of the factory : who called the factory, and from the moment the
ledger took it up its answer, with the amounts by which the factory's account and the
caller's own account changed. -/
structure Transfer where
  purpose : Purpose
  caller : Principal
  args : TransferArgs
  answer : Option LedgerAnswer
  factoryGain : ℤ
  callerGain : ℤ
  deriving DecidableEq

/-- A call that the ledger has not taken up. -/
def Transfer.issued (purpose : Purpose) (caller : Principal) (args : TransferArgs) : Transfer :=
  ⟨purpose, caller, args, none, 0, 0⟩

/-! ## The state -/

/-- An `execute_deployment` that waits. `spawned` is true for the one that the request
spawned, false for one that an admin forced. -/
structure Task where
  spawned : Bool
  caller : Principal
  deploymentId : String
  record : DeploymentRecord
  stage : Stage
  deriving DecidableEq

/-- An accepted strategy request, with the amount by which it lowered the balance of its
owner before the deployment started. -/
structure Request where
  owner : Principal
  deploymentId : String
  feeAmount : ℕ
  charged : ℕ
  deriving DecidableEq

/-- The end of an `execute_deployment`. -/
structure Return where
  spawned : Bool
  deploymentId : String
  result : Except String DeploymentResult
  deriving DecidableEq

/-- The factory with the ledger and its calls in flight, and the history variables. -/
structure World where
  factory : Factory
  ledger : Ledger
  transfers : List Transfer
  tasks : List Task
  /-- the transfers that the ledger accepted -/
  accepted : List Transfer
  /-- the deposits whose call came back with a block index -/
  deposits : List Transfer
  /-- what users brought to the factory's account by transfers of their own -/
  received : ℕ
  /-- the accepted strategy requests -/
  requests : List Request
  /-- the execution that ended in the last segment -/
  returned : Option Return
  /-- the executions that have ended -/
  ended : List Return

/-- What happens to it. -/
inductive Event
  | depositIcp (env : Env) (amount : ℕ)
  | withdrawUserIcp (env : Env) (amount : ℕ)
  | requestStrategy (env : Env) (config : Config)
  | forceExecuteDeployment (env : Env) (deploymentId : String)
  | withdrawIcp (env : Env) (recipient : Principal) (amount : ℕ)
  | adjustBalance (env : Env) (user : Principal) (amount : ℕ) (reason : String)
  | setDeploymentFee (env : Env) (fee : ℕ)
  | addAdmin (env : Env) (principal : Principal)
  | removeAdmin (env : Env) (principal : Principal)
  | cleanup (time cycles : ℕ)
  | upgrade
  | userTransfer (sender : Principal) (args : TransferArgs)
  | ledgerAnswers (transfer : Transfer) (answer : LedgerAnswer)
  | transferReturns (transfer : Transfer) (time cycles : ℕ)
  | canisterCreated (task : Task) (time cycles : ℕ) (result : CallResult Principal)
  | codeInstalled (task : Task) (time cycles : ℕ) (result : CallResult Unit)
  | strategyInitialized (task : Task) (time cycles : ℕ) (result : CallResult Unit)

/-- Who sends a message to the factory or a transfer to the ledger from outside. -/
def Event.sender : Event → Option Principal
  | depositIcp env _ => some env.caller
  | withdrawUserIcp env _ => some env.caller
  | requestStrategy env _ => some env.caller
  | forceExecuteDeployment env _ => some env.caller
  | withdrawIcp env _ _ => some env.caller
  | adjustBalance env _ _ _ => some env.caller
  | setDeploymentFee env _ => some env.caller
  | addAdmin env _ => some env.caller
  | removeAdmin env _ => some env.caller
  | userTransfer sender _ => some sender
  | _ => none

namespace World

/-- A new factory, over a ledger. -/
def start (env : Env) (ledger : Ledger) : World :=
  ⟨Api.init env, ledger, [], [], [], [], 0, [], none, []⟩

/-- The factory after a segment in which no execution ended. -/
def withFactory (w : World) (f : Factory) : World :=
  { w with factory := f, returned := none }

/-- A new call in flight, or the state as it is if there is none. -/
def issue (w : World) (purpose : Purpose) (caller : Principal) (args : Except String TransferArgs) :
    World :=
  match args with
  | .error _ => { w with returned := none }
  | .ok args =>
    { w with transfers := .issued purpose caller args :: w.transfers, returned := none }

/-- The state after a segment of `execute_deployment`. -/
def resume (w : World) (P : Platform) (env : Env) (spawned : Bool) (deploymentId : String) :
    Progress × Factory → World
  | (.awaiting record stage, f) =>
    { w with
      factory := f
      tasks := ⟨spawned, env.caller, deploymentId, record, stage⟩ :: w.tasks
      returned := none }
  | (.returned result, f) =>
    { w with
      factory := if spawned then Deployment.spawnedReturn P env f deploymentId result else f
      returned := some ⟨spawned, deploymentId, result⟩
      ended := ⟨spawned, deploymentId, result⟩ :: w.ended }

/-- The transfer `t` as the ledger leaves it, which has turned `l` into `l'`. -/
def answered (P : Platform) (t : Transfer) (answer : LedgerAnswer) (l l' : Ledger) : Transfer :=
  { t with
    answer := some answer
    factoryGain := l' (defaultAccount P.id) - l (defaultAccount P.id)
    callerGain := l' (defaultAccount t.caller) - l (defaultAccount t.caller) }

/-- The ledger takes up a transfer. -/
def ledgerAnswers (w : World) (P : Platform) (L : LedgerRule) (t : Transfer)
    (answer : LedgerAnswer) : Option World :=
  if answer.accepted then
    (L P.id t.args w.ledger).map fun l =>
      { w with
        ledger := l
        transfers := answered P t answer w.ledger l :: w.transfers.erase t
        accepted := answered P t answer w.ledger l :: w.accepted
        returned := none }
  else
    some { w with
      transfers := answered P t answer w.ledger w.ledger :: w.transfers.erase t
      returned := none }

/-- The segment that runs from the answer of the ledger. -/
def transferReturns (w : World) (P : Platform) (t : Transfer) (result : CallResult ℕ)
    (time cycles : ℕ) : World :=
  let env : Env := ⟨time, t.caller, cycles⟩
  let w := { w with transfers := w.transfers.erase t, returned := none }
  match t.purpose with
  | .deposit user amount =>
    { w with
      factory := (Payment.processDepositAnswer P env w.factory user amount result).2
      deposits := if result.isOk then t :: w.deposits else w.deposits }
  | .withdrawUser user amount =>
    w.withFactory (Payment.userWithdrawFundsAnswer P env w.factory user amount result).2
  | .withdrawIcp recipient amount retries =>
    match Payment.withdrawFundsAnswer paymentConfig.maxWithdrawalRetries retries result with
    | .again retries => w.issue (.withdrawIcp recipient amount retries) t.caller (.ok t.args)
    | .done _ => w

/-- A strategy request, with the first segment of its deployment. -/
def requestStrategy (w : World) (P : Platform) (env : Env) (config : Config) : World :=
  match Api.request P env w.factory config with
  | (.error _, f) => w.withFactory f
  | (.ok request, f) =>
    resume
      { w with
        factory := f
        requests := ⟨env.caller, request.deploymentId, request.feeAmount,
          w.factory.balance env.caller - f.balance env.caller⟩ :: w.requests }
      P env true request.deploymentId (Deployment.executeDeployment P env f request.deploymentId)

/-- A segment of a waiting execution. -/
def continueTask (w : World) (P : Platform) (task : Task) (time cycles : ℕ)
    (segment : Env → Progress × Factory) : World :=
  let env : Env := ⟨time, task.caller, cycles⟩
  resume { w with tasks := w.tasks.erase task } P env task.spawned task.deploymentId (segment env)

/-- A transfer that a user makes at the ledger. -/
def userTransfer (w : World) (P : Platform) (L : LedgerRule) (sender : Principal)
    (args : TransferArgs) : Option World :=
  (L sender args w.ledger).map fun l =>
    { w with
      ledger := l
      received := if args.toAccount = defaultAccount P.id then w.received + args.amount
        else w.received
      returned := none }

/-- One event. -/
def next (P : Platform) (L : LedgerRule) (w : World) : Event → Option World
  | .depositIcp env amount =>
    some (w.issue (.deposit env.caller amount) env.caller (Api.depositIcp P env amount))
  | .withdrawUserIcp env amount =>
    some (w.issue (.withdrawUser env.caller amount) env.caller
      (Api.withdrawUserIcp env w.factory amount))
  | .requestStrategy env config => some (w.requestStrategy P env config)
  | .forceExecuteDeployment env deploymentId =>
    match Api.forceExecuteDeployment P env w.factory deploymentId with
    | .error _ => some (w.withFactory w.factory)
    | .ok p => some (w.resume P env false deploymentId p)
  | .withdrawIcp env recipient amount =>
    some (w.issue (.withdrawIcp recipient amount 0) env.caller
      (Api.withdrawIcp env w.factory recipient amount))
  | .adjustBalance env user amount reason =>
    some (w.withFactory (Api.adjustBalance P env w.factory user amount reason).2)
  | .setDeploymentFee env fee => some (w.withFactory (Api.setDeploymentFee env w.factory fee).2)
  | .addAdmin env principal => some (w.withFactory (Api.addAdmin env w.factory principal).2)
  | .removeAdmin env principal => some (w.withFactory (Api.removeAdmin env w.factory principal).2)
  | .cleanup time cycles =>
    some (w.withFactory (Api.executeCleanupTasks P ⟨time, P.id, cycles⟩ w.factory))
  | .upgrade =>
    -- the canister is stopped first, which waits for its calls
    if w.transfers = [] ∧ w.tasks = [] then some (w.withFactory w.factory.upgrade) else none
  | .userTransfer sender args => w.userTransfer P L sender args
  | .ledgerAnswers t answer =>
    if t ∈ w.transfers ∧ t.answer = none then w.ledgerAnswers P L t answer else none
  | .transferReturns t time cycles =>
    match t.answer with
    | none => none
    | some answer =>
      if t ∈ w.transfers then some (w.transferReturns P t answer.result time cycles) else none
  | .canisterCreated task time cycles result =>
    if task ∈ w.tasks ∧ task.stage = .createCanister then
      some (w.continueTask P task time cycles fun env =>
        Deployment.afterCreateCanister P env w.factory task.deploymentId task.record result)
    else none
  | .codeInstalled task time cycles result =>
    match task.stage with
    | .installCode canisterId =>
      if task ∈ w.tasks then
        some (w.continueTask P task time cycles fun env =>
          Deployment.afterInstallCode P env w.factory task.deploymentId task.record canisterId
            result)
      else none
    | _ => none
  | .strategyInitialized task time cycles result =>
    match task.stage with
    | .initStrategy call =>
      if task ∈ w.tasks then
        some (w.continueTask P task time cycles fun env =>
          Deployment.afterInitStrategy P env w.factory task.deploymentId task.record
            call.canisterId result)
      else none
    | _ => none

/-- One event, where the factory sends no message to itself but the cleanup. -/
def step (P : Platform) (L : LedgerRule) (w : World) (e : Event) : Option World :=
  if e.sender = some P.id then none else next P L w e

end World

/-! ## A platform for concrete runs -/

namespace Sample

/-- Who installs the sample factory. -/
def admin : Principal :=
  ⟨[1], by decide⟩

/-- Its user. -/
def user : Principal :=
  ⟨[2], by decide⟩

/-- The bytes that stand for the encoded `config`. -/
def configData : List UInt8 :=
  [0x44, 0x49, 0x44, 0x4C]

/-- A platform on which the sample configuration encodes. -/
def platform : Platform where
  id := ⟨[9], by decide⟩
  encodeOne := fun c => if c = .selfHedging config then .ok configData else .error "unsupported"
  decodeDCA := fun _ => .error "wrong type"
  decodeValueAvg := fun _ => .error "wrong type"
  decodeFixedBalance := fun _ => .error "wrong type"
  decodeLimitOrder := fun _ => .error "wrong type"
  decodeSelfHedging := fun bs => if bs = configData then .ok config else .error "wrong bytes"

/-- A message with cycles for a new canister. -/
def message (time : ℕ) (caller : Principal) : Env :=
  ⟨time, caller, 1000000000000⟩

/-- The factory and `user` have 10 ICP each at the ledger. -/
def ledger : Ledger := fun a =>
  if a = defaultAccount platform.id ∨ a = defaultAccount user then 1000000000 else 0

/-- The sample factory once it is installed. -/
def world : World :=
  World.start (message 0 admin) ledger

/-- The call of a deposit of `user`. -/
def deposit (time amount : ℕ) : Transfer :=
  .issued (.deposit user amount) user {
    toAccount := defaultAccount platform.id
    amount := amount
    fee := some paymentConfig.icpTransferFee
    memo := some (asBytes ("HunterFi deposit from " ++ user.toText))
    createdAtTime := some time }

/-- The call of a withdrawal of `user`. -/
def withdrawal (time amount : ℕ) : Transfer :=
  .issued (.withdrawUser user amount) user {
    toAccount := defaultAccount user
    amount := amount
    fee := some paymentConfig.icpTransferFee
    memo := some (asBytes ("HunterFi withdrawal to " ++ user.toText))
    createdAtTime := some time }

/-- An answer with a block index. -/
def done (block : ℕ) : LedgerAnswer :=
  ⟨true, .ok block, fun _ => rfl⟩

/-- A step of the sample factory. -/
def step : World → Event → Option World :=
  World.step platform icrc1Transfer

end Sample

end HunterFi
