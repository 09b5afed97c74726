import HunterFi.Segments
import HunterFi.System

/-!
# Deployments along a run

What a step of the whole does to records, tasks and requests (`Deploys`) : most leave them
alone, the cleanup removes completed records, an upgrade removes them all, and a request, a
forced execution or an answer runs one segment of `execute_deployment`.

`Deploys.posts` : whatever a step does, it keeps books.
-/

set_option linter.unusedSectionVars false

namespace HunterFi

/-! ## Refunds of a deployment -/

/-- The record of a refund of the deployment `id`, by either of the two functions that refund. -/
def TransactionRecord.Refunds (id : String) (r : TransactionRecord) : Prop :=
  r.transactionType = .refund ∧ (r.description = "Refund for deployment: " ++ id ∨
    r.description = "Refund for failed deployment (ID: " ++ id ++ ")")

instance (id : String) (r : TransactionRecord) : Decidable (r.Refunds id) :=
  inferInstanceAs (Decidable (_ ∧ (_ ∨ _)))

/-- The amounts refunded for the deployment `id`, in order. -/
def refunds (id : String) (rs : List TransactionRecord) : List ℕ :=
  (rs.filter fun r => r.Refunds id).map TransactionRecord.amount

@[simp] theorem refunds_nil (id : String) : refunds id [] = [] :=
  rfl

@[simp] theorem refunds_append (id : String) (rs ss : List TransactionRecord) :
    refunds id (rs ++ ss) = refunds id rs ++ refunds id ss := by
  simp [refunds]

/-- Records that are no refunds are none of the deployment. -/
theorem refunds_eq_nil {id : String} {rs : List TransactionRecord}
    (h : ∀ r ∈ rs, r.transactionType ≠ .refund) : refunds id rs = [] := by
  rw [refunds, List.filter_eq_nil_iff.2 fun r hr => ?_, List.map_nil]
  simpa using fun hf => h r hr hf.1

/-- The refund of a record is one of its deployment. -/
theorem refunds_refundOf (P : Platform) (env : Env) (r : DeploymentRecord) (id : String) :
    (refundOf P env r).Refunds id ↔ r.deploymentId = id := by
  constructor
  · rintro ⟨-, h | h⟩
    · simpa [refundOf, Factory.newTransaction] using h
    · have h' := congrArg String.toList h
      simp [refundOf, Factory.newTransaction] at h'
  · rintro rfl
    exact ⟨rfl, Or.inl rfl⟩

/-! ## Resuming an execution -/

/-- The task that a segment leaves waiting, if it does. -/
def Progress.waiting (spawned : Bool) (caller : Principal) (deploymentId : String) :
    Progress → List Task
  | .awaiting record stage => [⟨spawned, caller, deploymentId, record, stage⟩]
  | .returned _ => []

/-- The result of a segment that ends its execution. -/
def Progress.result : Progress → Option (Except String DeploymentResult)
  | .awaiting _ _ => none
  | .returned result => some result

/-! ## Events of an execution -/

/-- The deployment whose execution an event starts, by force of an admin, or continues. -/
def World.executes (w : World) : Event → Option String
  | .forceExecuteDeployment env deploymentId =>
    if w.factory.isAdmin env then some deploymentId else none
  | .canisterCreated task _ _ _ => some task.deploymentId
  | .codeInstalled task _ _ _ => some task.deploymentId
  | .strategyInitialized task _ _ _ => some task.deploymentId
  | _ => none

/-- The events after which an execution ends, if its record is there : too few cycles, a call
that failed, a configuration that does not decode, and every answer of the last call. -/
def Event.ends (P : Platform) : Event → Prop
  | .forceExecuteDeployment env _ => env.cycles < creationCycles
  | .canisterCreated _ _ _ result => result.isOk = false
  | .codeInstalled task _ _ result => Deployment.installEnds P task.record result
  | .strategyInitialized _ _ _ _ => True
  | _ => False

namespace World

open Deployment

variable {P : Platform} {L : LedgerRule} {w w' : World} {env : Env} {spawned : Bool} {id : String}
  {p : Progress × Factory} {e : Event}

/-- What waits after a segment waited before, or is its execution. -/
@[simp] theorem tasks_resume : (w.resume P env spawned id p).tasks =
    p.1.waiting spawned env.caller id ++ w.tasks := by
  obtain ⟨⟨⟩ | ⟨⟩, f⟩ := p <;> rfl

/-- A segment returns the result of its execution, if that has ended. -/
@[simp] theorem returned_resume : (w.resume P env spawned id p).returned =
    p.1.result.map fun result => ⟨spawned, id, result⟩ := by
  obtain ⟨⟨⟩ | ⟨⟩, f⟩ := p <;> rfl

@[simp] theorem ended_resume : (w.resume P env spawned id p).ended =
    (p.1.result.map fun result => ⟨spawned, id, result⟩).toList ++ w.ended := by
  obtain ⟨⟨⟩ | ⟨⟩, f⟩ := p <;> rfl

@[simp] theorem requests_resume : (w.resume P env spawned id p).requests = w.requests := by
  obtain ⟨⟨⟩ | ⟨⟩, f⟩ := p <;> rfl

@[simp] theorem transfers_resume : (w.resume P env spawned id p).transfers = w.transfers := by
  obtain ⟨⟨⟩ | ⟨⟩, f⟩ := p <;> rfl

@[simp] theorem ledger_resume : (w.resume P env spawned id p).ledger = w.ledger := by
  obtain ⟨⟨⟩ | ⟨⟩, f⟩ := p <;> rfl

@[simp] theorem accepted_resume : (w.resume P env spawned id p).accepted = w.accepted := by
  obtain ⟨⟨⟩ | ⟨⟩, f⟩ := p <;> rfl

@[simp] theorem deposits_resume : (w.resume P env spawned id p).deposits = w.deposits := by
  obtain ⟨⟨⟩ | ⟨⟩, f⟩ := p <;> rfl

@[simp] theorem received_resume : (w.resume P env spawned id p).received = w.received := by
  obtain ⟨⟨⟩ | ⟨⟩, f⟩ := p <;> rfl

/-- The spawned task adds nothing to what a segment leaves. -/
theorem factory_resume {f : Factory} {ends : Prop} {left : ℕ} (spawned : Bool)
    (h : Outcome P env f id ends left p) :
    (w.resume P env spawned id p).factory = p.2 := by
  obtain ⟨⟨⟩ | ⟨⟩, g⟩ := p
  · rfl
  · cases spawned
    · rfl
    · exact h.spawnedReturn_eq

/-! ## The messages of an execution -/

/-- A forced execution is refused, or is a segment. -/
theorem next_forceExecuteDeployment
    (hn : next P L w (.forceExecuteDeployment env id) = some w') :
    (w.factory.isAdmin env = false ∧ w' = w.withFactory w.factory) ∨
      (w.factory.isAdmin env = true ∧
        w' = w.resume P env false id (executeDeployment P env w.factory id)) := by
  simp only [next, Api.forceExecuteDeployment, Factory.requireAdmin] at hn
  cases ha : w.factory.isAdmin env with
  | false =>
    simp only [ha, Bool.false_eq_true, if_false] at hn
    exact Or.inl ⟨rfl, (Option.some.inj hn).symm⟩
  | true =>
    simp only [ha, if_true] at hn
    exact Or.inr ⟨rfl, (Option.some.inj hn).symm⟩

/-- The creation of a canister answers an execution that waits for it. -/
theorem next_canisterCreated {task : Task} {time cycles : ℕ} {result : CallResult Principal}
    (hn : next P L w (.canisterCreated task time cycles result) = some w') :
    task ∈ w.tasks ∧ task.stage = .createCanister ∧
      w' = w.continueTask P task time cycles fun env =>
        afterCreateCanister P env w.factory task.deploymentId task.record result := by
  simp only [next] at hn
  split_ifs at hn with ht
  exact ⟨ht.1, ht.2, (Option.some.inj hn).symm⟩

/-- So does the installation of its code. -/
theorem next_codeInstalled {task : Task} {time cycles : ℕ} {result : CallResult Unit}
    (hn : next P L w (.codeInstalled task time cycles result) = some w') :
    ∃ canisterId, task ∈ w.tasks ∧ task.stage = .installCode canisterId ∧
      w' = w.continueTask P task time cycles fun env =>
        afterInstallCode P env w.factory task.deploymentId task.record canisterId result := by
  simp only [next] at hn
  cases hst : task.stage with
  | createCanister => simp [hst] at hn
  | initStrategy call => simp [hst] at hn
  | installCode canisterId =>
    simp only [hst] at hn
    split_ifs at hn with ht
    exact ⟨canisterId, ht, rfl, (Option.some.inj hn).symm⟩

/-- So does its initialisation. -/
theorem next_strategyInitialized {task : Task} {time cycles : ℕ} {result : CallResult Unit}
    (hn : next P L w (.strategyInitialized task time cycles result) = some w') :
    ∃ call, task ∈ w.tasks ∧ task.stage = .initStrategy call ∧
      w' = w.continueTask P task time cycles fun env =>
        afterInitStrategy P env w.factory task.deploymentId task.record call.canisterId
          result := by
  simp only [next] at hn
  cases hst : task.stage with
  | createCanister => simp [hst] at hn
  | installCode canisterId => simp [hst] at hn
  | initStrategy call =>
    simp only [hst] at hn
    split_ifs at hn with ht
    exact ⟨call, ht, rfl, (Option.some.inj hn).symm⟩

/-- A reply of the ledger is to a call that it has taken up. -/
theorem next_transferReturns {t : Transfer} {time cycles : ℕ}
    (hn : next P L w (.transferReturns t time cycles) = some w') :
    ∃ answer, t ∈ w.transfers ∧ t.answer = some answer ∧
      w' = w.transferReturns P t answer.result time cycles := by
  simp only [next] at hn
  cases hans : t.answer with
  | none => simp [hans] at hn
  | some answer =>
    simp only [hans] at hn
    split_ifs at hn with ht
    exact ⟨answer, ht, rfl, (Option.some.inj hn).symm⟩

/-! ## What a step does to the deployments -/

/-- Stored records are sound and waiting executions are of the strategy that has code. -/
structure Sound (w : World) : Prop where
  records : w.factory.Sound
  tasks : ∀ t ∈ w.tasks, t.record.strategyType = .selfHedging

/-- The state after an accepted request, before its deployment starts. -/
def accept (w : World) (env : Env) (g : Factory) : World :=
  { w with
    factory := g
    requests := ⟨env.caller, (w.factory.generateDeploymentId env).1, w.factory.deploymentFee,
      w.factory.balance env.caller - g.balance env.caller⟩ :: w.requests }

/-- What a step does to records, tasks and requests. -/
inductive Deploys (P : Platform) (w : World) : Event → World → Prop
  | still (e : Event) (w' : World) (env : Env) (rs : List TransactionRecord)
    (pays : Pays P env w.factory rs w'.factory) (norefund : ∀ r ∈ rs, r.transactionType ≠ .refund)
    (tasks : w'.tasks = w.tasks) (requests : w'.requests = w.requests)
    (returned : w'.returned = none) (ended : w'.ended = w.ended) (executes : w.executes e = none) :
    Deploys P w e w'
  | cleans (time cycles : ℕ) (g : Factory)
    (archives : Archives P ⟨time, P.id, cycles⟩ w.factory g) :
    Deploys P w (.cleanup time cycles) (w.withFactory g)
  | upgrades (tasks : w.tasks = []) : Deploys P w .upgrade (w.withFactory w.factory.upgrade)
  | unserialized (env : Env) (config : Config) (g : Factory) (passes : Passes env w.factory config)
    (posts : Posts P env w.factory [feeOf P env w.factory] g)
    (records : ∀ id, g.getDeploymentRecord id = w.factory.getDeploymentRecord id)
    (registry : SameRegistry (w.factory.generateDeploymentId env).2 g) :
    Deploys P w (.requestStrategy env config) (w.withFactory g)
  | requested (env : Env) (config : Config) (configData : List UInt8) (g : Factory)
    (p : Progress × Factory) (passes : Passes env w.factory config)
    (posts : Posts P env w.factory [feeOf P env w.factory] g)
    (records : ∀ id, g.getDeploymentRecord id =
      if id = (w.factory.generateDeploymentId env).1 then some (newRecord env w.factory configData)
      else w.factory.getDeploymentRecord id)
    (registry : SameRegistry (w.factory.generateDeploymentId env).2 g)
    (outcome : Outcome P env g (w.factory.generateDeploymentId env).1
      (env.cycles < creationCycles) 4 p) :
    Deploys P w (.requestStrategy env config)
      ((w.accept env g).resume P env true (w.factory.generateDeploymentId env).1 p)
  | forced (env : Env) (id : String) (p : Progress × Factory)
    (executes : w.executes (.forceExecuteDeployment env id) = some id)
    (outcome : Outcome P env w.factory id (env.cycles < creationCycles) 4 p) :
    Deploys P w (.forceExecuteDeployment env id) (w.resume P env false id p)
  | continued (e : Event) (task : Task) (time cycles : ℕ) (p : Progress × Factory)
    (mem : task ∈ w.tasks) (executes : w.executes e = some task.deploymentId)
    (outcome : Outcome P ⟨time, task.caller, cycles⟩ w.factory task.deploymentId
      (e.ends P) task.stage.left p) :
    Deploys P w e (resume { w with tasks := w.tasks.erase task } P ⟨time, task.caller, cycles⟩
      task.spawned task.deploymentId p)

/-- What a strategy request leads to, with the first segment of its deployment. -/
inductive Requested (P : Platform) (w : World) (env : Env) (config : Config) : World → Prop
  | refused (h : ¬Passes env w.factory config) : Requested P w env config (w.withFactory w.factory)
  | unserialized (e : String) (g : Factory) (h : Passes env w.factory config)
    (encode : P.encodeOne config = .error e)
    (posts : Posts P env w.factory [feeOf P env w.factory] g)
    (records : ∀ id, g.getDeploymentRecord id = w.factory.getDeploymentRecord id)
    (registry : SameRegistry (w.factory.generateDeploymentId env).2 g) :
    Requested P w env config (w.withFactory g)
  | accepted (configData : List UInt8) (g : Factory) (h : Passes env w.factory config)
    (encode : P.encodeOne config = .ok configData)
    (posts : Posts P env w.factory [feeOf P env w.factory] g)
    (records : ∀ id, g.getDeploymentRecord id =
      if id = (w.factory.generateDeploymentId env).1 then some (newRecord env w.factory configData)
      else w.factory.getDeploymentRecord id)
    (registry : SameRegistry (w.factory.generateDeploymentId env).2 g) (sound : g.Sound)
    (outcome : Outcome P env g (w.factory.generateDeploymentId env).1
      (env.cycles < creationCycles) 4
      (executeDeployment P env g (w.factory.generateDeploymentId env).1)) :
    Requested P w env config ((w.accept env g).resume P env true
      (w.factory.generateDeploymentId env).1
      (executeDeployment P env g (w.factory.generateDeploymentId env).1))

/-- A request is refused, or charged in vain, or accepted. -/
theorem requestStrategy_requested (h : w.Sound) (P : Platform) (env : Env) (config : Config) :
    Requested P w env config (w.requestStrategy P env config) := by
  have ho := requestStrategy_outcome P env w.factory config
  rw [← Api.request_eq] at ho
  unfold requestStrategy
  generalize Api.request P env w.factory config = q at ho
  cases ho with
  | refused message hn => exact .refused hn
  | unserialized message e' g hp encode posts records registry =>
    exact .unserialized e' g hp encode posts records registry
  | accepted configData g hp encode posts records registry =>
    have hg : g.Sound := hp.sound h.records records
    exact .accepted configData g hp encode posts records registry hg (executeDeployment_outcome hg)

theorem requestStrategy_deploys (h : w.Sound) (env : Env) (config : Config) :
    Deploys P w (.requestStrategy env config) (w.requestStrategy P env config) := by
  have hr := requestStrategy_requested h P env config
  generalize w.requestStrategy P env config = w' at hr
  cases hr with
  | refused hn => exact .still _ _ env [] (.refl _) (by simp) rfl rfl rfl rfl rfl
  | unserialized e' g hp encode posts records registry =>
    exact .unserialized env config g hp posts records registry
  | accepted configData g hp encode posts records registry hg outcome =>
    exact .requested env config configData g _ hp posts records registry outcome

/-- A call of the ledger leaves the deployments. -/
theorem issue_deploys (he : w.executes e = none) (purpose : Purpose) (caller : Principal)
    (args : Except String TransferArgs) : Deploys P w e (w.issue purpose caller args) := by
  cases args with
  | error message => exact .still e _ default [] (.refl _) (by simp) rfl rfl rfl rfl he
  | ok args => exact .still e _ default [] (.refl _) (by simp) rfl rfl rfl rfl he

theorem ledgerAnswers_deploys {t : Transfer} {answer : LedgerAnswer}
    (h : w.ledgerAnswers P L t answer = some w') : Deploys P w (.ledgerAnswers t answer) w' := by
  unfold ledgerAnswers at h
  split_ifs at h with ha
  · obtain ⟨l, -, rfl⟩ := Option.map_eq_some_iff.1 h
    exact .still _ _ default [] (.refl _) (by simp) rfl rfl rfl rfl rfl
  · obtain rfl := Option.some.inj h
    exact .still _ _ default [] (.refl _) (by simp) rfl rfl rfl rfl rfl

theorem transferReturns_deploys (t : Transfer) (result : CallResult ℕ) (time cycles : ℕ) :
    Deploys P w (.transferReturns t time cycles) (w.transferReturns P t result time cycles) := by
  unfold transferReturns
  cases t.purpose with
  | deposit user amount =>
    refine .still _ _ ⟨time, t.caller, cycles⟩ _
      (processDepositAnswer_pays P _ _ user amount result) (fun r hr => ?_) rfl rfl rfl rfl rfl
    split_ifs at hr <;> simp_all [depositOf]
  | withdrawUser user amount =>
    refine .still _ _ ⟨time, t.caller, cycles⟩ _
      (userWithdrawFundsAnswer_pays P _ _ user amount result) (fun r hr => ?_) rfl rfl rfl rfl rfl
    split_ifs at hr <;> simp_all [withdrawalOf]
  | withdrawIcp recipient amount retries =>
    dsimp only
    cases Payment.withdrawFundsAnswer paymentConfig.maxWithdrawalRetries retries result with
    | again retries => exact .still _ _ default [] (.refl _) (by simp) rfl rfl rfl rfl rfl
    | done result => exact .still _ _ default [] (.refl _) (by simp) rfl rfl rfl rfl rfl

/-- Every step is of one of the seven kinds. -/
theorem next_deploys (h : w.Sound) (hn : next P L w e = some w') : Deploys P w e w' := by
  cases e with
  | depositIcp env amount =>
    obtain rfl := Option.some.inj hn
    exact issue_deploys rfl _ _ _
  | withdrawUserIcp env amount =>
    obtain rfl := Option.some.inj hn
    exact issue_deploys rfl _ _ _
  | withdrawIcp env recipient amount =>
    obtain rfl := Option.some.inj hn
    exact issue_deploys rfl _ _ _
  | requestStrategy env config =>
    obtain rfl := Option.some.inj hn
    exact requestStrategy_deploys h env config
  | forceExecuteDeployment env id =>
    rcases next_forceExecuteDeployment hn with ⟨ha, rfl⟩ | ⟨ha, rfl⟩
    · exact .still _ _ env [] (.refl _) (by simp) rfl rfl rfl rfl (if_neg (by simp [ha]))
    · exact .forced env id _ (if_pos ha) (executeDeployment_outcome h.records)
  | adjustBalance env user amount reason =>
    obtain rfl := Option.some.inj hn
    refine .still _ _ env _ (adjustBalance_pays P env w.factory user amount reason)
      (fun r hr => ?_) rfl rfl rfl rfl rfl
    split_ifs at hr <;> simp_all [adjustmentOf]
  | setDeploymentFee env fee =>
    obtain rfl := Option.some.inj hn
    exact .still _ _ env [] (setDeploymentFee_pays P env w.factory fee) (by simp) rfl rfl rfl rfl
      rfl
  | addAdmin env principal =>
    obtain rfl := Option.some.inj hn
    exact .still _ _ env [] (addAdmin_pays P env w.factory principal) (by simp) rfl rfl rfl rfl
      rfl
  | removeAdmin env principal =>
    obtain rfl := Option.some.inj hn
    exact .still _ _ env [] (removeAdmin_pays P env w.factory principal) (by simp) rfl rfl rfl rfl
      rfl
  | cleanup time cycles =>
    obtain rfl := Option.some.inj hn
    exact .cleans time cycles _ (executeCleanupTasks_archives h.records)
  | upgrade =>
    simp only [next] at hn
    split_ifs at hn with hidle
    obtain rfl := Option.some.inj hn
    exact .upgrades hidle.2
  | userTransfer sender args =>
    obtain ⟨l, -, rfl⟩ := Option.map_eq_some_iff.1 hn
    exact .still _ _ default [] (.refl _) (by simp) rfl rfl rfl rfl rfl
  | ledgerAnswers t answer =>
    simp only [next] at hn
    split_ifs at hn with ht
    exact ledgerAnswers_deploys hn
  | transferReturns t time cycles =>
    obtain ⟨answer, -, -, rfl⟩ := next_transferReturns hn
    exact transferReturns_deploys t answer.result time cycles
  | canisterCreated task time cycles result =>
    obtain ⟨ht, hst, rfl⟩ := next_canisterCreated hn
    refine .continued _ task time cycles _ ht rfl ?_
    rw [hst]
    exact afterCreateCanister_outcome h.records (h.tasks task ht) result
  | codeInstalled task time cycles result =>
    obtain ⟨canisterId, ht, hst, rfl⟩ := next_codeInstalled hn
    refine .continued _ task time cycles _ ht rfl ?_
    rw [hst]
    exact afterInstallCode_outcome h.records (h.tasks task ht) canisterId result
  | strategyInitialized task time cycles result =>
    obtain ⟨call, ht, hst, rfl⟩ := next_strategyInitialized hn
    refine .continued _ task time cycles _ ht rfl ?_
    rw [hst]
    exact afterInitStrategy_outcome h.records (h.tasks task ht) call.canisterId result

/-- Every step is one of the kinds. -/
theorem step_deploys (h : w.Sound) (hs : step P L w e = some w') : Deploys P w e w' := by
  unfold step at hs
  split_ifs at hs
  exact next_deploys h hs

/-! ## The books along a step -/

/-- A segment of an execution posts refunds, if anything. -/
theorem posts_of_outcome {f : Factory} {ends : Prop} {left : ℕ}
    (h : Outcome P env f id ends left p) :
    ∃ rs, Posts P env f rs p.2 ∧ ∀ r ∈ rs, r.transactionType = .refund := by
  cases h with
  | lost message hr => exact ⟨[], .refl f, by simp⟩
  | waits r r' record stage g hr hends follows status writes => exact ⟨[], writes.posts, by simp⟩
  | failed r r' message g hr hends follows status writes =>
    exact ⟨_, writes.posts, by simp [refundOf]⟩
  | deployed r r' metadata canisterId g hr hends follows status _ _ writes =>
    have hidle : Posts P env f [] (f.storeStrategyMetadata metadata) :=
      Posts.idle (fun _ => rfl) (fun _ => rfl) rfl
    exact ⟨[], hidle.trans writes.posts, by simp⟩

/-- Every step keeps books. -/
theorem Deploys.posts (hd : Deploys P w e w') :
    ∃ env rs, Posts P env w.factory rs w'.factory := by
  cases hd with
  | still e w' env rs pays => exact ⟨env, rs, pays.posts⟩
  | cleans time cycles g archives => exact ⟨_, [], archives.posts⟩
  | upgrades tasks => exact ⟨default, [], upgrade_posts⟩
  | unserialized env config g passes posts => exact ⟨env, _, posts⟩
  | requested env config configData g p passes posts records registry outcome =>
    obtain ⟨rs, hrs, -⟩ := posts_of_outcome outcome
    refine ⟨env, _ ++ rs, posts.trans ?_⟩
    rw [factory_resume (w := w.accept env g) _ outcome]
    exact hrs
  | forced env id p executes outcome =>
    obtain ⟨rs, hrs, -⟩ := posts_of_outcome outcome
    refine ⟨env, rs, ?_⟩
    rw [factory_resume _ outcome]
    exact hrs
  | continued e task time cycles p mem executes outcome =>
    obtain ⟨rs, hrs, -⟩ := posts_of_outcome outcome
    refine ⟨⟨time, task.caller, cycles⟩, rs, ?_⟩
    rw [factory_resume (w := { w with tasks := w.tasks.erase task }) _ outcome]
    exact hrs

theorem kept_start (env : Env) (ledger : Ledger) : Kept (start env ledger).factory :=
  ⟨fun _ => rfl, fun _ => Movement.covered_nil⟩

end World

end HunterFi
