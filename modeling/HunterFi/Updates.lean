import HunterFi.Money

/-!
# Accounts along a run

`updates` says which movements an event makes on which accounts : a deposit and a withdrawal whose
call came back with a block index, the fee of a request, an adjustment by an admin, and the refund
of a stored record after a failure. `step_updates` : a step makes exactly these and records them.

So the three counters of an account are the replay of its updates along the run, whatever comes
between (`account_balances`).
-/

set_option linter.unusedSectionVars false

namespace HunterFi

/-! ## Updates -/

/-- A movement on the account of a user, and what it is for. -/
structure Update where
  user : Principal
  transactionType : TransactionType
  amount : ℕ
  deriving DecidableEq

/-- What a record says of the account of its user. -/
def TransactionRecord.update (r : TransactionRecord) : Update :=
  ⟨r.user, r.transactionType, r.amount⟩

/-- What the update moves on the account, if it does. -/
def Update.movement (u : Update) : Option Movement :=
  match u.transactionType with
  | .deposit => some (.credit u.amount)
  | .refund => some (.credit u.amount)
  | .adminAdjustment => some (.credit u.amount)
  | .deploymentFee => some (.debit u.amount)
  | .withdrawal => some (.debit u.amount)
  | .transfer => none

@[simp] theorem TransactionRecord.movement_update (r : TransactionRecord) :
    r.update.movement = r.movement := by
  unfold update Update.movement TransactionRecord.movement
  cases r.transactionType <;> rfl

/-- The movements on the account of `user`. -/
def movementsOf (user : Principal) (us : List Update) : List Movement :=
  (us.filter fun u => u.user = user).filterMap Update.movement

@[simp] theorem movementsOf_nil (user : Principal) : movementsOf user [] = [] :=
  rfl

@[simp] theorem movementsOf_append (user : Principal) (us vs : List Update) :
    movementsOf user (us ++ vs) = movementsOf user us ++ movementsOf user vs := by
  simp [movementsOf]

/-- The history of an account, by the updates of a list of records. -/
theorem movements_eq (user : Principal) (rs : List TransactionRecord) :
    movements user rs = movementsOf user (rs.map TransactionRecord.update) := by
  unfold movements movementsOf
  rw [List.filter_map, List.filterMap_map]
  exact List.filterMap_congr fun r _ => r.movement_update.symm

instance (env : Env) (f : Factory) (config : Config) :
    Decidable (Deployment.Passes env f config) :=
  decidable_of_iff (env.caller ≠ .anonymous ∧ config.validate = .ok () ∧
      config.getStrategyType = .selfHedging ∧ 1 ≤ f.deploymentFee ∧ f.deploymentFee ≤ u64Max ∧
      f.deploymentFee ≤ f.balance env.caller)
    ⟨fun ⟨h₁, h₂, h₃, h₄, h₅, h₆⟩ => ⟨h₁, h₂, h₃, h₄, h₅, h₆⟩,
      fun ⟨h₁, h₂, h₃, h₄, h₅, h₆⟩ => ⟨h₁, h₂, h₃, h₄, h₅, h₆⟩⟩

/-- The configuration has an encoding. -/
def Platform.Encodes (P : Platform) (config : Config) : Bool :=
  (P.encodeOne config).toBool

/-- The execution goes on after an answer of `install_code` or ends well after one of the init
method. -/
def Platform.GoesOn (P : Platform) (record : DeploymentRecord) (result : CallResult Unit) : Bool :=
  result.isOk && (P.decodeSelfHedging record.configData).toBool

/-- The fee of a stored record goes back to its owner. -/
def Factory.refundUpdates (f : Factory) (id : String) : List Update :=
  ((f.getDeploymentRecord id).map fun r => ⟨r.owner, .refund, r.feeAmount⟩).toList

/-- The movements that an event makes on accounts. -/
def World.updates (P : Platform) (w : World) : Event → List Update
  | .adjustBalance env user amount _ =>
    if w.factory.isAdmin env then [⟨user, .adminAdjustment, amount⟩] else []
  | .requestStrategy env config =>
    if Deployment.Passes env w.factory config then
      if P.Encodes config ∧ env.cycles < creationCycles then
        [⟨env.caller, .deploymentFee, w.factory.deploymentFee⟩,
          ⟨env.caller, .refund, w.factory.deploymentFee⟩]
      else [⟨env.caller, .deploymentFee, w.factory.deploymentFee⟩]
    else []
  | .forceExecuteDeployment env id =>
    if w.factory.isAdmin env ∧ env.cycles < creationCycles then w.factory.refundUpdates id else []
  | .canisterCreated task _ _ result =>
    if result.isOk then [] else w.factory.refundUpdates task.deploymentId
  | .codeInstalled task _ _ result =>
    if P.GoesOn task.record result then [] else w.factory.refundUpdates task.deploymentId
  | .strategyInitialized task _ _ result =>
    if P.GoesOn task.record result then [] else w.factory.refundUpdates task.deploymentId
  | .transferReturns t _ _ =>
    match t.purpose, t.answer with
    | .deposit user amount, some answer =>
      if answer.result.isOk then [⟨user, .deposit, amount⟩] else []
    | .withdrawUser user amount, some answer =>
      if answer.result.isOk ∧ amount ≤ w.factory.balance user then [⟨user, .withdrawal, amount⟩]
      else []
    | _, _ => []
  | _ => []

/-! ## What a segment records -/

/-- A segment makes the updates `us` and records them. -/
def Makes (P : Platform) (f g : Factory) (us : List Update) : Prop :=
  ∃ env rs, Posts P env f rs g ∧ rs.map TransactionRecord.update = us

variable {P : Platform} {env : Env} {f g : Factory} {id : String}

/-- What posts nothing makes no update. -/
theorem makes_nil (h : Posts P env f [] g) : Makes P f g [] :=
  ⟨env, [], h, rfl⟩

theorem makes_refl (f : Factory) : Makes P f f [] :=
  ⟨default, [], .refl f, rfl⟩

/-- A segment that records `r` if a condition is met. -/
theorem makes_ite {c : Prop} [Decidable c] {r : TransactionRecord} {u : Update}
    (h : Posts P env f (if c then [r] else []) g) (hr : r.update = u) :
    Makes P f g (if c then [u] else []) := by
  refine ⟨env, _, h, ?_⟩
  split_ifs
  · rw [List.map_singleton, hr]
  · rfl

theorem refundUpdates_none (hr : f.getDeploymentRecord id = none) : f.refundUpdates id = [] := by
  rw [Factory.refundUpdates, hr]
  rfl

/-- A refund is the update of the record's owner. -/
theorem refundUpdates_some {r : DeploymentRecord} (hr : f.getDeploymentRecord id = some r) :
    f.refundUpdates id = [⟨r.owner, .refund, r.feeAmount⟩] := by
  rw [Factory.refundUpdates, hr]
  rfl

namespace Deployment

variable {record : DeploymentRecord} {result : CallResult Unit} {p : Progress × Factory}

/-- Before its last answer, an execution refunds its record exactly when it ends. -/
theorem Outcome.makes {ends : Prop} {left : ℕ} {us : List Update}
    (h : Outcome P env f id ends left p) (hleft : 1 < left)
    (hends : ends → us = f.refundUpdates id) (hgo : ¬ends → us = []) : Makes P f p.2 us := by
  cases h with
  | lost message hr =>
    by_cases he : ends
    · rw [hends he, refundUpdates_none hr]
      exact makes_refl f
    · rw [hgo he]
      exact makes_refl f
  | waits r r' record stage g hr he follows status writes =>
    rw [hgo he]
    exact makes_nil writes.posts
  | failed r r' message g hr he follows status writes =>
    rw [hends he, refundUpdates_some hr]
    exact ⟨env, _, writes.posts, rfl⟩
  | deployed r r' metadata canisterId g hr he follows status _ _ writes last =>
    exact absurd last (Nat.not_le.2 hleft)

/-- The installation ends a deployment exactly if it does not go on. -/
theorem installEnds_iff : installEnds P record result ↔ ¬P.GoesOn record result = true := by
  unfold installEnds Platform.GoesOn
  cases result with
  | error code message => simp [CallResult.isOk]
  | ok _ => cases P.decodeSelfHedging record.configData <;> simp [CallResult.isOk, Except.toBool]

/-- After its last answer, an execution refunds its record exactly when it does not go on. -/
theorem InitOutcome.makes {canisterId : Principal}
    (h : InitOutcome P env f id record canisterId result p) :
    Makes P f p.2 (if P.GoesOn record result then [] else f.refundUpdates id) := by
  cases h with
  | lost message hr =>
    rw [refundUpdates_none hr, ite_self]
    exact makes_refl f
  | failed r r' message g hr hends follows status writes =>
    rw [if_neg (installEnds_iff.1 hends), refundUpdates_some hr]
    exact ⟨env, _, writes.posts, rfl⟩
  | deployed r r' m g hr hgo metadata follows status canister writes =>
    rw [if_pos (not_not.1 fun h => hgo (installEnds_iff.2 h))]
    have hidle : Posts P env f [] (f.storeStrategyMetadata m) :=
      Posts.idle (fun _ => rfl) (fun _ => rfl) rfl
    exact makes_nil (hidle.trans writes.posts)

end Deployment

/-! ## The counters of an account -/

/-- The counters of an account. -/
def UserAccount.totals (a : UserAccount) : Totals :=
  ⟨a.balance, a.totalDeposited, a.totalConsumed⟩

/-- The counters of the account of a user. -/
def Factory.totals (f : Factory) (user : Principal) : Totals :=
  (f.getUserAccount user).totals

theorem Factory.totals_storeUserAccount (f : Factory) (account : UserAccount) (user : Principal) :
    (f.storeUserAccount account).totals user =
      if user = account.owner then account.totals else f.totals user := by
  unfold totals
  rw [getUserAccount_storeUserAccount]
  split_ifs <;> rfl

theorem Factory.totals_credit (f : Factory) (env : Env) (u : Principal) (amount : ℕ)
    (user : Principal) : (f.credit env u amount).totals user =
      if u = user then (f.totals u).apply u64Max (.credit amount) else f.totals user := by
  rw [credit, totals_storeUserAccount, owner_getUserAccount]
  exact if_congr eq_comm rfl rfl

theorem Factory.totals_debit (f : Factory) (u : Principal) (amount : ℕ) (user : Principal) :
    (f.debit u amount).totals user =
      if u = user then (f.totals u).apply u64Max (.debit amount) else f.totals user := by
  rw [debit, totals_storeUserAccount, owner_getUserAccount]
  exact if_congr eq_comm rfl rfl

namespace Posts

variable {rs : List TransactionRecord}

/-- A segment moves the counters of each user by the movements it records. -/
theorem totals_eq (hp : Posts P env f rs g) (user : Principal) :
    g.totals user = (movements user rs).foldl (Totals.apply u64Max) (f.totals user) := by
  induction hp with
  | idle accounts _ _ =>
    unfold Factory.totals Factory.getUserAccount
    rw [accounts]
    rfl
  | credit f u amount ty description movement =>
    rw [movements_singleton movement, Factory.user_newTransaction]
    refine (f.totals_credit env u amount user).trans ?_
    split_ifs with h
    · rw [h]
      rfl
    · rfl
  | debit f u amount ty description _ movement =>
    rw [movements_singleton movement, Factory.user_newTransaction]
    refine (f.totals_debit u amount user).trans ?_
    split_ifs with h
    · rw [h]
      rfl
    · rfl
  | trans _ _ ihf ihg => rw [ihg, ihf, movements_append, List.foldl_append]

end Posts

namespace Makes

variable {us : List Update}

/-- The totals of an account are those of its movements. -/
theorem totals_eq (h : Makes P f g us) (user : Principal) :
    g.totals user = (movementsOf user us).foldl (Totals.apply u64Max) (f.totals user) := by
  obtain ⟨env, rs, hposts, rfl⟩ := h
  rw [hposts.totals_eq, movements_eq]

/-- An account without movements stays as it is. -/
theorem account_eq (h : Makes P f g us) {user : Principal} (hu : movementsOf user us = []) :
    g.userAccounts.get? user = f.userAccounts.get? user := by
  obtain ⟨env, rs, hposts, rfl⟩ := h
  exact hposts.account_eq ((movements_eq user rs).trans hu)

/-- The movements are recorded. -/
theorem movements_eq (h : Makes P f g us) (user : Principal) :
    movements user g.records = movements user f.records ++ movementsOf user us := by
  obtain ⟨env, rs, hposts, rfl⟩ := h
  rw [hposts.records_eq, movements_append, HunterFi.movements_eq user rs]

/-- The records are those of the updates. -/
theorem updates_eq (h : Makes P f g us) : g.records.map TransactionRecord.update =
    f.records.map TransactionRecord.update ++ us := by
  obtain ⟨env, rs, hposts, rfl⟩ := h
  rw [hposts.records_eq, List.map_append]

theorem kept (h : Makes P f g us) (hk : Kept f) : Kept g := by
  obtain ⟨env, rs, hposts, rfl⟩ := h
  exact hposts.kept hk

end Makes

namespace World

open Deployment

variable {L : LedgerRule} {w w' : World} {e : Event}

/-! ## What a step records -/

theorem transferReturns_makes {t : Transfer} {answer : LedgerAnswer} {time cycles : ℕ}
    (ha : t.answer = some answer) :
    Makes P w.factory (w.transferReturns P t answer.result time cycles).factory
      (w.updates P (.transferReturns t time cycles)) := by
  unfold transferReturns updates
  simp only [ha]
  cases t.purpose with
  | deposit user amount =>
    exact makes_ite (processDepositAnswer_pays P ⟨time, t.caller, cycles⟩ w.factory user amount
      answer.result).posts rfl
  | withdrawUser user amount =>
    exact makes_ite (userWithdrawFundsAnswer_pays P ⟨time, t.caller, cycles⟩ w.factory user amount
      answer.result).posts rfl
  | withdrawIcp recipient amount retries =>
    dsimp only
    cases Payment.withdrawFundsAnswer paymentConfig.maxWithdrawalRetries retries answer.result with
    | again retries => exact makes_refl _
    | done result => exact makes_refl _

theorem Asks.makes {config : Config} (h : Asks P w env config w') :
    Makes P w.factory w'.factory (w.updates P (.requestStrategy env config)) := by
  rw [updates]
  cases h with
  | refused hn =>
    rw [if_neg hn]
    exact makes_refl _
  | unserialized g passes message encode posts =>
    rw [if_pos passes, if_neg fun h => by simp [Platform.Encodes, encode, Except.toBool] at h]
    exact ⟨env, _, posts, rfl⟩
  | waits w' task r passes cycles posts =>
    rw [if_pos passes, if_neg fun h => absurd h.2 (Nat.not_lt.2 cycles)]
    exact ⟨env, _, posts, rfl⟩
  | failed w' configData passes encode cycles posts =>
    rw [if_pos passes, if_pos ⟨by simp [Platform.Encodes, encode, Except.toBool], cycles⟩]
    exact ⟨env, _, posts, rfl⟩

/-- An execution that is forced. -/
theorem forceExecuteDeployment_makes (h : w.Sound)
    (hn : next P L w (.forceExecuteDeployment env id) = some w') :
    Makes P w.factory w'.factory (w.updates P (.forceExecuteDeployment env id)) := by
  rw [updates]
  rcases next_forceExecuteDeployment hn with ⟨ha, rfl⟩ | ⟨ha, rfl⟩
  · rw [if_neg fun h => by simp [ha] at h]
    exact makes_refl _
  · have ho : Outcome P env w.factory id (env.cycles < creationCycles) 4
        (executeDeployment P env w.factory id) := executeDeployment_outcome h.records
    rw [factory_resume _ ho]
    exact ho.makes (by decide) (fun he => if_pos ⟨ha, he⟩) (fun he => if_neg fun h => he h.2)

/-- An execution that goes on with an answer. -/
theorem credits_makes (h : w.Sound) (he : e.Credits) (hn : next P L w e = some w') :
    Makes P w.factory w'.factory (w.updates P e) := by
  cases e with
  | adjustBalance env user amount reason =>
    obtain rfl := Option.some.inj hn
    exact makes_ite (adjustBalance_pays P env w.factory user amount reason).posts rfl
  | forceExecuteDeployment env id => exact forceExecuteDeployment_makes h hn
  | canisterCreated task time cycles result =>
    obtain ⟨ht, -, rfl⟩ := next_canisterCreated hn
    have ho : Outcome P ⟨time, task.caller, cycles⟩ w.factory task.deploymentId
        (result.isOk = false) 3 (afterCreateCanister P ⟨time, task.caller, cycles⟩ w.factory
          task.deploymentId task.record result) :=
      afterCreateCanister_outcome h.records (h.tasks task ht) result
    rw [continueTask, factory_resume _ ho]
    exact ho.makes (by decide) (fun he => if_neg (by simp [he]))
      (fun he => if_pos (by simpa using he))
  | codeInstalled task time cycles result =>
    obtain ⟨canisterId, ht, -, rfl⟩ := next_codeInstalled hn
    have ho : Outcome P ⟨time, task.caller, cycles⟩ w.factory task.deploymentId
        (installEnds P task.record result) 2 (afterInstallCode P ⟨time, task.caller, cycles⟩
          w.factory task.deploymentId task.record canisterId result) :=
      afterInstallCode_outcome h.records (h.tasks task ht) canisterId result
    rw [continueTask, factory_resume _ ho]
    exact ho.makes (by decide) (fun he => if_neg (installEnds_iff.1 he))
      (fun he => if_pos (not_not.1 fun hgo => he (installEnds_iff.2 hgo)))
  | strategyInitialized task time cycles result =>
    obtain ⟨call, ht, -, rfl⟩ := next_strategyInitialized hn
    have hty := h.tasks task ht
    rw [continueTask, factory_resume _ (afterInitStrategy_outcome h.records hty call.canisterId
      result)]
    exact (afterInitStrategy_initOutcome h.records hty call.canisterId result).makes
  | _ => exact he.elim

/-- A step makes exactly the updates of its event. -/
theorem next_makes (h : w.Sound) (hn : next P L w e = some w') :
    Makes P w.factory w'.factory (w.updates P e) := by
  cases next_moves h hn with
  | quiet e w' env he posts same =>
    cases e <;> first | exact makes_nil posts | exact he.elim
  | credits e w' env rs he posts credits same => exact credits_makes h he hn
  | asks env config w' asks => exact asks.makes
  | issues e purpose caller args issues => cases issues <;> exact makes_refl _
  | transfers sender args l rule => exact makes_refl _
  | refuses t answer mem open_ refused => exact makes_refl _
  | accepts t answer l mem open_ accepted rule => exact makes_refl _
  | returns t answer time cycles mem ans => exact transferReturns_makes ans

/-- A step makes its updates and no others. -/
theorem step_makes (h : w.Sound) (hs : step P L w e = some w') :
    Makes P w.factory w'.factory (w.updates P e) := by
  unfold step at hs
  split_ifs at hs
  exact next_makes h hs

/-! ## Accounts along a run -/

/-- The movements on the account of `user` along a run. -/
def historyOf (P : Platform) (L : LedgerRule) (w : World) (es : List Event) (user : Principal) :
    List Movement :=
  movementsOf user (Runs.collect (step P L) (updates P) w es)

/-- The event asks for a debit that the balance does not cover. -/
def Uncovered (w : World) : Event → Prop
  | .requestStrategy env _ => w.factory.balance env.caller < w.factory.deploymentFee
  | .withdrawUserIcp env amount => w.factory.balance env.caller < amount
  | .transferReturns t _ _ => ∃ user amount, t.purpose = .withdrawUser user amount ∧
      w.factory.balance user < amount
  | _ => False

/-- The counters of an account agree with its history : every movement is in them, and while the
credits fit in a `u64` they add up. -/
structure Balanced (a : UserAccount) (ms : List Movement) : Prop where
  totals : a.totals = Totals.replay u64Max ms
  sum : Movement.credits ms ≤ u64Max → a.balance + a.totalConsumed = a.totalDeposited
  balance : Movement.credits ms ≤ u64Max → a.balance + Movement.debits ms = Movement.credits ms
  le : a.balance ≤ a.totalDeposited

/-- If the balance covers each debit, the account balances. -/
theorem balanced_of_totals {a : UserAccount} {ms : List Movement}
    (h : a.totals = Totals.replay u64Max ms) (hc : Movement.Covered u64Max ms) : Balanced a ms := by
  have hsum := Totals.balance_add_consumed hc
  have hbalance := Totals.balance_add_debits hc
  have hle := Totals.balance_le_deposited hc
  rw [← h] at hsum hbalance hle
  exact ⟨h, hsum, hbalance, hle⟩

theorem factory_issue (purpose : Purpose) (caller : Principal)
    (args : Except String TransferArgs) : (w.issue purpose caller args).factory = w.factory := by
  cases args <;> rfl

/-- A debit that is not covered leaves the factory as it is. -/
theorem factory_of_uncovered (h : w.Sound) (hu : w.Uncovered e) (hs : step P L w e = some w') :
    w'.factory = w.factory := by
  obtain ⟨hm, -⟩ := step_moves h hs
  cases e with
  | requestStrategy env config =>
    cases hm with
    | quiet _ _ _ he => exact he.elim
    | credits _ _ _ _ he => exact he.elim
    | asks env config w' asks =>
      cases asks with
      | refused hn => rfl
      | unserialized g passes => exact absurd passes.covered (Nat.not_le.2 hu)
      | waits w' task r passes => exact absurd passes.covered (Nat.not_le.2 hu)
      | failed w' configData passes => exact absurd passes.covered (Nat.not_le.2 hu)
    | issues e purpose caller args issues => rfl
  | withdrawUserIcp env amount =>
    unfold step at hs
    split_ifs at hs
    obtain rfl := Option.some.inj hs
    exact factory_issue _ _ _
  | transferReturns t time cycles =>
    obtain ⟨user, amount, hp, hlt⟩ := hu
    cases hm with
    | quiet _ _ _ he => exact he.elim
    | credits _ _ _ _ he => exact he.elim
    | issues e purpose caller args issues => rfl
    | returns t answer time cycles mem ans =>
      unfold transferReturns
      rw [hp]
      rcases Payment.userWithdrawFundsAnswer_cases P ⟨time, t.caller, cycles⟩ w.factory user amount
          answer.result with ⟨-, hle, -⟩ | ⟨-, e, heq⟩
      · exact absurd hle (Nat.not_le.2 hlt)
      · exact congrArg Prod.snd heq
  | _ => exact hu.elim

/-- What is known of a state and of the updates made on the way to it. -/
structure Accounted (w : World) (us : List Update) : Prop where
  sound : w.Sound
  kept : Kept w.factory
  records : ∀ user, movements user w.factory.records = movementsOf user us
  totals : ∀ user, w.factory.totals user = Totals.replay u64Max (movementsOf user us)

theorem accounted_start (env : Env) (ledger : Ledger) : (start env ledger).Accounted [] :=
  ⟨sound_start env ledger, kept_start env ledger, fun _ => rfl, fun _ => rfl⟩

/-- The accounts of a run are those of its updates. -/
theorem step_accounted {us : List Update} (h : w.Accounted us) (hs : step P L w e = some w') :
    w'.Accounted (us ++ w.updates P e) := by
  have hm := step_makes h.sound hs
  refine ⟨(step_deploys h.sound hs).sound h.sound, hm.kept h.kept, fun user => ?_, fun user => ?_⟩
  · rw [hm.movements_eq, h.records, movementsOf_append]
  · rw [hm.totals_eq, h.totals, movementsOf_append, Totals.replay, Totals.replay, List.foldl_append]

/-- The accounts of a reachable state are balanced, and a debit that is not covered changes
nothing. -/
theorem account_balances (P : Platform) (L : LedgerRule) (env : Env) (ledger : Ledger)
    (es : List Event) {w : World} (hrun : Runs.run (step P L) (start env ledger) es = some w) :
    (∀ user, Balanced (w.factory.getUserAccount user)
      (historyOf P L (start env ledger) es user)) ∧
    ∀ e w', w.Uncovered e → step P L w e = some w' → w'.factory = w.factory := by
  have h : w.Accounted (Runs.collect (step P L) (updates P) (start env ledger) es) :=
    Runs.run_collect (R := Accounted) (fun _ _ _ _ => step_accounted) (accounted_start env ledger)
      hrun
  refine ⟨fun user => ?_, fun e w' hu hs => factory_of_uncovered h.sound hu hs⟩
  have hcovered := h.kept.covered user
  rw [h.records] at hcovered
  exact balanced_of_totals (h.totals user) hcovered

/-- An account that was credited and paid a fee. -/
theorem account_balances_requested : ∃ w,
    Runs.run Sample.step Sample.world Sample.requested = some w ∧
      Balanced (w.factory.getUserAccount Sample.user) [.credit 200000000, .debit 100000000] := by
  obtain ⟨w, hw⟩ := Option.isSome_iff_exists.1 (show
    (Runs.run Sample.step Sample.world Sample.requested).isSome = true from by decide +kernel)
  have hhistory : historyOf Sample.platform icrc1Transfer Sample.world Sample.requested
      Sample.user = [.credit 200000000, .debit 100000000] := by
    decide +kernel
  refine ⟨w, hw, hhistory ▸ (account_balances Sample.platform icrc1Transfer
    (Sample.message 0 Sample.admin) Sample.ledger Sample.requested hw).1 Sample.user⟩

end World

end HunterFi
