import HunterFi.Requests

/-!
# What failures cost

A failed deployment leaves `DeploymentFailed` in the segment that enters it, since its refund
cannot fail : `failures_settled` says that no reachable state holds such a record, so the
refund loop of the cleanup never credits anyone.

The loop itself is not idempotent. There are two functions of its name, in `payment.rs` and
in `timer.rs`, and `Reprocesses` is what both should do. `payment_reprocesses` : the one that
nothing calls does it. `timer_reprocesses_iff` : the one that the cleanup calls leaves the
status of the record, and does it exactly if there is no failed deployment.

`refusal_free_iff` : a refused request costs nothing, unless it is refused because its
configuration is not serialized, which is tried after the fee is taken.
-/

set_option linter.unusedSectionVars false

namespace HunterFi

/-! ## Failed deployments at rest -/

/-- No stored deployment is in `DeploymentFailed`, each has a fee, and the cleanup refunds
nobody. -/
structure FailuresSettled (P : Platform) (f : Factory) : Prop where
  status_ne : ∀ id r, f.getDeploymentRecord id = some r → r.status ≠ .deploymentFailed
  one_le_fee : ∀ id r, f.getDeploymentRecord id = some r → 1 ≤ r.feeAmount
  refunds : ∀ env, Api.processFailedDeployments P env f = (0, f)
  cleanup : ∀ env, (Api.executeCleanupTasks P env f).userAccounts = f.userAccounts

theorem userAccounts_archiveOldDeploymentRecords (f : Factory) (env : Env) :
    (f.archiveOldDeploymentRecords env).2.userAccounts = f.userAccounts := by
  rw [Factory.archiveOldDeploymentRecords, foldl_archiveRecord]

theorem Factory.Sound.settled {f : Factory} (h : f.Sound) (P : Platform) :
    FailuresSettled P f where
  status_ne := fun id r hr => (h id r hr).status_ne
  one_le_fee := fun id r hr => (h id r hr).one_le_fee
  refunds := fun _ => processFailedDeployments_eq h
  cleanup := fun env => by
    unfold Api.executeCleanupTasks
    dsimp only
    split_ifs
    · have ha : Archives P env f (f.archiveOldDeploymentRecords env).2 :=
        archiveOldDeploymentRecords_archives
      rw [processFailedDeployments_eq (ha.sound h)]
      exact userAccounts_archiveOldDeploymentRecords f env
    · rw [processFailedDeployments_eq h]

/-- In every state of every run, no failed deployment is left and the cleanup credits nobody. -/
theorem World.failures_settled (P : Platform) (L : LedgerRule) (env : Env) (ledger : Ledger)
    (es : List Event) :
    Runs.Throughout (step P L) (fun w => FailuresSettled P w.factory) (start env ledger) es :=
  (Runs.throughout_of_step (fun _ _ _ h hs => (step_deploys h hs).sound h) es
    (sound_start env ledger)).mono fun _ h => h.records.settled P

/-! ## Refunding failed deployments -/

/-- The fees of the failed deployments of a user. -/
def Factory.failedFees (f : Factory) (user : Principal) : List ℕ :=
  ((f.getDeploymentRecordsByStatus .deploymentFailed).filter fun r => r.owner = user).map
    DeploymentRecord.feeAmount

/-- A run over the failed deployments leaves none, credits each owner each fee once, changes
nothing else, and credits nothing when it is repeated. -/
structure Reprocesses (process : Env → Factory → Factory) (f : Factory) : Prop where
  settled : ∀ env id r, (process env f).getDeploymentRecord id = some r →
    r.status ≠ .deploymentFailed
  records : ∀ env id, (∀ r, f.getDeploymentRecord id = some r → r.status ≠ .deploymentFailed) →
    (process env f).getDeploymentRecord id = f.getDeploymentRecord id
  credited : ∀ env user,
    (process env f).balance user = (f.failedFees user).foldl saturatingAdd (f.balance user)
  accounts : ∀ env user, f.failedFees user = [] →
    (process env f).getUserAccount user = f.getUserAccount user
  idempotent : ∀ env env' user,
    (process env' (process env f)).balance user = (process env f).balance user

/-- Two runs leave the same statuses and the same balances. -/
structure SameSettlement (process process' : Env → Factory → Factory) (f : Factory) : Prop where
  status : ∀ env id, ((process env f).getDeploymentRecord id).map DeploymentRecord.status =
    ((process' env f).getDeploymentRecord id).map DeploymentRecord.status
  balance : ∀ env user, (process env f).balance user = (process' env f).balance user

/-- `timer::process_failed_deployments`. -/
def timerProcess (P : Platform) (env : Env) (f : Factory) : Factory :=
  (Api.processFailedDeployments P env f).2

/-- `payment::process_failed_deployments`. -/
def paymentProcess (P : Platform) (env : Env) (f : Factory) : Factory :=
  (Payment.processFailedDeployments P env f).2

variable {P : Platform} {env : Env} {f g : Factory}

/-- There is no failed deployment. -/
theorem failed_eq_nil_iff : f.getDeploymentRecordsByStatus .deploymentFailed = [] ↔
    ∀ id r, f.getDeploymentRecord id = some r → r.status ≠ .deploymentFailed := by
  rw [List.eq_nil_iff_forall_not_mem]
  constructor
  · intro h id r hr hs
    obtain rfl := Factory.deploymentId_of_getDeploymentRecord hr
    exact h r (mem_getDeploymentRecordsByStatus.2 ⟨hr, hs⟩)
  · intro h r hr
    obtain ⟨hr, hs⟩ := mem_getDeploymentRecordsByStatus.1 hr
    exact h _ r hr hs

theorem timerProcess_eq (h : f.getDeploymentRecordsByStatus .deploymentFailed = []) :
    timerProcess P env f = f := by
  rw [timerProcess, Api.processFailedDeployments, h]
  rfl

theorem paymentProcess_eq (h : f.getDeploymentRecordsByStatus .deploymentFailed = []) :
    paymentProcess P env f = f := by
  rw [paymentProcess, Payment.processFailedDeployments, h]
  rfl

theorem failedFees_eq_nil (h : f.getDeploymentRecordsByStatus .deploymentFailed = [])
    (user : Principal) : f.failedFees user = [] := by
  rw [Factory.failedFees, h]
  rfl

/-- A run that finds nothing to do does what it should. -/
theorem reprocesses_of_eq {process : Env → Factory → Factory}
    (h : f.getDeploymentRecordsByStatus .deploymentFailed = []) (hp : ∀ env, process env f = f) :
    Reprocesses process f where
  settled := fun env id r hr => failed_eq_nil_iff.1 h id r (hp env ▸ hr)
  records := fun env id _ => by rw [hp]
  credited := fun env user => by rw [hp, failedFees_eq_nil h]; rfl
  accounts := fun env user _ => by rw [hp]
  idempotent := fun env env' user => by rw [hp, hp]

/-! ## What the refunds add up to -/

/-- Refunds that are each of the fee of a deployment to its owner. -/
theorem movements_refunds {refund : DeploymentRecord → TransactionRecord}
    (huser : ∀ r, (refund r).user = r.owner)
    (hmovement : ∀ r, (refund r).movement = some (.credit r.feeAmount)) (user : Principal)
    (rs : List DeploymentRecord) : movements user (rs.map refund) =
      ((rs.filter fun r => r.owner = user).map DeploymentRecord.feeAmount).map .credit := by
  induction rs with
  | nil => rfl
  | cons r rs ih =>
    rw [List.map_cons, ← List.singleton_append, movements_append, ih,
      movements_singleton (hmovement r), huser, List.filter_cons]
    by_cases h : r.owner = user <;> simp [h]

theorem foldl_credit (fees : List ℕ) : ∀ b,
    (fees.map Movement.credit).foldl (Movement.apply u64Max) b = fees.foldl saturatingAdd b := by
  induction fees with
  | nil => exact fun _ => rfl
  | cons n fees ih => exact fun b => ih _

/-- A segment that refunds the failed deployments credits the fees of each user. -/
theorem balance_of_refunds (refund : DeploymentRecord → TransactionRecord)
    (huser : ∀ r, (refund r).user = r.owner)
    (hmovement : ∀ r, (refund r).movement = some (.credit r.feeAmount))
    (hp : Posts P env f ((f.getDeploymentRecordsByStatus .deploymentFailed).map refund) g)
    (user : Principal) :
    g.balance user = (f.failedFees user).foldl saturatingAdd (f.balance user) := by
  rw [hp.balance_eq, movements_refunds huser hmovement, foldl_credit]
  rfl

/-- A segment that posts nothing for a user leaves the account alone. -/
theorem Posts.getUserAccount_eq {rs : List TransactionRecord} (hp : Posts P env f rs g)
    {user : Principal} (h : ∀ r ∈ rs, r.user ≠ user) :
    g.getUserAccount user = f.getUserAccount user := by
  have hnone : movements user rs = [] := by
    rw [movements, List.filter_eq_nil_iff.2 (by simpa using h), List.filterMap_nil]
  unfold Factory.getUserAccount
  rw [hp.account_eq hnone]

/-! ## The run of the cleanup -/

/-- The refund of a failed deployment in `state.rs`. -/
def timerRefundOf (P : Platform) (env : Env) (r : DeploymentRecord) : TransactionRecord :=
  Factory.newTransaction P env r.owner r.feeAmount .refund
    ("Refund for failed deployment (ID: " ++ r.deploymentId ++ ")")

/-- One record of the run of the cleanup leaves the deployments alone. -/
theorem deploymentRecords_processFailedDeployment (p : ℕ × Factory) (r : DeploymentRecord) :
    (Api.processFailedDeployment P env p r).2.deploymentRecords = p.2.deploymentRecords := by
  obtain ⟨count, f⟩ := p
  simp only [Api.processFailedDeployment]
  split_ifs with hs
  · by_cases hfee : r.feeAmount = 0
    · rw [Factory.processBalanceRefund, if_pos hfee]
    · rw [f.processBalanceRefund_eq P env r.owner r.feeAmount r.deploymentId hfee]
      rfl
  · rfl

theorem deploymentRecords_timerProcess (P : Platform) (env : Env) (f : Factory) :
    (timerProcess P env f).deploymentRecords = f.deploymentRecords := by
  have hfold : ∀ (rs : List DeploymentRecord) (p : ℕ × Factory),
      (rs.foldl (Api.processFailedDeployment P env) p).2.deploymentRecords =
        p.2.deploymentRecords := by
    intro rs
    induction rs with
    | nil => exact fun _ => rfl
    | cons r rs ih =>
      intro p
      rw [List.foldl_cons, ih, deploymentRecords_processFailedDeployment]
  exact hfold _ _

/-- The refunds of the run of the cleanup. -/
theorem posts_processFailedDeployments (P : Platform) (env : Env) (rs : List DeploymentRecord)
    (h : ∀ r ∈ rs, r.status = .deploymentFailed ∧ 1 ≤ r.feeAmount) : ∀ p : ℕ × Factory,
    Posts P env p.2 (rs.map (timerRefundOf P env))
      (rs.foldl (Api.processFailedDeployment P env) p).2 := by
  induction rs with
  | nil => exact fun p => .refl p.2
  | cons r rs ih =>
    rintro ⟨count, f⟩
    obtain ⟨⟨hs, hfee⟩, hrs⟩ := List.forall_mem_cons.1 h
    have hstep : Api.processFailedDeployment P env (count, f) r = (count + 1,
        (f.credit env r.owner r.feeAmount).post P env r.owner r.feeAmount .refund
          ("Refund for failed deployment (ID: " ++ r.deploymentId ++ ")")) := by
      rw [Api.processFailedDeployment, if_pos (by rw [hs]; decide),
        f.processBalanceRefund_eq P env r.owner r.feeAmount r.deploymentId (by omega)]
    rw [List.map_cons, List.foldl_cons, hstep, ← List.singleton_append]
    exact (Posts.credit f r.owner r.feeAmount .refund _ rfl).trans (ih hrs (count + 1, _))

/-- The run of the cleanup credits the fees of all failed deployments. -/
theorem balance_timerProcess (P : Platform) (env : Env)
    (hfees : ∀ id r, f.getDeploymentRecord id = some r → 1 ≤ r.feeAmount) (user : Principal) :
    (timerProcess P env f).balance user =
      (f.failedFees user).foldl saturatingAdd (f.balance user) := by
  refine balance_of_refunds (timerRefundOf P env) (fun _ => rfl) (fun _ => rfl)
    (posts_processFailedDeployments P env _ (fun r hr => ?_) (0, f)) user
  obtain ⟨hr, hs⟩ := mem_getDeploymentRecordsByStatus.1 hr
  exact ⟨hs, hfees _ r hr⟩

/-- It credits them again in every run. -/
theorem balance_iterate_timerProcess (P : Platform) (env : Env)
    (hfees : ∀ id r, f.getDeploymentRecord id = some r → 1 ≤ r.feeAmount) (user : Principal)
    (n : ℕ) : ((timerProcess P env)^[n] f).balance user =
      (fun b => (f.failedFees user).foldl saturatingAdd b)^[n] (f.balance user) := by
  have hrecords : ∀ n, ((timerProcess P env)^[n] f).deploymentRecords = f.deploymentRecords := by
    intro n
    induction n with
    | zero => rfl
    | succ n ih => rw [Function.iterate_succ_apply', deploymentRecords_timerProcess, ih]
  induction n with
  | zero => rfl
  | succ n ih =>
    rw [Function.iterate_succ_apply', Function.iterate_succ_apply', ← ih, balance_timerProcess]
    · have hsame : ((timerProcess P env)^[n] f).failedFees user = f.failedFees user := by
        simp only [Factory.failedFees, Factory.getDeploymentRecordsByStatus,
          Factory.getAllDeploymentRecords, hrecords]
      rw [hsame]
    · intro id r hr
      rw [Factory.getDeploymentRecord, hrecords] at hr
      exact hfees id r hr

/-! ## The other run -/

/-- One record of the other run is refunded and marked so. -/
theorem processFailedDeployment_writes (P : Platform) (env : Env) {r : DeploymentRecord}
    (hr : f.getDeploymentRecord r.deploymentId = some r) (hs : r.status = .deploymentFailed)
    (h1 : 1 ≤ r.feeAmount) (h2 : r.feeAmount ≤ u64Max) (count : ℕ) (errors : List String) :
    ∃ r' g, Payment.processFailedDeployment P env (count, errors, f) r = (count + 1, errors, g) ∧
      r'.status = .refunded ∧ r'.deploymentId = r.deploymentId ∧
      Writes P env f r' [refundOf P env r] g := by
  obtain ⟨g, hrefund, hw⟩ := Deployment.processBalanceRefund_writes P env hr h1 h2
  let r₁ := r.withStatus env.time .refunded none (some "Deployment fee refunded")
  let r₂ := r₁.withStatus env.time .refunded none none
  have hg : g.getDeploymentRecord r.deploymentId = some r₁ := hw.get_self
  have hupdate : g.updateDeploymentStatus env r.deploymentId .refunded none none =
      .ok (g.storeDeploymentRecord r₂) := Deployment.updateDeploymentStatus_some hg _ _ _
  refine ⟨r₂, g.storeDeploymentRecord r₂, ?_, rfl, rfl, hw.trans (Writes.store P env g r₂) rfl⟩
  simp only [Payment.processFailedDeployment, if_neg (show r.status ≠ .refunded by rw [hs]; decide),
    hrefund, hupdate]

/-- What the other run leaves of stored failed deployments. -/
theorem foldl_processFailedDeployment (P : Platform) (env : Env) (errors : List String)
    (rs : List DeploymentRecord) :
    ∀ {f : Factory} (count : ℕ), (rs.map DeploymentRecord.deploymentId).Nodup →
      (∀ r ∈ rs, f.getDeploymentRecord r.deploymentId = some r ∧ r.status = .deploymentFailed ∧
        1 ≤ r.feeAmount ∧ r.feeAmount ≤ u64Max) →
      ∃ g, rs.foldl (Payment.processFailedDeployment P env) (count, errors, f) =
          (count + rs.length, errors, g) ∧
        Posts P env f (rs.map (refundOf P env)) g ∧
        ∀ id, (id ∉ rs.map DeploymentRecord.deploymentId →
            g.getDeploymentRecord id = f.getDeploymentRecord id) ∧
          (id ∈ rs.map DeploymentRecord.deploymentId →
            ∃ r, g.getDeploymentRecord id = some r ∧ r.status = .refunded) := by
  induction rs with
  | nil => exact fun {f} count _ _ => ⟨f, rfl, .refl f, by simp⟩
  | cons r rs ih =>
    intro f count hnodup h
    rw [List.map_cons, List.nodup_cons] at hnodup
    obtain ⟨⟨hr, hs, h1, h2⟩, hrs⟩ := List.forall_mem_cons.1 h
    obtain ⟨r', g₁, hstep, hstatus, hid, hw⟩ :=
      processFailedDeployment_writes P env hr hs h1 h2 count errors
    have hother : ∀ id, id ≠ r.deploymentId →
        g₁.getDeploymentRecord id = f.getDeploymentRecord id := by
      intro id hne
      rw [hw.record, hid, if_neg hne]
    obtain ⟨g, hfold, hposts, hrecords⟩ := ih (f := g₁) (count + 1) hnodup.2 fun r₂ hr₂ => by
      have hne : r₂.deploymentId ≠ r.deploymentId := fun heq =>
        hnodup.1 (heq ▸ List.mem_map_of_mem hr₂)
      rw [hother _ hne]
      exact hrs r₂ hr₂
    refine ⟨g, ?_, hw.posts.trans hposts, fun id => ⟨fun hn => ?_, fun hm => ?_⟩⟩
    · rw [List.foldl_cons, hstep, hfold, List.length_cons, Nat.add_right_comm, Nat.add_assoc]
    · rw [List.map_cons, List.mem_cons, not_or] at hn
      rw [(hrecords id).1 hn.2, hother id hn.1]
    · rw [List.map_cons, List.mem_cons] at hm
      by_cases hin : id ∈ rs.map DeploymentRecord.deploymentId
      · exact (hrecords id).2 hin
      · obtain rfl := hm.resolve_right hin
        exact ⟨r', by rw [(hrecords _).1 hin, ← hid, hw.get_self], hstatus⟩

/-- The ids of the failed deployments. -/
theorem mem_map_failed {id : String} :
    id ∈ (f.getDeploymentRecordsByStatus .deploymentFailed).map DeploymentRecord.deploymentId ↔
      ∃ r, f.getDeploymentRecord id = some r ∧ r.status = .deploymentFailed := by
  rw [List.mem_map]
  constructor
  · rintro ⟨r, hr, rfl⟩
    exact ⟨r, mem_getDeploymentRecordsByStatus.1 hr⟩
  · rintro ⟨r, hr, hs⟩
    obtain rfl := Factory.deploymentId_of_getDeploymentRecord hr
    exact ⟨r, mem_getDeploymentRecordsByStatus.2 ⟨hr, hs⟩, rfl⟩

theorem nodup_map_getDeploymentRecordsByStatus (f : Factory) (status : DeploymentStatus) :
    ((f.getDeploymentRecordsByStatus status).map DeploymentRecord.deploymentId).Nodup := by
  have hall : (f.getAllDeploymentRecords.map DeploymentRecord.deploymentId).Nodup :=
    ((List.mergeSort_perm _ _).map _).nodup_iff.2 f.deploymentRecords.nodup
  exact hall.sublist (List.filter_sublist.map _)

/-- The other run posts a refund for each failed deployment and marks these as refunded. -/
theorem paymentProcess_spec (P : Platform) (env : Env)
    (h : ∀ id r, f.getDeploymentRecord id = some r → 1 ≤ r.feeAmount ∧ r.feeAmount ≤ u64Max) :
    Posts P env f ((f.getDeploymentRecordsByStatus .deploymentFailed).map (refundOf P env))
      (paymentProcess P env f) ∧
    ∀ id, ((∀ r, f.getDeploymentRecord id = some r → r.status ≠ .deploymentFailed) →
        (paymentProcess P env f).getDeploymentRecord id = f.getDeploymentRecord id) ∧
      ((∃ r, f.getDeploymentRecord id = some r ∧ r.status = .deploymentFailed) →
        ∃ r, (paymentProcess P env f).getDeploymentRecord id = some r ∧
          r.status = .refunded) := by
  have hfailed : ∀ r ∈ f.getDeploymentRecordsByStatus .deploymentFailed,
      f.getDeploymentRecord r.deploymentId = some r ∧ r.status = .deploymentFailed ∧
        1 ≤ r.feeAmount ∧ r.feeAmount ≤ u64Max := by
    intro r hr
    obtain ⟨hr, hs⟩ := mem_getDeploymentRecordsByStatus.1 hr
    exact ⟨hr, hs, h _ r hr⟩
  obtain ⟨g, hfold, hposts, hrecords⟩ := foldl_processFailedDeployment P env [] _ 0
    (nodup_map_getDeploymentRecordsByStatus f .deploymentFailed) hfailed
  have hprocess : paymentProcess P env f = g := by
    rw [paymentProcess, Payment.processFailedDeployments, hfold]
    rfl
  rw [hprocess]
  refine ⟨hposts, fun id => ⟨fun hn => (hrecords id).1 fun hin => ?_, fun hin => ?_⟩⟩
  · obtain ⟨r, hr, hs⟩ := mem_map_failed.1 hin
    exact hn r hr hs
  · exact (hrecords id).2 (mem_map_failed.2 hin)

/-- The other run does what it should. -/
theorem payment_reprocesses (P : Platform) (h : ∀ id r, f.getDeploymentRecord id = some r →
    1 ≤ r.feeAmount ∧ r.feeAmount ≤ u64Max) : Reprocesses (paymentProcess P) f := by
  have hsettled : ∀ env id r, (paymentProcess P env f).getDeploymentRecord id = some r →
      r.status ≠ .deploymentFailed := by
    intro env id r hr
    by_cases hin : ∃ r, f.getDeploymentRecord id = some r ∧ r.status = .deploymentFailed
    · obtain ⟨r', hr', hs'⟩ := ((paymentProcess_spec P env h).2 id).2 hin
      obtain rfl := Option.some.inj (hr.symm.trans hr')
      rw [hs']
      decide
    · push Not at hin
      rw [((paymentProcess_spec P env h).2 id).1 hin] at hr
      exact hin r hr
  refine ⟨hsettled, fun env id => ((paymentProcess_spec P env h).2 id).1, fun env user => ?_,
    fun env user hnil => ?_, fun env env' user => ?_⟩
  · exact balance_of_refunds _ (fun _ => rfl) (fun _ => rfl) (paymentProcess_spec P env h).1 user
  · refine (paymentProcess_spec P env h).1.getUserAccount_eq fun t ht => ?_
    obtain ⟨r, hr, rfl⟩ := List.mem_map.1 ht
    rintro rfl
    rw [Factory.failedFees, List.map_eq_nil_iff, List.filter_eq_nil_iff] at hnil
    exact hnil r hr (decide_eq_true rfl)
  · rw [paymentProcess_eq (failed_eq_nil_iff.2 (hsettled env))]

/-! ## Both runs -/

/-- The run of the cleanup does what it should, and what the other one does, exactly if there
is no failed deployment. -/
theorem timer_reprocesses_iff (P : Platform) (f : Factory) :
    Reprocesses (timerProcess P) f ∧ SameSettlement (timerProcess P) (paymentProcess P) f ↔
      ∀ id r, f.getDeploymentRecord id = some r → r.status ≠ .deploymentFailed := by
  constructor
  · rintro ⟨h, -⟩ id r hr
    refine h.settled default id r ?_
    rw [Factory.getDeploymentRecord, deploymentRecords_timerProcess]
    exact hr
  · intro h
    have hnil := failed_eq_nil_iff.2 h
    refine ⟨reprocesses_of_eq hnil fun env => timerProcess_eq hnil, fun env id => ?_,
      fun env user => ?_⟩
    · rw [timerProcess_eq hnil, paymentProcess_eq hnil]
    · rw [timerProcess_eq hnil, paymentProcess_eq hnil]

/-- A failed deployment whose fee was 1 ICP. -/
def Sample.failedDeployment : DeploymentRecord where
  deploymentId := "failed"
  strategyType := .selfHedging
  owner := user
  feeAmount := 100000000
  requestTime := 0
  status := .deploymentFailed
  canisterId := none
  configData := configData
  errorMessage := some "Canister creation failed"
  lastUpdated := 0

/-- A store with one failed deployment. -/
def Sample.withFailed : Factory :=
  Factory.initial.storeDeploymentRecord failedDeployment

/-- One failed deployment is still failed after the run of the cleanup, and after two runs its
fee is credited twice. -/
theorem not_reprocesses_withFailed :
    ((timerProcess Sample.platform default)^[2] Sample.withFailed).balance Sample.user =
      200000000 ∧
    ¬(Reprocesses (timerProcess Sample.platform) Sample.withFailed ∧
      SameSettlement (timerProcess Sample.platform) (paymentProcess Sample.platform)
        Sample.withFailed) := by
  have hstored : Sample.withFailed.getDeploymentRecord "failed" = some Sample.failedDeployment :=
    rfl
  have hfees : Sample.withFailed.failedFees Sample.user = [100000000] := by
    simp only [Factory.failedFees, Factory.getDeploymentRecordsByStatus,
      Factory.getAllDeploymentRecords]
    rw [show Sample.withFailed.deploymentRecords.vals = [Sample.failedDeployment] from rfl,
      List.mergeSort_singleton]
    rfl
  constructor
  · rw [balance_iterate_timerProcess, hfees]
    · decide +kernel
    · intro id r hr
      rw [Factory.getDeploymentRecord, Sample.withFailed,
        Factory.storeDeploymentRecord, KeyedMap.get?_insert] at hr
      split_ifs at hr
      · obtain rfl := Option.some.inj hr
        decide
      · cases hr
  · rintro ⟨h, -⟩
    refine h.settled default "failed" Sample.failedDeployment ?_ rfl
    rw [Factory.getDeploymentRecord, deploymentRecords_timerProcess]
    exact hstored

/-! ## Refused requests -/

/-- The account of the caller, the transactions and the deployment records are as before. -/
structure CostsNothing (caller : Principal) (f g : Factory) : Prop where
  account : g.getUserAccount caller = f.getUserAccount caller
  transactions : g.transactions = f.transactions
  deploymentRecords : g.deploymentRecords = f.deploymentRecords

/-- A request that is refused costs its caller nothing. -/
def RefusalFree (P : Platform) (env : Env) (f : Factory) (config : Config) : Prop :=
  ∀ e, (Deployment.createStrategyRequest P env f config).1 = .error e →
    CostsNothing env.caller f (Deployment.createStrategyRequest P env f config).2

/-- A refused request costs nothing, exactly if it is not one that passes all checks and is then
refused because its configuration cannot be serialized. -/
theorem refusal_free_iff (P : Platform) (env : Env) (f : Factory) (config : Config) :
    RefusalFree P env f config ↔
      ¬(Deployment.Chargeable env f config ∧ ∃ e, P.encodeOne config = .error e) := by
  rcases Deployment.createStrategyRequest_cases P env f config with ⟨hn, message, heq⟩ |
    ⟨hc, ⟨e, message, hencode, heq⟩ | ⟨configData, hencode, heq⟩⟩
  · refine iff_of_true (fun _ _ => ?_) fun h => hn h.1
    rw [heq]
    exact ⟨rfl, rfl, rfl⟩
  · refine iff_of_false (fun h => ?_) fun h => h ⟨hc, e, hencode⟩
    have haccount := (h message (by rw [heq])).account
    rw [heq] at haccount
    have hbalance : (Deployment.charged P env f).balance env.caller = f.balance env.caller :=
      congrArg UserAccount.balance haccount
    rw [Deployment.charged, Factory.balance_post, Factory.balance_debit, if_pos rfl] at hbalance
    have := hc.one_le_fee
    have := hc.covered
    omega
  · refine iff_of_true (fun e he => ?_) ?_
    · rw [heq] at he
      cases he
    · rintro ⟨-, e, he⟩
      rw [hencode] at he
      cases he

/-- A user with 1 ICP. -/
def Sample.funded : Factory :=
  Factory.initial.credit default user 100000000

/-- A platform that cannot serialize any configuration. -/
def Sample.mute : Platform :=
  { platform with encodeOne := fun _ => .error "out of memory" }

/-- A request whose configuration cannot be serialized costs the fee of 1 ICP. -/
theorem not_refusal_free_unserialized :
    ¬RefusalFree Sample.mute (Sample.message 1 Sample.user) Sample.funded
      (.selfHedging Sample.config) := by
  intro h
  have haccount := (h _ rfl).account
  exact absurd haccount (by decide +kernel)

end HunterFi
