import HunterFi.Lifecycle

/-!
# What the other segments do

`Pays f rs g` : a segment posts `rs` and leaves deployment records, registry and id counter
alone. It covers deposits, withdrawals, adjustments and the admin methods. `Archives f g` :
the cleanup removes completed records and does nothing else. Its refund loop finds no record
to refund, since no sound state holds one in `DeploymentFailed`.
-/

set_option linter.unusedSectionVars false

namespace HunterFi

/-- A segment that posts `rs` and leaves the deployments alone. -/
structure Pays (P : Platform) (env : Env) (f : Factory) (rs : List TransactionRecord)
    (g : Factory) : Prop where
  record : ∀ id, g.getDeploymentRecord id = f.getDeploymentRecord id
  posts : Posts P env f rs g
  strategies : g.strategies = f.strategies
  ownerStrategies : g.ownerStrategies = f.ownerStrategies
  counter : g.deploymentIdCounter = f.deploymentIdCounter

theorem Pays.refl {P : Platform} {env : Env} (f : Factory) : Pays P env f [] f :=
  ⟨fun _ => rfl, Posts.refl f, rfl, rfl, rfl⟩

/-! ## Deposits and withdrawals -/

/-- The transaction that records a deposit. -/
def depositOf (P : Platform) (env : Env) (user : Principal) (amount : ℕ) : TransactionRecord :=
  Factory.newTransaction P env user amount .deposit ("Deposit of " ++ icpText amount ++ " ICP")

/-- The transaction that records a withdrawal. -/
def withdrawalOf (P : Platform) (env : Env) (user : Principal) (amount : ℕ) :
    TransactionRecord :=
  Factory.newTransaction P env user amount .withdrawal
    ("Withdrawal of " ++ icpText amount ++ " ICP")

/-- The transaction that records an adjustment. -/
def adjustmentOf (P : Platform) (env : Env) (user : Principal) (amount : ℕ) (reason : String) :
    TransactionRecord :=
  Factory.newTransaction P env user amount .adminAdjustment reason

variable (P : Platform) (env : Env) (f : Factory) (user : Principal) (amount : ℕ)

/-- A deposit is credited exactly if its call came back with a block index. -/
theorem processDepositAnswer_pays (result : CallResult ℕ) :
    Pays P env f (if result.isOk then [depositOf P env user amount] else [])
      (Payment.processDepositAnswer P env f user amount result).2 := by
  cases result with
  | error code message => exact .refl f
  | ok block =>
    exact ⟨fun _ => rfl, Posts.credit f user amount .deposit _ rfl, rfl, rfl, rfl⟩

/-- A withdrawal is debited exactly if its call came back with a block index and the balance
it then finds is enough. -/
theorem userWithdrawFundsAnswer_pays (result : CallResult ℕ) :
    Pays P env f
      (if result.isOk ∧ amount ≤ f.balance user then [withdrawalOf P env user amount] else [])
      (Payment.userWithdrawFundsAnswer P env f user amount result).2 := by
  rcases Payment.userWithdrawFundsAnswer_cases P env f user amount result with
    ⟨hok, hb, heq⟩ | ⟨hn, e, heq⟩
  · rw [if_pos ⟨hok, hb⟩, heq]
    exact ⟨fun _ => rfl, Posts.debit f user amount .withdrawal _ hb rfl, rfl, rfl, rfl⟩
  · rw [if_neg hn, heq]
    exact .refl f

/-! ## Admin methods -/

/-- An adjustment is a credit by an admin. -/
theorem adjustBalance_pays (reason : String) :
    Pays P env f (if f.isAdmin env then [adjustmentOf P env user amount reason] else [])
      (Api.adjustBalance P env f user amount reason).2 := by
  unfold Api.adjustBalance Factory.requireAdmin
  split_ifs with h
  · exact ⟨fun _ => rfl, Posts.credit f user amount .adminAdjustment _ rfl, rfl, rfl, rfl⟩
  · exact .refl f

/-- The settings are no part of the books. -/
theorem pays_settings (fee : ℕ) (admins : Finset Principal) :
    Pays P env f [] { f with deploymentFee := fee, admins := admins } :=
  ⟨fun _ => rfl, Posts.idle (fun _ => rfl) (fun _ => rfl) rfl, rfl, rfl, rfl⟩

/-- To set the fee pays nothing. -/
theorem setDeploymentFee_pays (fee : ℕ) : Pays P env f [] (Api.setDeploymentFee env f fee).2 := by
  unfold Api.setDeploymentFee Factory.setFee
  cases f.requireAdmin env with
  | error e => exact .refl f
  | ok _ => exact pays_settings P env f fee f.admins

theorem addAdmin_pays (principal : Principal) :
    Pays P env f [] (Api.addAdmin env f principal).2 := by
  unfold Api.addAdmin
  cases f.requireAdmin env with
  | error e => exact .refl f
  | ok _ =>
    dsimp only
    split_ifs with ha
    · exact .refl f
    · exact pays_settings P env f f.deploymentFee _

theorem removeAdmin_pays (principal : Principal) :
    Pays P env f [] (Api.removeAdmin env f principal).2 := by
  unfold Api.removeAdmin
  cases f.requireAdmin env with
  | error e => exact .refl f
  | ok _ =>
    dsimp only
    split_ifs with ha
    · exact .refl f
    · exact pays_settings P env f f.deploymentFee _

/-! ## The cleanup -/

/-- A record that archiving may remove. -/
def DeploymentRecord.Completed (r : DeploymentRecord) : Prop :=
  r.status = .deployed ∨ r.status = .refunded

/-- A segment that removes completed records and does nothing else. -/
structure Archives (P : Platform) (env : Env) (f g : Factory) : Prop where
  record : ∀ id, g.getDeploymentRecord id = f.getDeploymentRecord id ∨
    g.getDeploymentRecord id = none ∧ ∃ r, f.getDeploymentRecord id = some r ∧ r.Completed
  posts : Posts P env f [] g
  registry : SameRegistry f g

theorem Archives.refl {P : Platform} {env : Env} (f : Factory) : Archives P env f f :=
  ⟨fun _ => Or.inl rfl, Posts.refl f, SameRegistry.refl f⟩

variable {P env f}

/-- What is left after the records of a list are removed. -/
theorem foldl_archiveRecord (ids : List String) :
    ∀ p : ℕ × Factory, (ids.foldl Factory.archiveRecord p).2 =
      { p.2 with deploymentRecords := ids.foldl KeyedMap.erase p.2.deploymentRecords } := by
  induction ids with
  | nil => exact fun _ => rfl
  | cons id ids ih => exact fun p => ih _

/-- Erased ids are gone. -/
theorem get?_foldl_erase (ids : List String) (id : String) :
    ∀ m : KeyedMap DeploymentRecord.deploymentId, (ids.foldl KeyedMap.erase m).get? id =
      if id ∈ ids then none else m.get? id := by
  induction ids with
  | nil => simp
  | cons id' ids ih =>
    intro m
    rw [List.foldl_cons, ih, KeyedMap.get?_erase]
    by_cases h : id = id' <;> simp [h]

theorem mem_getAllDeploymentRecords {r : DeploymentRecord} :
    r ∈ f.getAllDeploymentRecords ↔ r ∈ f.deploymentRecords.vals :=
  List.mem_mergeSort

/-- Only completed records are picked for archiving. -/
theorem completed_of_mem_recordsToArchive {id : String} (h : id ∈ f.recordsToArchive env) :
    ∃ r, f.getDeploymentRecord id = some r ∧ r.Completed := by
  unfold Factory.recordsToArchive at h
  obtain ⟨⟨r, i⟩, hr, rfl⟩ := List.mem_map.1 h
  have hr := List.mem_mergeSort.1 (List.fst_mem_of_mem_zipIdx (List.mem_filter.1 hr).1)
  obtain ⟨hr, hs⟩ := List.mem_filter.1 hr
  refine ⟨r, KeyedMap.get?_of_mem (mem_getAllDeploymentRecords.1 hr), ?_⟩
  simpa [DeploymentRecord.Completed] using hs

/-- Archiving removes completed records and does no more. -/
theorem archiveOldDeploymentRecords_archives :
    Archives P env f (f.archiveOldDeploymentRecords env).2 := by
  unfold Factory.archiveOldDeploymentRecords
  rw [foldl_archiveRecord]
  refine ⟨fun id => ?_, Posts.idle (fun _ => rfl) (fun _ => rfl) rfl, ⟨rfl, rfl, rfl, rfl, rfl⟩⟩
  rw [Factory.getDeploymentRecord, get?_foldl_erase]
  split_ifs with h
  · exact Or.inr ⟨rfl, completed_of_mem_recordsToArchive h⟩
  · exact Or.inl rfl

/-- The records of a status are the stored ones that have it. -/
theorem mem_getDeploymentRecordsByStatus {status : DeploymentStatus} {r : DeploymentRecord} :
    r ∈ f.getDeploymentRecordsByStatus status ↔
      f.getDeploymentRecord r.deploymentId = some r ∧ r.status = status := by
  rw [Factory.getDeploymentRecordsByStatus, List.mem_filter, mem_getAllDeploymentRecords,
    KeyedMap.mem_vals]
  simp [Factory.getDeploymentRecord]

/-- The refund loop of the cleanup finds nothing to do. -/
theorem processFailedDeployments_eq (hf : f.Sound) :
    Api.processFailedDeployments P env f = (0, f) := by
  have hnil : f.getDeploymentRecordsByStatus .deploymentFailed = [] := by
    refine List.eq_nil_iff_forall_not_mem.2 fun r hr => ?_
    obtain ⟨hr, hs⟩ := mem_getDeploymentRecordsByStatus.1 hr
    exact (hf _ r hr).status_ne hs
  rw [Api.processFailedDeployments, hnil]
  rfl

/-- What is left after archiving is sound. -/
theorem Archives.sound {g : Factory} (h : Archives P env f g) (hf : f.Sound) : g.Sound := by
  intro id r hr
  rcases h.record id with heq | ⟨hnone, -⟩
  · exact hf id r (heq ▸ hr)
  · rw [hnone] at hr
    cases hr

/-- The whole cleanup does no more. -/
theorem executeCleanupTasks_archives (hf : f.Sound) :
    Archives P env f (Api.executeCleanupTasks P env f) := by
  unfold Api.executeCleanupTasks
  dsimp only
  split_ifs with h
  · have ha : Archives P env f (f.archiveOldDeploymentRecords env).2 :=
      archiveOldDeploymentRecords_archives
    rw [processFailedDeployments_eq (ha.sound hf)]
    exact ha
  · rw [processFailedDeployments_eq hf]
    exact .refl f

/-! ## Upgrades -/

theorem upgrade_posts : Posts P env f [] f.upgrade :=
  Posts.idle (KeyedMap.get?_eq_of_vals_perm f.userAccounts_upgrade)
    (KeyedMap.get?_eq_of_vals_perm f.transactions_upgrade) rfl

theorem getDeploymentRecord_upgrade (id : String) : f.upgrade.getDeploymentRecord id = none :=
  rfl

end HunterFi
