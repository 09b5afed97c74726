import HunterFi.System

/-!
# What an upgrade loses

An upgrade keeps all stores but the deployment records, which it empties
(`sameStores_upgrade_iff`), and it empties the cache that the transaction history is read
from (`history_upgrade_iff`).
-/

set_option linter.unusedSectionVars false

namespace HunterFi

namespace Factory

/-- The eight stores hold the same in `f` and in `g`. -/
structure SameStores (f g : Factory) : Prop where
  deploymentRecords : ∀ id, g.deploymentRecords.get? id = f.deploymentRecords.get? id
  strategies : ∀ canisterId, g.strategies.get? canisterId = f.strategies.get? canisterId
  ownerStrategies : ∀ owner, g.ownerStrategies.get? owner = f.ownerStrategies.get? owner
  userAccounts : ∀ user, g.userAccounts.get? user = f.userAccounts.get? user
  transactions : ∀ id, g.transactions.get? id = f.transactions.get? id
  admins : g.admins = f.admins
  deploymentFee : g.deploymentFee = f.deploymentFee
  deploymentIdCounter : g.deploymentIdCounter = f.deploymentIdCounter

/-- An upgrade keeps the eight stores exactly if there is no deployment record to lose. -/
theorem sameStores_upgrade_iff (f : Factory) :
    SameStores f f.upgrade ↔ f.getAllDeploymentRecords = [] := by
  have hall : f.getAllDeploymentRecords = [] ↔ f.deploymentRecords.vals = [] := by
    rw [getAllDeploymentRecords, ← List.perm_nil, ← List.perm_nil]
    exact (List.mergeSort_perm _ _).congr_left []
  rw [hall]
  constructor
  · intro h
    refine List.eq_nil_iff_forall_not_mem.2 fun r hr => ?_
    have hget := h.deploymentRecords r.deploymentId
    rw [KeyedMap.get?_of_mem hr, deploymentRecords_upgrade, KeyedMap.get?_empty] at hget
    cases hget
  · intro hnil
    refine ⟨fun id => ?_, KeyedMap.get?_eq_of_vals_perm f.strategies_upgrade, fun _ => rfl,
      KeyedMap.get?_eq_of_vals_perm f.userAccounts_upgrade,
      KeyedMap.get?_eq_of_vals_perm f.transactions_upgrade, rfl, rfl, rfl⟩
    rw [deploymentRecords_upgrade, KeyedMap.get?_empty, eq_comm, KeyedMap.get?_eq_none, hnil]
    simp

/-- The record of a strategy that was requested is lost in an upgrade. -/
theorem not_sameStores_upgrade : ∃ w, Runs.run Sample.step Sample.world
    [.adjustBalance (Sample.message 1 Sample.admin) Sample.user 200000000 "initial balance",
      .requestStrategy ⟨2, Sample.user, 0⟩ (.selfHedging Sample.config)] = some w ∧
    ¬SameStores w.factory w.factory.upgrade := by
  have hend : (Runs.run Sample.step Sample.world
      [.adjustBalance (Sample.message 1 Sample.admin) Sample.user 200000000 "initial balance",
        .requestStrategy ⟨2, Sample.user, 0⟩ (.selfHedging Sample.config)]).any (fun w =>
      (w.factory.getDeploymentRecord (stampId 2 Sample.user "0")).isSome) = true := by
    decide +kernel
  obtain ⟨w, hrun, hw⟩ := (Option.any_eq_true _ _).1 hend
  refine ⟨w, hrun, fun h => ?_⟩
  rw [getDeploymentRecord, ← h.deploymentRecords] at hw
  cases hw

/-! ## The history -/

theorem history_eq_nil_iff (f : Factory) (user : Principal) :
    Api.getTransactionHistory f user = [] ↔ f.getUserTransactionRecords user = [] := by
  unfold Api.getTransactionHistory
  dsimp only
  split_ifs with h
  · rw [List.take_eq_nil_iff]
    exact or_iff_right (by decide)
  · rfl

theorem history_upgrade (f : Factory) (user : Principal) :
    Api.getTransactionHistory f.upgrade user = [] :=
  (history_eq_nil_iff _ _).2 rfl

/-- A user is told the same history after an upgrade exactly if the cache held none of their
transactions before it. -/
theorem history_upgrade_iff (f : Factory) (user : Principal) :
    Api.getTransactionHistory f.upgrade user = Api.getTransactionHistory f user ↔
      f.getUserTransactionRecords user = [] := by
  rw [history_upgrade, eq_comm, history_eq_nil_iff]

/-- A recorded adjustment is not in the history after an upgrade. -/
theorem history_upgrade_lost : ∃ w, Runs.run Sample.step Sample.world
    [.adjustBalance (Sample.message 1 Sample.admin) Sample.user 200000000 "initial balance"] =
      some w ∧
    Api.getTransactionHistory w.factory.upgrade Sample.user ≠
      Api.getTransactionHistory w.factory Sample.user := by
  have hend : (Runs.run Sample.step Sample.world
      [.adjustBalance (Sample.message 1 Sample.admin) Sample.user 200000000
        "initial balance"]).any (fun w =>
      !(w.factory.getUserTransactionRecords Sample.user).isEmpty) = true := by
    decide +kernel
  obtain ⟨w, hrun, hw⟩ := (Option.any_eq_true _ _).1 hend
  refine ⟨w, hrun, fun h => ?_⟩
  rw [history_upgrade, eq_comm, history_eq_nil_iff] at h
  rw [h] at hw
  cases hw

end Factory

end HunterFi
