import HunterFi.Requests
import Mathlib.Algebra.Order.Group.Nat

/-!
# Refunds

`execute_deployment` does not look at the status of the record it finds, so a deployment that
was refunded can be executed again. `RefundSafe` says that no deployment is refunded more
than it was charged and that no refunded one is `Deployed`. `EndsUnrefunded` is the
condition under which a step keeps that : an execution that comes to its end, with its
record there, belongs to a deployment that was not refunded before.
-/

set_option linter.unusedSectionVars false

namespace HunterFi

namespace World

open Deployment

variable {P : Platform} {L : LedgerRule} {w w' : World} {env : Env} {spawned : Bool} {id : String}
  {p : Progress × Factory} {e : Event}

/-- What the owner of a deployment was charged for it. -/
def chargedFor (w : World) (id : String) : ℕ :=
  ((w.requests.find? fun q => q.deploymentId = id).map Request.charged).getD 0

/-- The amounts refunded for a deployment. -/
def refundsOf (w : World) (id : String) : List ℕ :=
  refunds id w.factory.records

/-- No deployment is refunded more than it was charged, and none that was refunded is
deployed. -/
def RefundSafe (w : World) : Prop :=
  ∀ id, (w.refundsOf id).sum ≤ w.chargedFor id ∧
    (w.refundsOf id ≠ [] → ∀ r, w.factory.getDeploymentRecord id = some r → r.status ≠ .deployed)

/-- An execution that an event brings to its end, with its record there, is of a deployment
that was not refunded. -/
def EndsUnrefunded (P : Platform) (w : World) (e : Event) : Prop :=
  ∀ id, w.executes e = some id → e.ends P → w.refundsOf id ≠ [] →
    w.factory.getDeploymentRecord id = none

theorem Tracked.chargedFor_eq (h : w.Tracked) {q : Request} (hq : q ∈ w.requests) :
    w.chargedFor q.deploymentId = q.feeAmount := by
  have hfind : (w.requests.find? fun q' => q'.deploymentId = q.deploymentId) = some q :=
    KeyedMap.get?_of_mem (m := ⟨w.requests, h.ids_nodup⟩) hq
  rw [chargedFor, hfind]
  exact h.charged q hq

/-- Every refund of a stored record is of its fee. -/
theorem Tracked.eq_feeAmount (h : w.Tracked) {r : DeploymentRecord}
    (hr : w.factory.getDeploymentRecord id = some r) {n : ℕ} (hn : n ∈ w.refundsOf id) :
    n = r.feeAmount := by
  obtain ⟨x, hx, rfl⟩ := List.mem_map.1 hn
  obtain ⟨hx, hxid⟩ := List.mem_filter.1 hx
  obtain ⟨q, hq, hqid, -, hqf⟩ := h.refund id x hx (of_decide_eq_true hxid)
  obtain ⟨q', hq', hqid', -, hqf'⟩ := h.record id r hr
  obtain rfl := h.request_unique hq hq' (hqid.trans hqid'.symm)
  exact hqf.symm.trans hqf'

/-- The fee of a stored record was charged. -/
theorem Tracked.chargedFor_record (h : w.Tracked) {r : DeploymentRecord}
    (hr : w.factory.getDeploymentRecord id = some r) : w.chargedFor id = r.feeAmount := by
  obtain ⟨q, hq, rfl, -, hqf⟩ := h.record id r hr
  exact (h.chargedFor_eq hq).trans hqf

/-- A segment that posts no refund leaves the refunds as they are. -/
theorem refundsOf_of_posts {rs : List TransactionRecord}
    (h : Posts P env w.factory rs w'.factory) (hrs : ∀ r ∈ rs, r.transactionType ≠ .refund)
    (id : String) : w'.refundsOf id = w.refundsOf id := by
  rw [refundsOf, h.records_eq, refunds_append, refunds_eq_nil hrs, List.append_nil, refundsOf]

theorem refunds_singleton_refundOf (r : DeploymentRecord) (id : String) :
    refunds id [refundOf P env r] = if r.deploymentId = id then [r.feeAmount] else [] := by
  unfold refunds
  split_ifs with h
  · simp [refunds_refundOf, h]
  · simp [refunds_refundOf, h]

/-- A segment of an execution keeps refunds safe, unless it ends one that was refunded. -/
theorem refundSafe_resume {ends : Prop} {left : ℕ} (hw : w.Tracked) (hs : w.RefundSafe)
    (h : Outcome P env w.factory id ends left p)
    (hc : ends → w.refundsOf id ≠ [] → w.factory.getDeploymentRecord id = none) :
    (w.resume P env spawned id p).RefundSafe := by
  have hf := factory_resume (w := w) spawned h
  have hcharged : ∀ id', (w.resume P env spawned id p).chargedFor id' = w.chargedFor id' := by
    intro id'
    rw [chargedFor, requests_resume, chargedFor]
  intro id'
  rw [hcharged, refundsOf, hf]
  cases h with
  | lost message hr => exact hs id'
  | waits r r' record stage g hr hends follows status writes =>
    have hrefunds : refunds id' g.records = w.refundsOf id' := by
      rw [writes.posts.records_eq, List.append_nil, refundsOf]
    rw [hrefunds]
    refine ⟨(hs id').1, fun hne x hx => ?_⟩
    rw [writes.record] at hx
    split_ifs at hx with hid
    · obtain rfl := Option.some.inj hx
      have hrid := follows.deploymentId.trans (Factory.deploymentId_of_getDeploymentRecord hr)
      rcases status with h | h | h
      · rw [h]
        exact (hs id').2 hne r (by rw [hid, hrid, hr])
      · simp [h]
      · simp [h]
    · exact (hs id').2 hne x hx
  | failed r r' message g hr hends follows status writes =>
    have hrid := Factory.deploymentId_of_getDeploymentRecord hr
    have hnil : w.refundsOf id = [] := by
      by_contra hne
      exact absurd (hc hends hne) (by simp [hr])
    rw [writes.posts.records_eq, refunds_append, refunds_singleton_refundOf, hrid]
    split_ifs with hid
    · subst hid
      rw [show refunds id w.factory.records = [] from hnil]
      refine ⟨by simp [hw.chargedFor_record hr], fun _ x hx => ?_⟩
      rw [writes.record, if_pos (follows.deploymentId.trans hrid).symm] at hx
      obtain rfl := Option.some.inj hx
      simp [status]
    · rw [List.append_nil]
      refine ⟨(hs id').1, fun hne x hx => ?_⟩
      rw [writes.record, if_neg fun h => hid (hrid.symm.trans
        (follows.deploymentId.symm.trans h.symm))] at hx
      exact (hs id').2 hne x hx
  | deployed r r' metadata canisterId g hr hends follows status _ _ writes =>
    have hrid := Factory.deploymentId_of_getDeploymentRecord hr
    have hnil : w.refundsOf id = [] := by
      by_contra hne
      exact absurd (hc hends hne) (by simp [hr])
    have hrefunds : refunds id' g.records = w.refundsOf id' := by
      rw [writes.posts.records_eq, List.append_nil]
      rfl
    rw [hrefunds]
    refine ⟨(hs id').1, fun hne x hx => ?_⟩
    rw [writes.record] at hx
    split_ifs at hx with hid
    · rw [hid, follows.deploymentId, hrid] at hne
      exact absurd hnil hne
    · exact (hs id').2 hne x hx

/-- An execution that ends one that was refunded breaks the safety of refunds. -/
theorem not_refundSafe_resume {ends : Prop} {left : ℕ} {r : DeploymentRecord} (hw : w.Tracked)
    (hsound : w.Sound) (h : Outcome P env w.factory id ends left p) (hends : ends)
    (hr : w.factory.getDeploymentRecord id = some r) (hne : w.refundsOf id ≠ []) :
    ¬(w.resume P env spawned id p).RefundSafe := by
  have hf := factory_resume (w := w) spawned h
  have hrid := Factory.deploymentId_of_getDeploymentRecord hr
  intro hs
  have hcharged : (w.resume P env spawned id p).chargedFor id = r.feeAmount := by
    rw [chargedFor, requests_resume, ← chargedFor, hw.chargedFor_record hr]
  obtain ⟨hle, hdeployed⟩ := hs id
  rw [hcharged, refundsOf, hf] at hle
  rw [refundsOf, hf] at hdeployed
  cases h with
  | lost message hnone => simp [hr] at hnone
  | waits r₀ r' record stage g hr₀ hn follows status writes => exact hn hends
  | failed r₀ r' message g hr₀ _ follows status writes =>
    obtain rfl := Option.some.inj (hr.symm.trans hr₀)
    -- the earlier refund is of the same fee
    obtain ⟨n, hn⟩ := List.exists_mem_of_ne_nil _ hne
    have hfee := hw.eq_feeAmount hr hn
    have hsum := List.le_sum_of_mem hn
    have hpos := (hsound.records id r hr).one_le_fee
    rw [writes.posts.records_eq, refunds_append, refunds_singleton_refundOf, if_pos hrid,
      List.sum_append, List.sum_singleton] at hle
    change (w.refundsOf id).sum + r.feeAmount ≤ r.feeAmount at hle
    omega
  | deployed r₀ r' metadata canisterId g hr₀ _ follows status _ _ writes =>
    obtain rfl := Option.some.inj (hr.symm.trans hr₀)
    have hrefunds : refunds id g.records = w.refundsOf id := by
      rw [writes.posts.records_eq, List.append_nil]
      rfl
    have hget : g.getDeploymentRecord id = some r' := by
      rw [writes.record, if_pos (follows.deploymentId.trans hrid).symm]
    exact hdeployed (hrefunds ▸ hne) r' hget status

/-! ## Steps and runs -/

theorem refundSafe_of_records {w w' : World} (hs : w.RefundSafe)
    (hrefunds : ∀ id, w'.refundsOf id = w.refundsOf id)
    (hcharged : ∀ id, w.chargedFor id ≤ w'.chargedFor id)
    (hrecord : ∀ id r, w'.factory.getDeploymentRecord id = some r →
      w.refundsOf id ≠ [] → w.factory.getDeploymentRecord id = some r) : w'.RefundSafe := by
  intro id
  rw [hrefunds]
  exact ⟨(hs id).1.trans (hcharged id), fun hne r hr => (hs id).2 hne r (hrecord id r hr hne)⟩

/-- Nothing was refunded under the next id. -/
theorem Tracked.refundsOf_new (hw : w.Tracked) (env : Env) :
    w.refundsOf (w.factory.generateDeploymentId env).1 = [] := by
  refine List.eq_nil_iff_forall_not_mem.2 fun n hn => ?_
  obtain ⟨x, hx, -⟩ := List.mem_map.1 hn
  obtain ⟨hx, hxid⟩ := List.mem_filter.1 hx
  obtain ⟨q, hq, hqid, -⟩ := hw.refund _ x hx (of_decide_eq_true hxid)
  exact hw.fresh hq env hqid

/-- An accepted request, whose id is new, keeps refunds safe. -/
theorem RefundSafe.accept (hs : w.RefundSafe) (hw : w.Tracked) {g : Factory}
    {configData : List UInt8} (posts : Posts P env w.factory [feeOf P env w.factory] g)
    (records : ∀ id, g.getDeploymentRecord id =
      if id = (w.factory.generateDeploymentId env).1 then some (newRecord env w.factory configData)
      else w.factory.getDeploymentRecord id) : (w.accept env g).RefundSafe := by
  refine refundSafe_of_records hs (fun id => ?_) (fun id => ?_) fun id r hr hne => ?_
  · exact refundsOf_of_posts posts (by simp [feeOf]) id
  · by_cases hid : (w.factory.generateDeploymentId env).1 = id
    · have hnone : (w.requests.find? fun q => q.deploymentId = id) = none := by
        refine List.find?_eq_none.2 fun q hq => ?_
        simpa using fun h => hw.fresh hq env (h.trans hid.symm)
      rw [chargedFor, hnone]
      exact Nat.zero_le _
    · simp only [chargedFor, World.accept, List.find?_cons, hid, decide_false]
      exact le_rfl
  · replace hr : g.getDeploymentRecord id = some r := hr
    rw [records] at hr
    split_ifs at hr with hid
    · rw [hid] at hne
      exact absurd (hw.refundsOf_new env) hne
    · exact hr

theorem refundSafe_step (hd : Deploys P w e w') (hw : w.Tracked)
    (hwrap : w.CounterFits e) (hs : w.RefundSafe) (hc : EndsUnrefunded P w e) : w'.RefundSafe := by
  cases hd with
  | still e w' env rs pays norefund tasks requests returned ended executes =>
    refine refundSafe_of_records hs (fun id => ?_) (fun id => ?_) fun id r hr _ =>
      pays.record id ▸ hr
    · exact refundsOf_of_posts pays.posts norefund id
    · rw [chargedFor, chargedFor, requests]
  | cleans time cycles g archives =>
    refine refundSafe_of_records hs (fun id => ?_) (fun id => le_rfl) fun id r hr _ => ?_
    · exact refundsOf_of_posts archives.posts (by simp) id
    · rcases archives.record id with heq | ⟨hnone, -⟩
      · exact heq ▸ hr
      · exact absurd (hnone.symm.trans hr) (by simp)
  | upgrades tasks =>
    exact refundSafe_of_records hs (fun _ => rfl) (fun _ => le_rfl) fun _ _ hr _ => nomatch hr
  | unserialized env config g passes posts records registry =>
    refine refundSafe_of_records hs (fun id => ?_) (fun id => le_rfl) fun id r hr _ =>
      records id ▸ hr
    exact refundsOf_of_posts posts (by simp [feeOf]) id
  | requested env config configData g p passes posts records registry outcome =>
    refine refundSafe_resume (hw.accept hwrap passes posts records registry)
      (hs.accept hw posts records) outcome fun _ hne => ?_
    have hnew : (w.accept env g).refundsOf (w.factory.generateDeploymentId env).1 = [] :=
      (refundsOf_of_posts posts (by simp [feeOf]) _).trans (hw.refundsOf_new env)
    exact absurd hnew hne
  | forced env id p executes outcome =>
    exact refundSafe_resume hw hs outcome fun hends => hc id executes hends
  | continued e task time cycles p mem executes outcome =>
    exact refundSafe_resume (hw.erase task) hs outcome fun hends => hc _ executes hends

/-- A step after which refunds are safe ended no execution that was refunded. -/
theorem endsUnrefunded_of_step (hd : Deploys P w e w') (hw : w.Tracked) (hsound : w.Sound)
    (hs : w'.RefundSafe) : EndsUnrefunded P w e := by
  intro id hid hends hne
  by_contra hnone
  obtain ⟨r, hr⟩ := Option.ne_none_iff_exists'.1 hnone
  cases hd with
  | still e w' env rs pays norefund tasks requests returned ended executes =>
    simp [executes] at hid
  | cleans => cases hid
  | upgrades => cases hid
  | unserialized => cases hid
  | requested => cases hid
  | forced env id' p executes outcome =>
    obtain rfl := Option.some.inj (executes.symm.trans hid)
    exact not_refundSafe_resume hw hsound outcome hends hr hne hs
  | continued e task time cycles p mem executes outcome =>
    obtain rfl := Option.some.inj (executes.symm.trans hid)
    exact not_refundSafe_resume (hw.erase task) (hsound.erase task) outcome hends hr hne hs

theorem refundSafe_start (env : Env) (ledger : Ledger) : (start env ledger).RefundSafe :=
  fun _ => ⟨Nat.zero_le _, fun h => absurd rfl h⟩

/-- Refunds are safe in every state of a run exactly if along the run no execution of a
refunded deployment comes to its end with its record there. -/
theorem refundSafe_iff (P : Platform) (L : LedgerRule) (env : Env) (ledger : Ledger)
    (es : List Event) (hfits : Runs.Along (step P L) CounterFits (start env ledger) es) :
    Runs.Throughout (step P L) RefundSafe (start env ledger) es ↔
      Runs.Along (step P L) (EndsUnrefunded P) (start env ledger) es := by
  refine Runs.throughout_iff_along (I := fun w => w.Sound ∧ w.Tracked) ?_
    ⟨sound_start env ledger, tracked_start env ledger⟩ (refundSafe_start env ledger) hfits
  rintro w e w' ⟨hsound, htracked⟩ hsafe hc hstep
  have hd := step_deploys hsound hstep
  refine ⟨⟨hd.sound hsound, hd.tracked htracked fun _ => hc⟩, ?_⟩
  constructor
  · exact endsUnrefunded_of_step hd htracked hsound
  · exact refundSafe_step hd htracked hc hsafe

/-- A deployment fails, and an admin forces it after its refund. -/
def forcedAfterRefund : List Event :=
  Sample.requested ++
    [.canisterCreated (Sample.task .createCanister) 3 0 (.error .sysTransient "no capacity"),
      .forceExecuteDeployment ⟨4, Sample.admin, 0⟩ Sample.deploymentId]

theorem refundSafe_iff_forcedAfterRefund :
    Runs.Throughout Sample.step RefundSafe Sample.world forcedAfterRefund ↔
      Runs.Along Sample.step (EndsUnrefunded Sample.platform) Sample.world forcedAfterRefund :=
  refundSafe_iff Sample.platform icrc1Transfer _ _ forcedAfterRefund
    (along_counterFits (sound_start _ _) (by decide))

/-- The deployment was charged once and refunded twice. -/
theorem not_refundSafe_forcedAfterRefund :
    ¬Runs.Throughout Sample.step RefundSafe Sample.world forcedAfterRefund := by
  refine Runs.not_throughout (p := fun w => decide (w.chargedFor Sample.deploymentId <
    (w.refundsOf Sample.deploymentId).sum)) (fun w h hs => ?_) (by decide +kernel)
  exact absurd (hs Sample.deploymentId).1 (Nat.not_le.2 (of_decide_eq_true h))

end World

end HunterFi
