import HunterFi.Refunds

/-!
# The end of a paid deployment

The execution that a request spawns is the only one of its deployment, as long as no admin
forces another. While it waits the record is stored and not completed, so archiving leaves it
alone, and nothing was refunded (`Running`). So it ends in one of two ways (`Settled`) :
the strategy is deployed and the fee kept, or the fee is refunded once.

`deployment_settles` has this for every run. It ends at the latest with its third answer.
-/

set_option linter.unusedSectionVars false

namespace HunterFi

/-- An event is an answer to the call a task waits for. -/
def Task.AnsweredBy (t : Task) (e : Event) : Prop :=
  match t.stage with
  | .createCanister => ∃ time cycles result, e = .canisterCreated t time cycles result
  | .installCode _ => ∃ time cycles result, e = .codeInstalled t time cycles result
  | .initStrategy _ => ∃ time cycles result, e = .strategyInitialized t time cycles result

namespace World

open Deployment

variable {P : Platform} {L : LedgerRule} {w w' : World} {env : Env} {spawned : Bool} {id : String}
  {p : Progress × Factory} {e : Event}

/-! ## How an execution ends -/

/-- What the owner of a deployment was charged for it, less what was refunded. -/
def netDebit (w : World) (q : Request) : ℤ :=
  q.charged - (w.refundsOf q.deploymentId).sum

/-- How the execution of a request may end. -/
def Settled (w : World) (q : Request) : Except String DeploymentResult → Prop
  | .ok (.success canisterId) =>
    (∃ r, w.factory.getDeploymentRecord q.deploymentId = some r ∧ r.status = .deployed ∧
      r.canisterId = some canisterId) ∧
    (w.factory.getStrategyMetadata canisterId).isSome ∧ w.netDebit q = q.feeAmount
  | .ok (.failure _) =>
    (∃ r, w.factory.getDeploymentRecord q.deploymentId = some r ∧ r.status = .refunded) ∧
    w.refundsOf q.deploymentId = [q.feeAmount] ∧
    (∀ x ∈ w.factory.records, x.Refunds q.deploymentId → x.user = q.owner) ∧ w.netDebit q = 0
  | .error _ => False

/-- The tasks of a deployment. -/
def tasksOf (w : World) (id : String) : List Task :=
  w.tasks.filter fun t => t.deploymentId = id

/-- The spawned execution of a deployment waits, on a record that is not completed. -/
structure Running (w : World) (id : String) (t : Task) : Prop where
  only : w.tasksOf id = [t]
  spawned : t.spawned = true
  unrefunded : w.refundsOf id = []
  record : ∃ r, w.factory.getDeploymentRecord id = some r ∧ ¬r.Completed

/-- The spawned execution of a deployment has ended. -/
def HasEnded (w : World) (id : String) : Prop :=
  ∃ ret ∈ w.ended, ret.spawned = true ∧ ret.deploymentId = id

/-- The invariant of a deployment that is never forced : its spawned execution is running or
has ended. -/
structure Followed (w : World) (id : String) : Prop where
  live : w.tasksOf id = [] ∨ ∃ t, w.Running id t
  ended : (∃ q ∈ w.requests, q.deploymentId = id) → w.tasksOf id = [] → w.HasEnded id

theorem tasksOf_resume_self : (w.resume P env spawned id p).tasksOf id =
    p.1.waiting spawned env.caller id ++ w.tasksOf id := by
  rw [tasksOf, tasks_resume, List.filter_append, tasksOf]
  obtain ⟨⟨⟩ | ⟨⟩, f⟩ := p <;> simp [Progress.waiting]

theorem tasksOf_resume_of_ne {id' : String} (h : id ≠ id') :
    (w.resume P env spawned id p).tasksOf id' = w.tasksOf id' := by
  rw [tasksOf, tasks_resume, List.filter_append, tasksOf]
  obtain ⟨⟨⟩ | ⟨⟩, f⟩ := p <;> simp [Progress.waiting, h]

/-- A segment of one deployment leaves the record and the refunds of the others. -/
theorem other_of_outcome {f : Factory} {ends : Prop} {left : ℕ} {id' : String} (h : id ≠ id')
    (ho : Outcome P env f id ends left p) :
    p.2.getDeploymentRecord id' = f.getDeploymentRecord id' ∧
      refunds id' p.2.records = refunds id' f.records := by
  cases ho with
  | lost message hr => exact ⟨rfl, rfl⟩
  | waits r r' record stage g hr hends follows status writes =>
    have hrid := follows.deploymentId.trans (Factory.deploymentId_of_getDeploymentRecord hr)
    refine ⟨?_, by rw [writes.posts.records_eq, List.append_nil]⟩
    rw [writes.record, if_neg fun hid => h (hrid.symm.trans hid.symm)]
  | failed r r' message g hr hends follows status writes =>
    have hrid := Factory.deploymentId_of_getDeploymentRecord hr
    refine ⟨?_, ?_⟩
    · rw [writes.record, if_neg fun hid => h (hrid.symm.trans
        (follows.deploymentId.symm.trans hid.symm))]
    · rw [writes.posts.records_eq, refunds_append, refunds_singleton_refundOf, hrid, if_neg h,
        List.append_nil]
  | deployed r r' metadata canisterId g hr hends follows status _ _ writes =>
    have hrid := follows.deploymentId.trans (Factory.deploymentId_of_getDeploymentRecord hr)
    refine ⟨?_, ?_⟩
    · rw [writes.record, if_neg fun hid => h (hrid.symm.trans hid.symm)]
      rfl
    · rw [writes.posts.records_eq, List.append_nil]
      rfl

/-- What keeps the tasks, the refunds, the requests and the ends of a deployment, and its record as
long as that is not completed, leaves it followed. -/
theorem Followed.of_same (hf : w.Followed id) (tasks : w'.tasksOf id = w.tasksOf id)
    (refunds : w'.refundsOf id = w.refundsOf id)
    (requests : ∀ q ∈ w'.requests, q.deploymentId = id → q ∈ w.requests)
    (ended : w.HasEnded id → w'.HasEnded id) (record : ∀ r,
      w.factory.getDeploymentRecord id = some r → ¬r.Completed →
        w'.factory.getDeploymentRecord id = some r) : w'.Followed id := by
  refine ⟨?_, fun ⟨q, hq, hid⟩ hnil => ?_⟩
  · rw [tasks]
    refine hf.live.imp_right ?_
    rintro ⟨t, ht⟩
    obtain ⟨r, hr, hc⟩ := ht.record
    exact ⟨t, tasks.trans ht.only, ht.spawned, refunds.trans ht.unrefunded, r, record r hr hc, hc⟩
  · exact ended (hf.ended ⟨q, requests q hq hid, hid⟩ (tasks.symm.trans hnil))

/-- A segment of one deployment leaves the others followed. -/
theorem Followed.resume_of_ne {ends : Prop} {left : ℕ} {id' : String} (hf : w.Followed id')
    (h : id ≠ id') (ho : Outcome P env w.factory id ends left p) :
    (w.resume P env spawned id p).Followed id' := by
  obtain ⟨hrecord, hrefunds⟩ := other_of_outcome h ho
  refine hf.of_same (tasksOf_resume_of_ne h) ?_ (fun q hq _ => requests_resume ▸ hq) ?_
    fun r hr _ => ?_
  · rw [refundsOf, factory_resume _ ho, hrefunds, refundsOf]
  · rintro ⟨ret, hret, hs⟩
    refine ⟨ret, ?_, hs⟩
    rw [ended_resume]
    exact List.mem_append_right _ hret
  · rw [factory_resume _ ho, hrecord]
    exact hr

/-- What a segment returns is of its own deployment. -/
theorem id_of_returned_resume {spawned' : Bool} {id' : String}
    {result : Except String DeploymentResult}
    (h : (w.resume P env spawned id p).returned = some ⟨spawned', id', result⟩) : id = id' := by
  rw [returned_resume] at h
  obtain ⟨result', -, h⟩ := Option.map_eq_some_iff.1 h
  exact congrArg Return.deploymentId h

/-- What a request was charged and what its record says. -/
theorem Tracked.charged_of_record {r : DeploymentRecord} (hw : w.Tracked)
    (hr : w.factory.getDeploymentRecord id = some r) {q : Request} (hq : q ∈ w.requests)
    (hqid : q.deploymentId = id) :
    q.charged = r.feeAmount ∧ q.feeAmount = r.feeAmount ∧ q.owner = r.owner := by
  obtain ⟨q', hq', hqid', hqo, hqf⟩ := hw.record id r hr
  obtain rfl := hw.request_unique hq hq' (hqid.trans hqid'.symm)
  exact ⟨(hw.charged q hq).trans hqf, hqf, hqo⟩

/-- An execution that fails refunds the fee once, and to the owner. -/
theorem Tracked.settled_failed {r r' : DeploymentRecord} (hw : w.Tracked)
    (hrefunds : w.refundsOf id = []) (hr : w.factory.getDeploymentRecord id = some r)
    (follows : r'.Follows r) (status : r'.status = .refunded)
    (writes : Writes P env w.factory r' [refundOf P env r] w'.factory) {q : Request}
    (hq : q ∈ w.requests) (hqid : q.deploymentId = id) (message : String) :
    w'.Settled q (.ok (.failure message)) := by
  have hrid := Factory.deploymentId_of_getDeploymentRecord hr
  obtain ⟨hcharged, hqf, hqo⟩ := hw.charged_of_record hr hq hqid
  have hrefunded : w'.refundsOf q.deploymentId = [q.feeAmount] := by
    rw [refundsOf, writes.posts.records_eq, refunds_append, refunds_singleton_refundOf, hqid,
      if_pos hrid, hqf]
    exact congrArg (· ++ [r.feeAmount]) hrefunds
  refine ⟨⟨r', ?_, status⟩, hrefunded, fun x hx hxid => ?_, ?_⟩
  · rw [writes.record, if_pos (hqid.trans (follows.deploymentId.trans hrid).symm)]
  · rw [writes.posts.records_eq] at hx
    rcases List.mem_append.1 hx with hx | hx
    · obtain ⟨q', hq', hq'id, hq'o, -⟩ := hw.refund _ x hx hxid
      obtain rfl := hw.request_unique hq hq' hq'id.symm
      exact hq'o.symm
    · obtain rfl := List.mem_singleton.1 hx
      exact hqo.symm
  · rw [netDebit, hrefunded, List.sum_singleton, hcharged, hqf, sub_self]

/-- An execution that succeeds stores the strategy and refunds nothing. -/
theorem Tracked.settled_deployed {r r' : DeploymentRecord} {metadata : StrategyMetadata}
    {canisterId : Principal} (hw : w.Tracked) (hrefunds : w.refundsOf id = [])
    (hr : w.factory.getDeploymentRecord id = some r) (follows : r'.Follows r)
    (status : r'.status = .deployed) (canister : r'.canisterId = some canisterId)
    (stored : metadata.canisterId = canisterId)
    (writes : Writes P env (w.factory.storeStrategyMetadata metadata) r' [] w'.factory)
    {q : Request} (hq : q ∈ w.requests) (hqid : q.deploymentId = id) :
    w'.Settled q (.ok (.success canisterId)) := by
  have hrid := Factory.deploymentId_of_getDeploymentRecord hr
  obtain ⟨hcharged, hqf, -⟩ := hw.charged_of_record hr hq hqid
  have hrefunded : w'.refundsOf q.deploymentId = [] := by
    rw [refundsOf, writes.posts.records_eq, List.append_nil, hqid]
    exact hrefunds
  refine ⟨⟨r', ?_, status, canister⟩, ?_, ?_⟩
  · rw [writes.record, if_pos (hqid.trans (follows.deploymentId.trans hrid).symm)]
  · rw [Factory.getStrategyMetadata, writes.registry.strategies, Factory.storeStrategyMetadata,
      ← stored, KeyedMap.get?_insert_self]
    rfl
  · rw [netDebit, hrefunded, hcharged, hqf]
    simp

/-- The spawned execution goes on or ends well. -/
theorem followed_resume_self {ends : Prop} {left : ℕ} {r : DeploymentRecord} (hw : w.Tracked)
    (hnil : w.tasksOf id = []) (hrefunds : w.refundsOf id = [])
    (hr : w.factory.getDeploymentRecord id = some r) (hc : ¬r.Completed)
    (ho : Outcome P env w.factory id ends left p) :
    (w.resume P env true id p).Followed id ∧ ∀ q ∈ w.requests, q.deploymentId = id →
      ∀ result, (w.resume P env true id p).returned = some ⟨true, id, result⟩ →
        (w.resume P env true id p).Settled q result := by
  have hf := factory_resume (w := w) true ho
  -- a task is left only by a segment that waits
  have hend : ∀ {q f}, p = (.returned q, f) → (w.resume P env true id p).Followed id := by
    rintro q f rfl
    have htasks : (w.resume P env true id (.returned q, f)).tasksOf id = [] := by
      rw [tasksOf_resume_self, hnil]
      rfl
    exact ⟨Or.inl htasks, fun _ _ => ⟨⟨true, id, q⟩, List.mem_cons_self, rfl, rfl⟩⟩
  cases ho with
  | lost message hr' => exact absurd hr' (by simp [hr])
  | waits r₀ r' record stage g hr' hends follows status writes =>
    obtain rfl := Option.some.inj (hr.symm.trans hr')
    have hrid := follows.deploymentId.trans (Factory.deploymentId_of_getDeploymentRecord hr)
    have htasks : (w.resume P env true id (.awaiting record stage, g)).tasksOf id =
        [⟨true, env.caller, id, record, stage⟩] := by
      rw [tasksOf_resume_self, hnil]
      rfl
    refine ⟨⟨Or.inr ⟨_, htasks, rfl, ?_, r', ?_, ?_⟩, fun _ h => ?_⟩, fun q hq hqid result h => ?_⟩
    · rw [refundsOf, hf, writes.posts.records_eq, List.append_nil]
      exact hrefunds
    · rw [hf, writes.record, if_pos hrid.symm]
    · unfold DeploymentRecord.Completed at hc ⊢
      rcases status with h | h | h
      · rw [h]
        exact hc
      · simp [h]
      · simp [h]
    · rw [htasks] at h
      cases h
    · cases h
  | failed r₀ r' message g hr' hends follows status writes =>
    obtain rfl := Option.some.inj (hr.symm.trans hr')
    refine ⟨hend rfl, fun q hq hqid result h => ?_⟩
    obtain rfl : .ok (.failure message) = result := by simpa [Progress.result] using h
    have hwrites : Writes P env w.factory r' [refundOf P env r]
        (w.resume P env true id (.returned (.ok (.failure message)), g)).factory := by
      rwa [hf]
    exact hw.settled_failed hrefunds hr follows status hwrites hq hqid message
  | deployed r₀ r' metadata canisterId g hr' hends follows status canister stored writes =>
    obtain rfl := Option.some.inj (hr.symm.trans hr')
    refine ⟨hend rfl, fun q hq hqid result h => ?_⟩
    obtain rfl : .ok (.success canisterId) = result := by simpa [Progress.result] using h
    have hwrites : Writes P env (w.factory.storeStrategyMetadata metadata) r' []
        (w.resume P env true id (.returned (.ok (.success canisterId)), g)).factory := by
      rwa [hf]
    exact hw.settled_deployed hrefunds hr follows status canister stored hwrites hq hqid

/-! ## Steps and runs -/

/-- Where the spawned execution of a deployment has ended in the last segment, it has ended well. -/
def EndsWell (w : World) (id : String) : Prop :=
  ∀ q ∈ w.requests, q.deploymentId = id → ∀ result,
    w.returned = some ⟨true, id, result⟩ → w.Settled q result

theorem endsWell_of_returned (h : w.returned = none) : w.EndsWell id := by
  intro q _ _ result hresult
  rw [h] at hresult
  cases hresult

theorem endsWell_resume_of_ne {id' : String} (h : id ≠ id') :
    (w.resume P env spawned id p).EndsWell id' :=
  fun _ _ _ _ hresult => absurd (id_of_returned_resume hresult) h

/-- A request begins a deployment that is followed, and leaves the others so. -/
theorem Followed.accept_resume {ends : Prop} {left : ℕ} {g : Factory} {config : Config}
    {configData : List UInt8} (hf : w.Followed id) (hw : w.Tracked)
    (hwrap : w.factory.deploymentIdCounter + 1 < 2 ^ 64) (passes : Passes env w.factory config)
    (posts : Posts P env w.factory [feeOf P env w.factory] g)
    (records : ∀ id, g.getDeploymentRecord id =
      if id = (w.factory.generateDeploymentId env).1 then some (newRecord env w.factory configData)
      else w.factory.getDeploymentRecord id)
    (registry : SameRegistry (w.factory.generateDeploymentId env).2 g)
    (outcome : Outcome P env g (w.factory.generateDeploymentId env).1 ends left p) :
    ((w.accept env g).resume P env true (w.factory.generateDeploymentId env).1 p).Followed id ∧
      ((w.accept env g).resume P env true (w.factory.generateDeploymentId env).1 p).EndsWell
        id := by
  have hrefunds : (w.accept env g).refundsOf id = w.refundsOf id :=
    refundsOf_of_posts posts (by simp [feeOf]) id
  by_cases hid : (w.factory.generateDeploymentId env).1 = id
  · subst hid
    have hnil : (w.accept env g).tasksOf (w.factory.generateDeploymentId env).1 = [] := by
      refine List.filter_eq_nil_iff.2 fun t htm => ?_
      obtain ⟨q, hq, hqid⟩ := hw.task t htm
      simpa using fun h => hw.fresh hq env (hqid.trans h)
    have hr : (w.accept env g).factory.getDeploymentRecord
        (w.factory.generateDeploymentId env).1 = some (newRecord env w.factory configData) :=
      (records _).trans (if_pos rfl)
    obtain ⟨hfollowed, hends⟩ := followed_resume_self
      (hw.accept hwrap passes posts records registry) hnil
      (hrefunds.trans (hw.refundsOf_new env)) hr
      (by simp [DeploymentRecord.Completed, newRecord]) outcome
    exact ⟨hfollowed, fun q hq => hends q (requests_resume ▸ hq)⟩
  · have hold : (w.accept env g).Followed id := by
      refine hf.of_same rfl hrefunds (fun q hq hqid => ?_) (fun h => h) fun r hr _ => ?_
      · refine (List.mem_cons.1 hq).resolve_left ?_
        rintro rfl
        exact hid hqid
      · exact ((records id).trans (if_neg (Ne.symm hid))).trans hr
    exact ⟨hold.resume_of_ne hid outcome, endsWell_resume_of_ne hid⟩

/-- An answer to a task leaves all deployments followed. -/
theorem Followed.erase_resume {ends : Prop} {left : ℕ} {task : Task} (hf : w.Followed id)
    (hw : w.Tracked) (mem : task ∈ w.tasks)
    (outcome : Outcome P env w.factory task.deploymentId ends left p) :
    (resume { w with tasks := w.tasks.erase task } P env task.spawned task.deploymentId
        p).Followed id ∧
      (resume { w with tasks := w.tasks.erase task } P env task.spawned task.deploymentId
        p).EndsWell id := by
  have herase : ({ w with tasks := w.tasks.erase task } : World).tasksOf id =
      (w.tasksOf id).erase task := List.erase_filter.symm
  by_cases hid : task.deploymentId = id
  · subst hid
    have hmem : task ∈ w.tasksOf task.deploymentId :=
      List.mem_filter.2 ⟨mem, decide_eq_true rfl⟩
    rcases hf.live with hnil | ⟨t, hrun⟩
    · rw [hnil] at hmem
      cases hmem
    · obtain rfl : task = t := by simpa [hrun.only] using hmem
      obtain ⟨r, hr, hc⟩ := hrun.record
      rw [hrun.only, List.erase_cons_head] at herase
      obtain ⟨hfollowed, hends⟩ :=
        followed_resume_self (hw.erase task) herase hrun.unrefunded hr hc outcome
      rw [hrun.spawned]
      exact ⟨hfollowed, fun q hq => hends q (requests_resume ▸ hq)⟩
  · have hold : ({ w with tasks := w.tasks.erase task } : World).Followed id := by
      refine hf.of_same ?_ rfl (fun q hq _ => hq) (fun h => h) fun r hr _ => hr
      rw [herase, List.erase_of_not_mem]
      exact fun h => hid (of_decide_eq_true (List.mem_filter.1 h).2)
    exact ⟨hold.resume_of_ne hid outcome, endsWell_resume_of_ne hid⟩

/-- A step that does not force the deployment leaves it followed, and if its spawned execution
ends in the step, it ends well. -/
theorem Followed.step (hf : w.Followed id) (hd : Deploys P w e w') (hw : w.Tracked)
    (hwrap : w.CounterFits e) (hforce : ∀ env, e ≠ .forceExecuteDeployment env id) :
    w'.Followed id ∧ w'.EndsWell id := by
  cases hd with
  | still e w' env rs pays norefund tasks requests returned ended executes =>
    refine ⟨hf.of_same ?_ ?_ ?_ ?_ fun r hr _ => (pays.record id).trans hr,
      endsWell_of_returned returned⟩
    · rw [tasksOf, tasks, tasksOf]
    · exact refundsOf_of_posts pays.posts norefund id
    · exact fun q hq _ => requests ▸ hq
    · rw [HasEnded, HasEnded, ended]
      exact fun h => h
  | cleans time cycles g archives =>
    refine ⟨hf.of_same rfl ?_ (fun q hq _ => hq) (fun h => h) fun r hr hc => ?_,
      endsWell_of_returned rfl⟩
    · exact refundsOf_of_posts archives.posts (by simp) id
    · rcases archives.record id with heq | ⟨-, r', hr', hc'⟩
      · exact heq.trans hr
      · obtain rfl := Option.some.inj (hr.symm.trans hr')
        exact absurd hc' hc
  | upgrades tasks =>
    have hnil : w.tasksOf id = [] := by rw [tasksOf, tasks, List.filter_nil]
    exact ⟨⟨Or.inl hnil, fun hq _ => hf.ended hq hnil⟩, endsWell_of_returned rfl⟩
  | unserialized env config g passes posts records registry =>
    refine ⟨hf.of_same rfl ?_ (fun q hq _ => hq) (fun h => h)
      fun r hr _ => (records id).trans hr, endsWell_of_returned rfl⟩
    exact refundsOf_of_posts posts (by simp [feeOf]) id
  | requested env config configData g p passes posts records registry outcome =>
    exact hf.accept_resume hw hwrap passes posts records registry outcome
  | forced env id' p executes outcome =>
    have hid : id' ≠ id := by
      rintro rfl
      exact hforce env rfl
    exact ⟨hf.resume_of_ne hid outcome, endsWell_resume_of_ne hid⟩
  | continued e task time cycles p mem executes outcome => exact hf.erase_resume hw mem outcome

/-- A segment ends its execution or leaves a wait with fewer answers to come. -/
theorem resume_progress {ends : Prop} {left : ℕ} {f : Factory}
    (ho : Outcome P env f id ends left p) :
    (∃ result, (w.resume P env spawned id p).returned = some ⟨spawned, id, result⟩) ∨
      ∃ t ∈ (w.resume P env spawned id p).tasks, t.deploymentId = id ∧ t.stage.left < left := by
  cases ho with
  | lost => exact Or.inl ⟨_, rfl⟩
  | waits r r' record stage g hr hends follows status writes hty fewer =>
    exact Or.inr ⟨_, List.mem_cons_self, rfl, fewer⟩
  | failed => exact Or.inl ⟨_, rfl⟩
  | deployed => exact Or.inl ⟨_, rfl⟩

/-- Every answer to a waiting execution is taken up, and leads to its end or to a wait with
fewer answers to come. -/
theorem answered_progress (hs : w.Sound) (L : LedgerRule) {t : Task} (ht : t ∈ w.tasks)
    (he : t.AnsweredBy e) : ∃ w', step P L w e = some w' ∧
      ((∃ result, w'.returned = some ⟨t.spawned, t.deploymentId, result⟩) ∨
        ∃ t' ∈ w'.tasks, t'.deploymentId = t.deploymentId ∧ t'.stage.left < t.stage.left) := by
  have hty := hs.tasks t ht
  unfold Task.AnsweredBy at he
  split at he
  · rename_i hst
    obtain ⟨time, cycles, result, rfl⟩ := he
    refine ⟨w.continueTask P t time cycles fun env =>
      afterCreateCanister P env w.factory t.deploymentId t.record result, ?_, ?_⟩
    · exact if_pos (c := t ∈ w.tasks ∧ t.stage = .createCanister) ⟨ht, hst⟩
    · rw [hst]
      exact resume_progress (afterCreateCanister_outcome hs.records hty result)
  · rename_i canisterId hst
    obtain ⟨time, cycles, result, rfl⟩ := he
    refine ⟨w.continueTask P t time cycles fun env =>
      afterInstallCode P env w.factory t.deploymentId t.record canisterId result, ?_, ?_⟩
    · simp only [step, Event.sender, next, hst, if_pos ht]
      rfl
    · rw [hst]
      exact resume_progress (afterInstallCode_outcome hs.records hty canisterId result)
  · rename_i call hst
    obtain ⟨time, cycles, result, rfl⟩ := he
    refine ⟨w.continueTask P t time cycles fun env =>
      afterInitStrategy P env w.factory t.deploymentId t.record call.canisterId result, ?_, ?_⟩
    · simp only [step, Event.sender, next, hst, if_pos ht]
      rfl
    · rw [hst]
      exact resume_progress (afterInitStrategy_outcome hs.records hty call.canisterId result)

/-- What holds of an accepted request in every state after it. -/
structure Concludes (P : Platform) (L : LedgerRule) (w : World) (q : Request) : Prop where
  /-- its execution waits or has ended -/
  running_or_ended : (∃ t ∈ w.tasks, t.deploymentId = q.deploymentId ∧ t.spawned = true) ∨
    w.HasEnded q.deploymentId
  /-- at most three answers are to come, and each is taken up -/
  answers : ∀ t ∈ w.tasks, t.deploymentId = q.deploymentId → t.stage.left ≤ 3 ∧
    ∀ e, t.AnsweredBy e → ∃ w', step P L w e = some w' ∧
      ((∃ result, w'.returned = some ⟨t.spawned, q.deploymentId, result⟩) ∨
        ∃ t' ∈ w'.tasks, t'.deploymentId = q.deploymentId ∧ t'.stage.left < t.stage.left)
  /-- when it ends it ends well -/
  settled : ∀ result, w.returned = some ⟨true, q.deploymentId, result⟩ → w.Settled q result
  /-- the records are what happened to the balance of the owner -/
  booked : Movement.Unsaturated u64Max (movements q.owner w.factory.records) →
    w.factory.balance q.owner + Movement.debits (movements q.owner w.factory.records) =
      Movement.credits (movements q.owner w.factory.records)

theorem Stage.left_le (stage : Stage) : stage.left ≤ 3 := by
  cases stage <;> simp [Stage.left]

/-- The books and the deployments of a state, and one deployment in it. -/
structure Followable (w : World) (id : String) : Prop where
  sound : w.Sound
  tracked : w.Tracked
  kept : Kept w.factory
  followed : w.Followed id
  settled : ∀ q ∈ w.requests, q.deploymentId = id → ∀ result,
    w.returned = some ⟨true, id, result⟩ → w.Settled q result

theorem Followable.concludes (h : w.Followable id) (P : Platform) (L : LedgerRule) {q : Request}
    (hq : q ∈ w.requests) (hid : q.deploymentId = id) : Concludes P L w q := by
  subst hid
  refine ⟨?_, fun t ht htid => ⟨Stage.left_le _, fun e he => ?_⟩, h.settled q hq rfl, fun hs => ?_⟩
  · rcases h.followed.live with hnil | ⟨t, hrun⟩
    · exact Or.inr (h.followed.ended ⟨q, hq, rfl⟩ hnil)
    · have hmem : t ∈ w.tasksOf q.deploymentId := by simp [hrun.only]
      obtain ⟨ht, htid⟩ := List.mem_filter.1 hmem
      exact Or.inl ⟨t, ht, of_decide_eq_true htid, hrun.spawned⟩
  · rw [← htid]
    exact answered_progress h.sound L ht he
  · rw [h.kept.balance_eq]
    exact Movement.replay_add_debits (h.kept.covered _) hs

/-- The execution of an accepted request that no admin forces is running or has ended at every
point of a run. It ends with its third answer at the latest, and then either the strategy is
deployed and the owner is charged the fee, or the fee has been refunded once. -/
theorem deployment_concludes (P : Platform) (L : LedgerRule) (env : Env) (ledger : Ledger)
    (es : List Event) (id : String)
    (hfits : Runs.Along (step P L) CounterFits (start env ledger) es)
    (hforce : ∀ env', .forceExecuteDeployment env' id ∉ es) :
    Runs.Throughout (step P L)
      (fun w => ∀ q ∈ w.requests, q.deploymentId = id → Concludes P L w q)
      (start env ledger) es := by
  have hforce : Runs.Along (step P L) (fun _ e => ∀ env', e ≠ .forceExecuteDeployment env' id)
      (start env ledger) es := by
    refine Runs.along_of_forall
      (C := fun e : Event => ∀ env', e ≠ .forceExecuteDeployment env' id) ?_
    rintro e he env' rfl
    exact hforce env' he
  have hstart : (start env ledger).Followable id :=
    ⟨sound_start env ledger, tracked_start env ledger, kept_start env ledger,
      ⟨Or.inl rfl, fun ⟨q, hq, _⟩ => by cases hq⟩, fun q hq => by cases hq⟩
  refine (Runs.throughout_of_along (P := fun w => w.Followable id) ?_ hstart
    (hfits.and hforce)).mono fun w h q (hq : q ∈ w.requests) hid => h.concludes P L hq hid
  rintro w e w' h ⟨hc, hf⟩ hstep
  have hd := step_deploys h.sound hstep
  obtain ⟨env', rs, hposts⟩ := hd.posts
  obtain ⟨hfollowed, hsettled⟩ := h.followed.step hd h.tracked hc hf
  exact ⟨hd.sound h.sound, hd.tracked h.tracked fun _ => hc, hposts.kept h.kept, hfollowed,
    hsettled⟩

/-- A request whose calls all succeed. -/
def succeeds : List Event :=
  Sample.requested ++
    [.canisterCreated (Sample.task .createCanister) 3 0 (.ok Sample.canister),
      .codeInstalled (Sample.task (.installCode Sample.canister)) 4 0 (.ok ()),
      .strategyInitialized (Sample.task (.initStrategy ⟨Sample.canister, "init_self_hedging",
        Sample.user, .selfHedging Sample.config⟩)) 5 0 (.ok ())]

/-- It ends with its strategy deployed and the fee charged. -/
theorem deployment_concludes_succeeds : ∃ w q, Runs.run Sample.step Sample.world succeeds = some w ∧
    q ∈ w.requests ∧ w.Settled q (.ok (.success Sample.canister)) := by
  have hend : (Runs.run Sample.step Sample.world succeeds).any (fun w =>
      decide (w.returned = some ⟨true, Sample.deploymentId, .ok (.success Sample.canister)⟩) &&
        w.requests.any fun q => q.deploymentId = Sample.deploymentId) = true := by
    decide +kernel
  obtain ⟨w, hrun, hw⟩ := (Option.any_eq_true _ _).1 hend
  obtain ⟨hret, hq⟩ := Bool.and_eq_true_iff.1 hw
  obtain ⟨q, hq, hid⟩ := List.any_eq_true.1 hq
  have hid : q.deploymentId = Sample.deploymentId := of_decide_eq_true hid
  have h := (deployment_concludes Sample.platform icrc1Transfer (Sample.message 0 Sample.admin)
    Sample.ledger succeeds Sample.deploymentId (along_counterFits (sound_start _ _) (by decide))
    (by simp [succeeds, Sample.requested])).last hrun q hq hid
  exact ⟨w, q, hrun, hq, h.settled _ (hid ▸ of_decide_eq_true hret)⟩

end World

end HunterFi
