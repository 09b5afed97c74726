import HunterFi.Deployments

/-!
# Requests along a run

Two invariants of reachable states. `Sound` : stored records can be refunded and are not left
in `DeploymentFailed`. `Tracked` : records, tasks and refunds belong to accepted requests,
whose ids are pairwise different as long as the id counter does not wrap. Only requests move
that counter (`Deploys.counter_eq_or`), so it does not wrap in a run with few of them.
-/

set_option linter.unusedSectionVars false

namespace HunterFi

/-- A call of one of the request methods. -/
def Event.isRequest : Event → Bool
  | requestStrategy _ _ => true
  | _ => false

namespace World

open Deployment

variable {P : Platform} {L : LedgerRule} {w w' : World} {env : Env} {spawned : Bool} {id : String}
  {p : Progress × Factory} {e : Event}

/-! ## Sound states -/

theorem sound_of_outcome {f : Factory} {ends : Prop} {left : ℕ} (hf : f.Sound)
    (h : Outcome P env f id ends left p) : p.2.Sound := by
  cases h with
  | lost message hr => exact hf
  | waits r r' record stage g hr hends follows status writes =>
    have hs := hf id r hr
    refine writes.sound hf (follows.sound hs ?_)
    rcases status with h | h | h
    · exact h ▸ hs.status_ne
    · simp [h]
    · simp [h]
  | failed r r' message g hr hends follows status writes =>
    exact writes.sound hf (follows.sound (hf id r hr) (by simp [status]))
  | deployed r r' metadata canisterId g hr hends follows status _ _ writes =>
    exact writes.sound hf (follows.sound (hf id r hr) (by simp [status]))

theorem strategyType_of_waiting {f : Factory} {ends : Prop} {left : ℕ} {caller : Principal}
    (h : Outcome P env f id ends left p) {t : Task} (ht : t ∈ p.1.waiting spawned caller id) :
    t.record.strategyType = .selfHedging := by
  cases h with
  | waits r r' record stage g hr hends follows status writes hty =>
    obtain rfl := List.mem_singleton.1 ht
    exact hty
  | lost => simp [Progress.waiting] at ht
  | failed => simp [Progress.waiting] at ht
  | deployed => simp [Progress.waiting] at ht

/-- A segment of an execution leaves a sound state sound. -/
theorem sound_resume {ends : Prop} {left : ℕ} (hw : w.Sound)
    (h : Outcome P env w.factory id ends left p) : (w.resume P env spawned id p).Sound := by
  refine ⟨?_, fun t ht => ?_⟩
  · rw [factory_resume _ h]
    exact sound_of_outcome hw.records h
  · rw [tasks_resume] at ht
    rcases List.mem_append.1 ht with ht | ht
    · exact strategyType_of_waiting h ht
    · exact hw.tasks t ht

/-- The answer to a task takes it out of those that wait. -/
theorem Sound.erase (h : w.Sound) (task : Task) :
    ({ w with tasks := w.tasks.erase task } : World).Sound :=
  ⟨h.records, fun t ht => h.tasks t (List.mem_of_mem_erase ht)⟩

/-- Reachable states are sound. -/
theorem Deploys.sound (hd : Deploys P w e w') (h : w.Sound) : w'.Sound := by
  cases hd with
  | still e w' env rs pays norefund tasks requests returned ended executes =>
    refine ⟨fun id r hr => h.records id r (pays.record id ▸ hr), fun t ht => h.tasks t (tasks ▸ ht)⟩
  | cleans time cycles g archives => exact ⟨archives.sound h.records, h.tasks⟩
  | upgrades tasks =>
    refine ⟨fun id r hr => ?_, h.tasks⟩
    cases hr
  | unserialized env config g passes posts records registry =>
    exact ⟨fun id r hr => h.records id r (records id ▸ hr), h.tasks⟩
  | requested env config configData g p passes posts records registry outcome =>
    exact sound_resume (w := w.accept env g) ⟨passes.sound h.records records, h.tasks⟩ outcome
  | forced env id p executes outcome => exact sound_resume h outcome
  | continued e task time cycles p mem executes outcome =>
    exact sound_resume (h.erase task) outcome

theorem sound_start (env : Env) (ledger : Ledger) : (start env ledger).Sound where
  records := fun _ _ hr => by cases hr
  tasks := by simp [start]

/-! ## Requests and their ids -/

/-- Records, tasks and refunds belong to accepted requests, and these have ids of their own,
each numbered below the counter. -/
structure Tracked (w : World) : Prop where
  ids_nodup : (w.requests.map Request.deploymentId).Nodup
  numbered : ∀ q ∈ w.requests, ∃ time caller k,
    q.deploymentId = stampId time caller (toString k) ∧ k < w.factory.deploymentIdCounter
  charged : ∀ q ∈ w.requests, q.charged = q.feeAmount
  record : ∀ id r, w.factory.getDeploymentRecord id = some r →
    ∃ q ∈ w.requests, q.deploymentId = id ∧ q.owner = r.owner ∧ q.feeAmount = r.feeAmount
  task : ∀ t ∈ w.tasks, ∃ q ∈ w.requests, q.deploymentId = t.deploymentId
  refund : ∀ id, ∀ r ∈ w.factory.records, r.Refunds id →
    ∃ q ∈ w.requests, q.deploymentId = id ∧ q.owner = r.user ∧ q.feeAmount = r.amount

theorem tracked_start (env : Env) (ledger : Ledger) : (start env ledger).Tracked where
  ids_nodup := by simp [start]
  numbered := by simp [start]
  charged := by simp [start]
  record := fun _ _ hr => by cases hr
  task := by simp [start]
  refund := by simp [start, Api.init, Factory.initial, Factory.records]

theorem Tracked.erase (h : w.Tracked) (task : Task) :
    ({ w with tasks := w.tasks.erase task } : World).Tracked :=
  ⟨h.ids_nodup, h.numbered, h.charged, h.record,
    fun t ht => h.task t (List.mem_of_mem_erase ht), h.refund⟩

/-- The request that `w` knows under an id. -/
theorem Tracked.request_unique (h : w.Tracked) {q q' : Request} (hq : q ∈ w.requests)
    (hq' : q' ∈ w.requests) (hid : q.deploymentId = q'.deploymentId) : q = q' :=
  List.inj_on_of_nodup_map h.ids_nodup hq hq' hid

theorem Tracked.numbered_succ (h : w.Tracked) : ∀ q ∈ w.requests, ∃ time caller k,
    q.deploymentId = stampId time caller (toString k) ∧
      k < w.factory.deploymentIdCounter + 1 := by
  intro q hq
  obtain ⟨time, caller, k, hk, hlt⟩ := h.numbered q hq
  exact ⟨time, caller, k, hk, Nat.lt_succ_of_lt hlt⟩

/-- The next id is not that of an accepted request. -/
theorem Tracked.fresh (h : w.Tracked) {q : Request} (hq : q ∈ w.requests) (env : Env) :
    q.deploymentId ≠ (w.factory.generateDeploymentId env).1 := by
  intro hid
  obtain ⟨time, caller, k, hk, hlt⟩ := h.numbered q hq
  exact absurd (counter_of_stampId (hk.symm.trans hid)) hlt.ne

/-- A state stays tracked when a later state of a record is stored and its fee is refunded
or not. -/
theorem Tracked.store (hw : w.Tracked) (P : Platform) (env : Env) {r r' : DeploymentRecord}
    {rs : List TransactionRecord} {g : Factory} (hr : w.factory.getDeploymentRecord id = some r)
    (follows : r'.Follows r)
    (record : ∀ id, g.getDeploymentRecord id =
      if id = r'.deploymentId then some r' else w.factory.getDeploymentRecord id)
    (records : g.records = w.factory.records ++ rs) (refund : ∀ x ∈ rs, x = refundOf P env r)
    (counter : g.deploymentIdCounter = w.factory.deploymentIdCounter) :
    ({ w with factory := g } : World).Tracked := by
  have hrid := Factory.deploymentId_of_getDeploymentRecord hr
  obtain ⟨q, hq, hqid, hqo, hqf⟩ := hw.record id r hr
  refine ⟨hw.ids_nodup, ?_, hw.charged, fun id' x hx => ?_, hw.task, fun id' x hx hxid => ?_⟩
  · simp only [counter]
    exact hw.numbered
  · replace hx : g.getDeploymentRecord id' = some x := hx
    rw [record] at hx
    split_ifs at hx with hid
    · obtain rfl := Option.some.inj hx
      exact ⟨q, hq, by rw [hqid, hid, follows.deploymentId, hrid], hqo.trans follows.owner.symm,
        hqf.trans follows.feeAmount.symm⟩
    · exact hw.record id' x hx
  · replace hx : x ∈ g.records := hx
    rw [records] at hx
    rcases List.mem_append.1 hx with hx | hx
    · exact hw.refund id' x hx hxid
    · obtain rfl := refund x hx
      rw [refunds_refundOf, hrid] at hxid
      exact ⟨q, hq, hqid.trans hxid, hqo, hqf⟩

/-- A segment of an execution leaves a tracked state tracked. -/
theorem tracked_resume {ends : Prop} {left : ℕ} (hw : w.Tracked)
    (h : Outcome P env w.factory id ends left p) : (w.resume P env spawned id p).Tracked := by
  have hf := factory_resume (w := w) spawned h
  have key : ({ w with factory := p.2 } : World).Tracked ∧
      ∀ t ∈ p.1.waiting spawned env.caller id,
        ∃ q ∈ w.requests, q.deploymentId = t.deploymentId := by
    cases h with
    | lost message hr => exact ⟨hw, by simp [Progress.waiting]⟩
    | waits r r' record stage g hr hends follows status writes =>
      refine ⟨hw.store P env hr follows writes.record writes.posts.records_eq
        (by simp) writes.registry.counter, fun t ht => ?_⟩
      obtain rfl := List.mem_singleton.1 ht
      obtain ⟨q, hq, hqid, -⟩ := hw.record id r hr
      exact ⟨q, hq, hqid⟩
    | failed r r' message g hr hends follows status writes =>
      exact ⟨hw.store P env hr follows writes.record writes.posts.records_eq
        (by simp) writes.registry.counter, by simp [Progress.waiting]⟩
    | deployed r r' metadata canisterId g hr hends follows status _ _ writes =>
      exact ⟨hw.store P env hr follows writes.record writes.posts.records_eq
        (by simp) writes.registry.counter, by simp [Progress.waiting]⟩
  obtain ⟨ht, hwait⟩ := key
  refine ⟨?_, ?_, ?_, ?_, ?_, ?_⟩
  · rw [requests_resume]
    exact ht.ids_nodup
  · rw [requests_resume, hf]
    exact ht.numbered
  · rw [requests_resume]
    exact ht.charged
  · rw [requests_resume, hf]
    exact ht.record
  · rw [requests_resume, tasks_resume]
    intro t htm
    rcases List.mem_append.1 htm with htm | htm
    · exact hwait t htm
    · exact ht.task t htm
  · rw [requests_resume, hf]
    exact ht.refund

/-- The counter after a request that does not wrap it. -/
theorem counter_generateDeploymentId {f : Factory} (hwrap : f.deploymentIdCounter + 1 < 2 ^ 64)
    (env : Env) : (f.generateDeploymentId env).2.deploymentIdCounter =
      f.deploymentIdCounter + 1 :=
  Nat.mod_eq_of_lt hwrap

/-- A fee that is covered lowers the balance of its payer by its amount. -/
theorem balance_of_feeOf {f g : Factory} {config : Config} (passes : Passes env f config)
    (posts : Posts P env f [feeOf P env f] g) :
    g.balance env.caller + f.deploymentFee = f.balance env.caller := by
  have hb := posts.balance_eq env.caller
  rw [movements_singleton (m := .debit f.deploymentFee) rfl, feeOf, Factory.user_newTransaction,
    if_pos rfl] at hb
  have hc := passes.covered
  simp only [List.foldl_cons, List.foldl_nil, Movement.apply] at hb
  omega

/-- An accepted request leaves a tracked state tracked. -/
theorem Tracked.accept (h : w.Tracked) (hwrap : w.factory.deploymentIdCounter + 1 < 2 ^ 64)
    {config : Config} {configData : List UInt8} {g : Factory}
    (passes : Passes env w.factory config)
    (posts : Posts P env w.factory [feeOf P env w.factory] g)
    (records : ∀ id, g.getDeploymentRecord id =
      if id = (w.factory.generateDeploymentId env).1 then some (newRecord env w.factory configData)
      else w.factory.getDeploymentRecord id)
    (registry : SameRegistry (w.factory.generateDeploymentId env).2 g) :
    (w.accept env g).Tracked := by
  have hcounter : g.deploymentIdCounter = w.factory.deploymentIdCounter + 1 :=
    registry.counter.trans (counter_generateDeploymentId hwrap env)
  refine ⟨?_, ?_, ?_, fun id r hr => ?_, fun t ht => ?_, fun id r hr hrid => ?_⟩
  · refine List.nodup_cons.2 ⟨fun hmem => ?_, h.ids_nodup⟩
    obtain ⟨q, hq, hqid⟩ := List.mem_map.1 hmem
    exact h.fresh hq env hqid
  · simp only [World.accept, hcounter]
    refine List.forall_mem_cons.2 ⟨?_, h.numbered_succ⟩
    exact ⟨env.time, env.caller, w.factory.deploymentIdCounter, rfl, Nat.lt_succ_self _⟩
  · refine List.forall_mem_cons.2 ⟨?_, h.charged⟩
    have hb := balance_of_feeOf passes posts
    simp only
    omega
  · replace hr : g.getDeploymentRecord id = some r := hr
    rw [records] at hr
    split_ifs at hr with hid
    · obtain rfl := Option.some.inj hr
      exact ⟨_, List.mem_cons_self, hid.symm, rfl, rfl⟩
    · obtain ⟨q, hq, hq'⟩ := h.record id r hr
      exact ⟨q, List.mem_cons_of_mem _ hq, hq'⟩
  · obtain ⟨q, hq, hqid⟩ := h.task t ht
    exact ⟨q, List.mem_cons_of_mem _ hq, hqid⟩
  · replace hr : r ∈ g.records := hr
    rw [posts.records_eq] at hr
    rcases List.mem_append.1 hr with hr | hr
    · obtain ⟨q, hq, hq'⟩ := h.refund id r hr hrid
      exact ⟨q, List.mem_cons_of_mem _ hq, hq'⟩
    · obtain rfl := List.mem_singleton.1 hr
      exact absurd hrid.1 (by simp [feeOf])

/-- A step that is no request that wraps the counter keeps the requests tracked. -/
theorem Deploys.tracked (hd : Deploys P w e w') (h : w.Tracked)
    (hwrap : e.isRequest = true → w.factory.deploymentIdCounter + 1 < 2 ^ 64) : w'.Tracked := by
  cases hd with
  | still e w' env rs pays norefund tasks requests returned ended executes =>
    refine ⟨?_, ?_, ?_, ?_, ?_, ?_⟩
    · rw [requests]
      exact h.ids_nodup
    · rw [requests, pays.counter]
      exact h.numbered
    · rw [requests]
      exact h.charged
    · rw [requests]
      exact fun id r hr => h.record id r (pays.record id ▸ hr)
    · rw [requests, tasks]
      exact h.task
    · rw [requests, pays.posts.records_eq]
      intro id r hr hrid
      rcases List.mem_append.1 hr with hr | hr
      · exact h.refund id r hr hrid
      · exact absurd hrid.1 (norefund r hr)
  | cleans time cycles g archives =>
    refine ⟨h.ids_nodup, ?_, h.charged, fun id r hr => ?_, h.task, ?_⟩
    · intro q hq
      obtain ⟨time, caller, k, hk, hlt⟩ := h.numbered q hq
      exact ⟨time, caller, k, hk, archives.registry.counter.symm ▸ hlt⟩
    · rcases archives.record id with heq | ⟨hnone, -⟩
      · exact h.record id r (heq ▸ hr)
      · exact absurd (hnone.symm.trans hr) (by simp)
    · have hrec := archives.posts.records_eq
      rw [List.append_nil] at hrec
      exact fun id r hr => h.refund id r (hrec ▸ hr)
  | upgrades tasks =>
    exact ⟨h.ids_nodup, h.numbered, h.charged, fun _ _ hr => (nomatch hr), h.task, h.refund⟩
  | unserialized env config g passes posts records registry =>
    have hcounter : g.deploymentIdCounter = w.factory.deploymentIdCounter + 1 :=
      registry.counter.trans (counter_generateDeploymentId (hwrap rfl) env)
    refine ⟨h.ids_nodup, ?_, h.charged, fun id r hr => h.record id r (records id ▸ hr), h.task,
      fun id r hr hrid => ?_⟩
    · simp only [withFactory, hcounter]
      exact h.numbered_succ
    · replace hr : r ∈ g.records := hr
      rw [posts.records_eq] at hr
      rcases List.mem_append.1 hr with hr | hr
      · exact h.refund id r hr hrid
      · obtain rfl := List.mem_singleton.1 hr
        exact absurd hrid.1 (by simp [feeOf])
  | requested env config configData g p passes posts records registry outcome =>
    exact tracked_resume (h.accept (hwrap rfl) passes posts records registry) outcome
  | forced env id p executes outcome => exact tracked_resume h outcome
  | continued e task time cycles p mem executes outcome =>
    exact tracked_resume (h.erase task) outcome

/-! ## The id counter -/

/-- The id counter is not at its end. -/
def CounterFits (w : World) (_ : Event) : Prop :=
  w.factory.deploymentIdCounter + 1 < 2 ^ 64

theorem counter_of_outcome {f : Factory} {ends : Prop} {left : ℕ}
    (h : Outcome P env f id ends left p) : p.2.deploymentIdCounter = f.deploymentIdCounter := by
  cases h with
  | lost message hr => rfl
  | waits r r' record stage g hr hends follows status writes => exact writes.registry.counter
  | failed r r' message g hr hends follows status writes => exact writes.registry.counter
  | deployed r r' metadata canisterId g hr hends follows status _ _ writes =>
    exact writes.registry.counter

/-- Only a request moves the counter, and if so then on to the next number. -/
theorem Deploys.counter_eq_or (hd : Deploys P w e w') :
    w'.factory.deploymentIdCounter = w.factory.deploymentIdCounter ∨
      e.isRequest = true ∧
        w'.factory.deploymentIdCounter = (w.factory.deploymentIdCounter + 1) % 2 ^ 64 := by
  cases hd with
  | still e w' env rs pays => exact Or.inl pays.counter
  | cleans time cycles g archives => exact Or.inl archives.registry.counter
  | upgrades tasks => exact Or.inl rfl
  | unserialized env config g passes posts records registry =>
    exact Or.inr ⟨rfl, registry.counter⟩
  | requested env config configData g p passes posts records registry outcome =>
    rw [factory_resume (w := w.accept env g) _ outcome, counter_of_outcome outcome]
    exact Or.inr ⟨rfl, registry.counter⟩
  | forced env id p executes outcome =>
    rw [factory_resume _ outcome, counter_of_outcome outcome]
    exact Or.inl rfl
  | continued e task time cycles p mem executes outcome =>
    rw [factory_resume (w := { w with tasks := w.tasks.erase task }) _ outcome,
      counter_of_outcome outcome]
    exact Or.inl rfl

theorem Deploys.counter_le (hd : Deploys P w e w') : w'.factory.deploymentIdCounter ≤
    w.factory.deploymentIdCounter + if e.isRequest then 1 else 0 := by
  rcases hd.counter_eq_or with h | ⟨he, h⟩
  · rw [h]
    exact Nat.le_add_right _ _
  · rw [h, if_pos he]
    exact Nat.mod_le _ _

/-- The counter does not reach its end in a run of fewer than `2 ^ 64` requests. -/
theorem along_requestFits {es : List Event} {w : World} (hs : w.Sound)
    (hlt : w.factory.deploymentIdCounter + es.countP Event.isRequest < 2 ^ 64) :
    Runs.Along (step P L) (fun w e => e.isRequest = true → CounterFits w e) w es := by
  refine Runs.along_of_count (I := Sound) (fun w => w.factory.deploymentIdCounter) Event.isRequest
    (fun w e w' hs ht => ?_) hs hlt
  have hd := step_deploys hs ht
  exact ⟨hd.sound hs, hd.counter_le⟩

/-- The counter does not reach its end in a run of fewer than `2 ^ 64` events. -/
theorem along_counterFits {es : List Event} {w : World} (hs : w.Sound)
    (hlt : w.factory.deploymentIdCounter + es.length < 2 ^ 64) :
    Runs.Along (step P L) CounterFits w es := by
  rw [← List.countP_true] at hlt
  refine (Runs.along_of_count (I := Sound) (fun w => w.factory.deploymentIdCounter) (fun _ => true)
    (fun w e w' hs ht => ?_) hs hlt).mono fun w e h => h rfl
  have hd := step_deploys hs ht
  have hle := hd.counter_le
  refine ⟨hd.sound hs, ?_⟩
  rw [if_pos rfl]
  split_ifs at hle <;> omega

end World

/-! ## A concrete request -/

namespace Sample

/-- The first events : an admin credits the user, who requests a strategy. -/
def requested : List Event :=
  [.adjustBalance (message 1 admin) user 200000000 "initial balance",
    .requestStrategy (message 2 user) (.selfHedging config)]

/-- The id of the request. -/
def deploymentId : String :=
  stampId 2 user "0"

/-- The execution of the request at a stage. -/
def task (stage : Stage) : Task :=
  ⟨true, user, deploymentId,
    Deployment.newRecord (message 2 user) Factory.initial configData, stage⟩

end Sample

end HunterFi
