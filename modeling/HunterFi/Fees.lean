import HunterFi.Phases
import HunterFi.Sequences
import HunterFi.Updates

/-!
# The fees of deployments

Each accepted request is charged a fee, and the fee is held while its deployment waits, and then
earned or refunded. A request whose configuration cannot be encoded is charged too, before it is
refused, and nothing gives this fee back : it is stranded.

`fees_balance` : in every state of a run without forced deployments, what was charged is what was
refunded, what is held, what was earned and what is stranded. Charges and refunds are those of the
journal. The refunds belong to requests (`Attributed`), each to one (`refunds_unique`).
-/

set_option linter.unusedSectionVars false

namespace HunterFi

/-! ## Fees by phase -/

/-- The part of a fee that is held in a phase. -/
def DeploymentPhase.held (fee : ℕ) : DeploymentPhase → ℕ
  | waiting _ => fee
  | _ => 0

/-- The part of a fee that is earned in a phase. -/
def DeploymentPhase.earned (fee : ℕ) : DeploymentPhase → ℕ
  | deployed _ => fee
  | archived (some _) => fee
  | _ => 0

namespace World

open Deployment

variable {P : Platform} {L : LedgerRule} {w w' : World} {env : Env} {spawned : Bool} {id : String}
  {p : Progress × Factory} {e : Event}

/-- All fees that were charged. -/
def feesCharged (w : World) : ℕ :=
  ((w.factory.records.filter fun x => x.transactionType = .deploymentFee).map
    TransactionRecord.amount).sum

/-- The fee of a request that is charged and then refused. -/
def stranded (P : Platform) (w : World) : Event → List ℕ
  | .requestStrategy env config =>
    if Passes env w.factory config ∧ ¬P.Encodes config then [w.factory.deploymentFee] else []
  | _ => []

/-- All that was refunded. -/
def refundTotal (w : World) : ℕ :=
  ((w.factory.records.filter fun x => x.transactionType = .refund).map
    TransactionRecord.amount).sum

/-- The fees of the requests whose deployment waits. -/
def heldFees (w : World) : ℕ :=
  (w.requests.map fun q => (w.phaseOf q.deploymentId).held q.feeAmount).sum

/-- The fees of the requests that were deployed. -/
def earnedFees (w : World) : ℕ :=
  (w.requests.map fun q => (w.phaseOf q.deploymentId).earned q.feeAmount).sum

/-! ## Refunds belong to requests -/

/-- A refund is of one deployment. -/
theorem refunds_unique {x : TransactionRecord} {id' : String} (h : x.Refunds id)
    (h' : x.Refunds id') : id' = id := by
  obtain ⟨-, h | h⟩ := h
  · obtain ⟨-, h' | h'⟩ := h'
    · simpa using h'.symm.trans h
    · have heq := congrArg String.toList (h'.symm.trans h)
      simp at heq
  · obtain ⟨-, h' | h'⟩ := h'
    · have heq := congrArg String.toList (h'.symm.trans h)
      simp at heq
    · simpa using h'.symm.trans h

/-- Every refund is of the deployment of a request. -/
def Attributed (w : World) : Prop :=
  ∀ x ∈ w.factory.records, x.transactionType = .refund →
    ∃ q ∈ w.requests, x.Refunds q.deploymentId

theorem Attributed.refundTotal_eq (h : w.Attributed) (hw : w.Tracked) :
    w.refundTotal = (w.requests.map fun q => (w.refundsOf q.deploymentId).sum).sum := by
  have hbelongs : ∀ x ∈ w.factory.records.filter fun x => x.transactionType = .refund,
      ∃ id ∈ w.requests.map (·.deploymentId), x.Refunds id := by
    intro x hx
    obtain ⟨hx, ht⟩ := List.mem_filter.1 hx
    obtain ⟨q, hq, hxq⟩ := h x hx (of_decide_eq_true ht)
    exact ⟨_, List.mem_map_of_mem hq, hxq⟩
  have hparts := Sequences.sum_parts (r := fun x id => TransactionRecord.Refunds id x) hw.ids_nodup
    (fun x id id' hid hid' => refunds_unique hid hid') TransactionRecord.amount hbelongs
  rw [refundTotal, ← hparts, List.map_map]
  refine congrArg List.sum (List.map_congr_left fun q _ => ?_)
  rw [Function.comp_apply, List.filter_filter, refundsOf, refunds]
  refine congrArg (fun xs : List TransactionRecord => (xs.map (·.amount)).sum) ?_
  refine List.filter_congr fun x _ => ?_
  by_cases hx : x.Refunds q.deploymentId
  · simp [hx, hx.1]
  · simp [hx]

/-- What a segment posts is refunds of its deployment. -/
theorem attributed_of_outcome {f : Factory} {ends : Prop} {left : ℕ}
    (ho : Outcome P env f id ends left p) : ∃ rs, Posts P env f rs p.2 ∧
      ∀ x ∈ rs, x.Refunds id ∧ ∃ r, f.getDeploymentRecord id = some r := by
  cases ho with
  | lost message hr => exact ⟨[], .refl f, by simp⟩
  | waits r r' record stage g hr hends follows status writes => exact ⟨[], writes.posts, by simp⟩
  | failed r r' message g hr hends follows status writes =>
    refine ⟨_, writes.posts, List.forall_mem_singleton.2 ⟨?_, r, hr⟩⟩
    exact (refunds_refundOf P env r id).2 (Factory.deploymentId_of_getDeploymentRecord hr)
  | deployed r r' metadata canisterId g hr hends follows status _ _ writes =>
    have hidle : Posts P env f [] (f.storeStrategyMetadata metadata) :=
      Posts.idle (fun _ => rfl) (fun _ => rfl) rfl
    exact ⟨[], hidle.trans writes.posts, by simp⟩

theorem Attributed.resume {ends : Prop} {left : ℕ} (h : w.Attributed) (hw : w.Tracked)
    (ho : Outcome P env w.factory id ends left p) :
    (w.resume P env spawned id p).Attributed := by
  obtain ⟨rs, hposts, hrs⟩ := attributed_of_outcome ho
  intro x hx ht
  rw [factory_resume spawned ho, hposts.records_eq] at hx
  rw [requests_resume]
  rcases List.mem_append.1 hx with hx | hx
  · exact h x hx ht
  · obtain ⟨hxid, r, hr⟩ := hrs x hx
    obtain ⟨q, hq, rfl, -⟩ := hw.record id r hr
    exact ⟨q, hq, hxid⟩

/-- What posts no refund and drops no request. -/
theorem Attributed.of_posts {rs : List TransactionRecord} (h : w.Attributed)
    (posts : Posts P env w.factory rs w'.factory)
    (norefund : ∀ r ∈ rs, r.transactionType ≠ .refund)
    (requests : ∀ q ∈ w.requests, q ∈ w'.requests) : w'.Attributed := by
  intro x hx ht
  rw [posts.records_eq] at hx
  rcases List.mem_append.1 hx with hx | hx
  · obtain ⟨q, hq, hxq⟩ := h x hx ht
    exact ⟨q, requests q hq, hxq⟩
  · exact absurd ht (norefund x hx)

theorem Deploys.attributed (hd : Deploys P w e w') (h : w.Attributed) (hw : w.Tracked)
    (hwrap : e.isRequest = true → w.factory.deploymentIdCounter + 1 < 2 ^ 64) :
    w'.Attributed := by
  cases hd with
  | still e w' env rs pays norefund tasks requests returned ended executes =>
    exact h.of_posts pays.posts norefund fun q hq => requests ▸ hq
  | cleans time cycles g archives => exact h.of_posts archives.posts (by simp) fun q hq => hq
  | upgrades tasks => exact h
  | unserialized env config g passes posts =>
    exact h.of_posts posts (by simp [feeOf]) fun q hq => hq
  | requested env config configData g p passes posts records registry outcome =>
    have hold : (w.accept env g).Attributed :=
      h.of_posts posts (by simp [feeOf]) fun q hq => List.mem_cons_of_mem _ hq
    exact hold.resume (hw.accept (hwrap rfl) passes posts records registry) outcome
  | forced env id p executes outcome => exact h.resume hw outcome
  | continued e task time cycles p mem executes outcome =>
    have hold : ({ w with tasks := w.tasks.erase task } : World).Attributed := h
    exact hold.resume (hw.erase task) outcome

/-! ## The balance -/

/-- The fee of a request is refunded, held or earned. -/
theorem Settling.feeAmount_eq {q : Request} (h : w.Settling q.deploymentId) (hq : q ∈ w.requests) :
    q.feeAmount = (w.refundsOf q.deploymentId).sum + (w.phaseOf q.deploymentId).held q.feeAmount +
      (w.phaseOf q.deploymentId).earned q.feeAmount := by
  have hs := h.phased.stores
  generalize w.phaseOf q.deploymentId = phase at hs
  have hrestituted : w.Restituted q.deploymentId →
      (w.refundsOf q.deploymentId).sum = q.feeAmount := by
    rintro ⟨q', hq', hid, hrefunds⟩
    obtain rfl := h.tracked.request_unique hq' hq hid
    simp [hrefunds]
  cases phase with
  | unknown => exact absurd rfl (hs.1 q hq)
  | waiting stage => simp [hs.1.2, DeploymentPhase.held, DeploymentPhase.earned]
  | deployed canisterId => simp [hs.1.2, DeploymentPhase.held, DeploymentPhase.earned]
  | refunded canisterId => simp [hrestituted hs.1, DeploymentPhase.held, DeploymentPhase.earned]
  | archived canisterId =>
    cases canisterId with
    | some canisterId => simp [hs.1.2, DeploymentPhase.held, DeploymentPhase.earned]
    | none => simp [hrestituted hs.1, DeploymentPhase.held, DeploymentPhase.earned]

theorem feeAmount_sum_eq (hw : w.Tracked) (ha : w.Attributed)
    (h : ∀ q ∈ w.requests, w.Settling q.deploymentId) :
    (w.requests.map Request.feeAmount).sum = w.refundTotal + w.heldFees + w.earnedFees := by
  rw [ha.refundTotal_eq hw, heldFees, earnedFees, ← List.sum_map_add, ← List.sum_map_add]
  exact congrArg List.sum (List.map_congr_left fun q hq => (h q hq).feeAmount_eq hq)

/-! ## The charges -/

/-- The fees among updates of accounts. -/
def feesIn (us : List Update) : ℕ :=
  ((us.filter fun u => u.transactionType = .deploymentFee).map Update.amount).sum

theorem feesIn_append (us vs : List Update) : feesIn (us ++ vs) = feesIn us + feesIn vs := by
  simp [feesIn]

theorem feesIn_refundUpdates (f : Factory) (id : String) : feesIn (f.refundUpdates id) = 0 := by
  unfold Factory.refundUpdates
  cases f.getDeploymentRecord id <;> rfl

theorem feesCharged_eq (w : World) :
    w.feesCharged = feesIn (w.factory.records.map TransactionRecord.update) := by
  rw [feesCharged, feesIn, List.filter_map, List.map_map]
  rfl

/-- No event but a request charges a fee. -/
theorem feesIn_updates (he : e.isRequest = false) : feesIn (w.updates P e) = 0 := by
  unfold updates
  cases e with
  | requestStrategy env config => cases he
  | transferReturns t time cycles =>
    dsimp only
    split
    · split_ifs <;> rfl
    · split_ifs <;> rfl
    · rfl
  | adjustBalance => dsimp only; split_ifs <;> rfl
  | forceExecuteDeployment | canisterCreated | codeInstalled | strategyInitialized =>
    dsimp only
    split_ifs <;> first | rfl | exact feesIn_refundUpdates _ _
  | _ => rfl

/-- No event but a request changes the requests. -/
theorem Deploys.requests_eq (hd : Deploys P w e w') (he : e.isRequest = false) :
    w'.requests = w.requests := by
  cases hd with
  | still e w' env rs pays norefund tasks requests returned ended executes => exact requests
  | cleans | upgrades => rfl
  | unserialized | requested => cases he
  | forced | continued => exact requests_resume

/-- What a step charges is the fee of a new request or stranded. -/
theorem step_charges (h : w.Sound) (hs : step P L w e = some w') :
    (w'.requests.map Request.feeAmount).sum + (w.stranded P e).sum =
      (w.requests.map Request.feeAmount).sum + feesIn (w.updates P e) := by
  by_cases he : e.isRequest = true
  · cases e with
    | requestStrategy env config =>
      have hr := requestStrategy_requested h P env config
      unfold step at hs
      split_ifs at hs
      rw [Option.some.inj hs] at hr
      cases hr with
      | refused hn => simp [stranded, updates, hn, feesIn, withFactory]
      | unserialized message g hp encode posts records registry =>
        have hno : P.Encodes config = false := by simp [Platform.Encodes, encode, Except.toBool]
        simp [stranded, updates, hp, hno, feesIn, withFactory]
      | accepted configData g hp encode posts records registry hg outcome =>
        have hyes : P.Encodes config = true := by simp [Platform.Encodes, encode, Except.toBool]
        rw [requests_resume]
        by_cases hcycles : env.cycles < creationCycles <;>
          simp [stranded, updates, hp, hyes, hcycles, feesIn, accept, Nat.add_comm]
    | _ => cases he
  · have he' : e.isRequest = false := Bool.eq_false_iff.2 he
    have hnone : w.stranded P e = [] := by
      cases e with
      | requestStrategy => cases he'
      | _ => rfl
    rw [hnone, feesIn_updates he', (step_deploys h hs).requests_eq he']
    rfl

/-- What was charged in a run is the fees of the requests and what is stranded. -/
theorem feesCharged_eq_requests (P : Platform) (L : LedgerRule) (env : Env) (ledger : Ledger)
    {es : List Event} (hrun : Runs.run (World.step P L) (start env ledger) es = some w) :
    w.feesCharged = (w.requests.map Request.feeAmount).sum +
      (Runs.collect (World.step P L) (stranded P) (start env ledger) es).sum := by
  have hstart : (start env ledger).Sound ∧ (start env ledger).feesCharged =
      ((start env ledger).requests.map Request.feeAmount).sum + ([] : List ℕ).sum :=
    ⟨sound_start env ledger, rfl⟩
  refine (Runs.run_collect (R := fun w fees => w.Sound ∧
    w.feesCharged = (w.requests.map Request.feeAmount).sum + fees.sum) (fun v fees e v' h hs => ?_)
    hstart hrun).2
  obtain ⟨hsound, hcharged⟩ := h
  refine ⟨(step_deploys hsound hs).sound hsound, ?_⟩
  have hstep := step_charges hsound hs
  rw [feesCharged_eq, (step_makes hsound hs).updates_eq, feesIn_append, ← feesCharged_eq, hcharged,
    List.sum_append]
  omega

/-- What was charged in a run without forced deployments is what was refunded, the fees of the
deployments under way, the fees of those deployed, and what is stranded. -/
theorem fees_balance (P : Platform) (L : LedgerRule) (env : Env) (ledger : Ledger)
    (es : List Event) (hfew : es.countP Event.isRequest < 2 ^ 64)
    (hforce : ∀ env' id, .forceExecuteDeployment env' id ∉ es)
    (hrun : Runs.run (World.step P L) (start env ledger) es = some w) :
    w.feesCharged = w.refundTotal + w.heldFees + w.earnedFees +
      (Runs.collect (World.step P L) (stranded P) (start env ledger) es).sum := by
  have hunforced := along_fits P L env ledger
    (D := fun e => ∀ env' id, e ≠ .forceExecuteDeployment env' id) hfew
    fun e he env' id heq => hforce env' id (heq ▸ he)
  have hstart : (∀ id, (start env ledger).Settling id) ∧ (start env ledger).Attributed :=
    ⟨settling_start env ledger, fun x hx => by cases hx⟩
  have hend := (Runs.throughout_of_along (P := fun w => (∀ id, w.Settling id) ∧ w.Attributed)
    (fun v e v' ⟨h, ha⟩ ⟨hc, hf⟩ hs => ⟨fun id => ((h id).step hc (fun env' => hf env' id) hs).1,
      (step_deploys (h "").sound hs).attributed ha (h "").tracked hc⟩) hstart hunforced).last hrun
  rw [feesCharged_eq_requests P L env ledger hrun, feeAmount_sum_eq (hend.1 "").tracked hend.2
    fun q _ => hend.1 q.deploymentId]

/-- A request that waits for its canister, and one whose configuration cannot be encoded. -/
def requestedInVain : List Event :=
  Sample.requested ++ [.requestStrategy (Sample.message 3 Sample.user)
    (.selfHedging { Sample.config with transactionSize := 7 })]

/-- One fee is held, the other is stranded. -/
theorem fees_balance_requestedInVain : ∃ w,
    Runs.run Sample.step Sample.world requestedInVain = some w ∧ w.feesCharged = 200000000 ∧
      w.heldFees = 100000000 ∧ w.feesCharged = w.refundTotal + w.heldFees + w.earnedFees +
        (Runs.collect Sample.step (stranded Sample.platform) Sample.world requestedInVain).sum := by
  have hend : (Runs.run Sample.step Sample.world requestedInVain).any (fun w =>
      decide (w.feesCharged = 200000000 ∧ w.heldFees = 100000000)) = true := by
    decide +kernel
  obtain ⟨w, hrun, hw⟩ := (Option.any_eq_true _ _).1 hend
  obtain ⟨hcharged, hheld⟩ := of_decide_eq_true hw
  exact ⟨w, hrun, hcharged, hheld, fees_balance Sample.platform icrc1Transfer
    (Sample.message 0 Sample.admin) Sample.ledger requestedInVain (by decide)
    (by simp [requestedInVain, Sample.requested]) hrun⟩

end World

end HunterFi
