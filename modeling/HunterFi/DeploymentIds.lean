import HunterFi.Requests

/-!
# Deployment ids

An id joins the time, the caller and a counter with dashes. The text of a principal holds
dashes as well, but the counter does not, so it can be read off the end of an id
(`counter_of_stampId`) : two requests of one caller at one time have different ids too.

`step_identifies` : a step generates an id exactly if it moves the counter on, and the id ends in
the number that the counter had. An upgrade saves the counter and restores it. So the ids of a run
are different as long as the counter does not wrap, and each is still free when a record is stored
under it (`deploymentIds_distinct`).
-/

set_option linter.unusedSectionVars false

namespace HunterFi

namespace World

open Deployment

variable {P : Platform} {L : LedgerRule} {w w' : World} {env : Env} {config : Config} {e : Event}

/-! ## The ids of a step -/

/-- The id that `generate_deployment_id` returns in a step, with the factory that a record is
stored in under it. -/
def identified (P : Platform) (w : World) : Event → Option (String × Factory)
  | .requestStrategy env config =>
    if env.caller = .anonymous then none
    else
      match identifyRequest P env w.factory config with
      | (.error _, _) => none
      | (.ok deploymentId, f) => some (deploymentId, f)
  | _ => none

/-- The ids that `generate_deployment_id` returns in a step. -/
def generatedIds (P : Platform) (w : World) (e : Event) : List String :=
  ((w.identified P e).map Prod.fst).toList

theorem identified_of_passes (h : Passes env w.factory config) :
    w.identified P (.requestStrategy env config) = some ((w.factory.generateDeploymentId env).1,
      ((charged P env w.factory).generateDeploymentId env).2) := by
  rcases identifyRequest_cases P env w.factory config with ⟨hn, -⟩ | ⟨-, heq⟩
  · exact absurd h.chargeable hn
  · rw [identified, if_neg h.caller_ne, heq]

theorem identified_of_not_passes (h : ¬Passes env w.factory config) :
    w.identified P (.requestStrategy env config) = none := by
  rw [identified]
  split_ifs with hcaller
  · rfl
  · rcases identifyRequest_cases P env w.factory config with ⟨-, message, heq⟩ | ⟨hc, -⟩
    · rw [heq]
    · exact absurd ⟨hcaller, hc.1, hc.2, hc.3, hc.4, hc.5⟩ h

theorem identified_of_not_isRequest (h : e.isRequest = false) : w.identified P e = none := by
  cases e with
  | requestStrategy env config => cases h
  | _ => rfl

/-- A step generates no id and leaves the counter, or it generates the id with the counter's
number, moves the counter on and finds the records as they were. -/
inductive Identifies (P : Platform) (w : World) (e : Event) (w' : World) : Prop
  | nothing (identified : w.identified P e = none)
    (counter : w'.factory.deploymentIdCounter = w.factory.deploymentIdCounter)
  | one (env : Env) (f : Factory) (request : e.isRequest = true)
    (identified : w.identified P e = some ((w.factory.generateDeploymentId env).1, f))
    (records : ∀ id, f.getDeploymentRecord id = w.factory.getDeploymentRecord id)
    (counter : w'.factory.deploymentIdCounter = (w.factory.deploymentIdCounter + 1) % 2 ^ 64)

theorem requestStrategy_identifies (hs : w.Sound) (env : Env) (config : Config) :
    Identifies P w (.requestStrategy env config) (w.requestStrategy P env config) := by
  have hr := requestStrategy_requested hs P env config
  generalize w.requestStrategy P env config = w' at hr
  cases hr with
  | refused hn => exact .nothing (identified_of_not_passes hn) rfl
  | unserialized e' g hp encode posts records registry =>
    exact .one env _ rfl (identified_of_passes hp) (fun _ => rfl) registry.counter
  | accepted configData g hp encode posts records registry hg outcome =>
    refine .one env _ rfl (identified_of_passes hp) (fun _ => rfl) ?_
    rw [factory_resume (w := w.accept env g) true outcome, counter_of_outcome outcome]
    exact registry.counter

theorem step_identifies (hs : w.Sound) (ht : step P L w e = some w') : Identifies P w e w' := by
  by_cases he : e.isRequest
  · cases e with
    | requestStrategy env config =>
      rw [step] at ht
      split_ifs at ht
      obtain rfl := Option.some.inj ht
      exact requestStrategy_identifies hs env config
    | _ => cases he
  · refine .nothing (identified_of_not_isRequest (Bool.eq_false_iff.2 he)) ?_
    rcases (step_deploys hs ht).counter_eq_or with h | ⟨hreq, -⟩
    · exact h
    · exact absurd hreq he

/-! ## The ids of a run -/

/-- The ids that a run generates are different. -/
theorem nodup_generatedIds {es : List Event} (hs : w.Sound)
    (hfits : Runs.Along (step P L) (fun w e => e.isRequest = true → CounterFits w e) w es) :
    (Runs.collect (step P L) (generatedIds P) w es).Nodup := by
  refine (Runs.nodup_collect (fun w => w.factory.deploymentIdCounter)
    (fun id k => ∃ time caller, id = stampId time caller (toString k)) ?_ ?_ hs hfits).1
  · rintro id k l ⟨time, caller, hk⟩ ⟨time', caller', hl⟩
    exact counter_of_stampId (hk.symm.trans hl)
  · intro w e w' hs hc ht
    refine ⟨(step_deploys hs ht).sound hs, ?_⟩
    rcases step_identifies hs ht with ⟨hid, hcounter⟩ | ⟨env, f, hreq, hid, -, hcounter⟩
    · rw [generatedIds, hid, hcounter]
      exact ⟨le_rfl, List.nodup_nil, fun id hmem => absurd hmem List.not_mem_nil⟩
    · rw [Nat.mod_eq_of_lt (hc hreq)] at hcounter
      rw [generatedIds, hid, hcounter]
      refine ⟨Nat.le_succ _, List.nodup_singleton _, fun id hmem => ?_⟩
      obtain rfl := List.mem_singleton.1 hmem
      exact ⟨_, ⟨env.time, env.caller, rfl⟩, le_rfl, Nat.lt_succ_self _⟩

/-- The records of a tracked state are of requests with smaller numbers, so that of the next id is
new. -/
theorem Tracked.getDeploymentRecord_generateDeploymentId (h : w.Tracked) (env : Env) :
    w.factory.getDeploymentRecord (w.factory.generateDeploymentId env).1 = none := by
  refine Option.eq_none_iff_forall_ne_some.2 fun r hr => ?_
  obtain ⟨q, hq, hid, -⟩ := h.record _ r hr
  exact h.fresh hq env hid

/-- No record is stored under the id that a step of a run generates. -/
theorem along_identified_free {es : List Event} (hs : w.Sound) (htracked : w.Tracked)
    (hfits : Runs.Along (step P L) (fun w e => e.isRequest = true → CounterFits w e) w es) :
    Runs.Along (step P L) (fun w e => ∀ p ∈ w.identified P e, p.2.getDeploymentRecord p.1 = none)
      w es := by
  refine Runs.along_of_step (I := fun w => w.Sound ∧ w.Tracked) (fun w e w' h hc ht => ?_)
    ⟨hs, htracked⟩ hfits
  have hd := step_deploys h.1 ht
  refine ⟨⟨hd.sound h.1, hd.tracked h.2 hc⟩, ?_⟩
  rintro p (hp : w.identified P e = some p)
  rcases step_identifies h.1 ht with ⟨hid, -⟩ | ⟨env, f, -, hid, hrecords, -⟩
  · rw [hid] at hp
    cases hp
  · rw [hid] at hp
    obtain rfl := Option.some.inj hp
    rw [hrecords]
    exact h.2.getDeploymentRecord_generateDeploymentId env

/-- In a run of fewer than `2 ^ 64` requests no id is generated twice, and no record is overwritten
by one that is stored under a new id. -/
theorem deploymentIds_distinct (P : Platform) (L : LedgerRule) (env : Env) (ledger : Ledger)
    {es : List Event} (hfew : es.countP Event.isRequest < 2 ^ 64) :
    (Runs.collect (step P L) (generatedIds P) (start env ledger) es).Nodup ∧
      Runs.Along (step P L)
        (fun w e => ∀ p ∈ w.identified P e, p.2.getDeploymentRecord p.1 = none)
        (start env ledger) es := by
  have hcounter : (start env ledger).factory.deploymentIdCounter = 0 := rfl
  have hfits : Runs.Along (step P L) (fun w e => e.isRequest = true → CounterFits w e)
      (start env ledger) es := by
    refine along_requestFits (sound_start env ledger) ?_
    rwa [hcounter, Nat.zero_add]
  exact ⟨nodup_generatedIds (sound_start env ledger) hfits,
    along_identified_free (sound_start env ledger) (tracked_start env ledger) hfits⟩

/-- Two requests of one caller at one time, with an upgrade in between. The first deployment fails
for want of cycles. -/
def requestedTwice : List Event :=
  [.adjustBalance (Sample.message 1 Sample.admin) Sample.user 200000000 "initial balance",
    .requestStrategy ⟨2, Sample.user, 0⟩ (.selfHedging Sample.config), .upgrade,
    .requestStrategy ⟨2, Sample.user, 0⟩ (.selfHedging Sample.config)]

theorem deploymentIds_distinct_requestedTwice :
    Runs.collect Sample.step (generatedIds Sample.platform) Sample.world requestedTwice =
        [stampId 2 Sample.user "0", stampId 2 Sample.user "1"] ∧
      (Runs.collect Sample.step (generatedIds Sample.platform) Sample.world requestedTwice).Nodup :=
  ⟨by decide +kernel, (deploymentIds_distinct Sample.platform icrc1Transfer
    (Sample.message 0 Sample.admin) Sample.ledger (by decide)).1⟩

end World

end HunterFi
