import HunterFi.Requests
import Mathlib.Logic.Relation

/-!
# The admins and the fee

Only an admin appoints and dismisses admins and sets the fee. `Governs` has the four things a step
may do to the settings. `administration` follows : in every state of a run there is an admin, each
of them was appointed along a chain that begins with who installed the factory, and the fee is
the default one or was set by someone with such a chain. A message counts in the chain only if its
caller is an admin when it comes (`ByAdmin`).
-/

set_option linter.unusedSectionVars false

namespace HunterFi

namespace World

open Deployment

variable {P : Platform} {L : LedgerRule} {w w' : World} {env : Env} {spawned : Bool} {id : String}
  {p : Progress × Factory} {e : Event}

/-! ## The settings along a step -/

/-- What a step does to the admins and the fee. -/
inductive Governs (w : World) : Event → World → Prop
  | leaves (e : Event) (w' : World) (admins : w'.factory.admins = w.factory.admins)
    (fee : w'.factory.deploymentFee = w.factory.deploymentFee) : Governs w e w'
  | appoints (env : Env) (principal : Principal) (w' : World)
    (authorized : env.caller ∈ w.factory.admins) (known : principal ≠ .anonymous)
    (admins : w'.factory.admins = insert principal w.factory.admins)
    (fee : w'.factory.deploymentFee = w.factory.deploymentFee) :
    Governs w (.addAdmin env principal) w'
  | dismisses (env : Env) (principal : Principal) (w' : World)
    (authorized : env.caller ∈ w.factory.admins)
    (notlast : ¬(w.factory.admins.card ≤ 1 ∧ principal ∈ w.factory.admins))
    (admins : w'.factory.admins = w.factory.admins.erase principal)
    (fee : w'.factory.deploymentFee = w.factory.deploymentFee) :
    Governs w (.removeAdmin env principal) w'
  | sets (env : Env) (fee : ℕ) (w' : World) (authorized : env.caller ∈ w.factory.admins)
    (admins : w'.factory.admins = w.factory.admins)
    (fee_eq : w'.factory.deploymentFee = fee) : Governs w (.setDeploymentFee env fee) w'

/-- A segment of an execution leaves the settings. -/
theorem settings_of_outcome {f : Factory} {ends : Prop} {left : ℕ}
    (ho : Outcome P env f id ends left p) :
    p.2.admins = f.admins ∧ p.2.deploymentFee = f.deploymentFee := by
  cases ho with
  | lost message hr => exact ⟨rfl, rfl⟩
  | waits r r' record stage g hr hends follows status writes =>
    exact ⟨writes.registry.admins, writes.registry.deploymentFee⟩
  | failed r r' message g hr hends follows status writes =>
    exact ⟨writes.registry.admins, writes.registry.deploymentFee⟩
  | deployed r r' metadata canisterId g hr hends follows status _ _ writes =>
    exact ⟨writes.registry.admins, writes.registry.deploymentFee⟩

theorem governs_resume {ends : Prop} {left : ℕ} {v : World}
    (ho : Outcome P env v.factory id ends left p) (hadmins : v.factory.admins = w.factory.admins)
    (hfee : v.factory.deploymentFee = w.factory.deploymentFee) :
    Governs w e (v.resume P env spawned id p) := by
  obtain ⟨ha, hf⟩ := settings_of_outcome ho
  refine .leaves e _ ?_ ?_
  · rw [factory_resume spawned ho, ha, hadmins]
  · rw [factory_resume spawned ho, hf, hfee]

theorem governs_of_factory (h : w'.factory = w.factory) : Governs w e w' :=
  .leaves e w' (by rw [h]) (by rw [h])

theorem governs_issue (purpose : Purpose) (caller : Principal) (args : Except String TransferArgs) :
    Governs w e (w.issue purpose caller args) := by
  cases args <;> exact governs_of_factory rfl

theorem governs_transferReturns (t : Transfer) (result : CallResult ℕ) (time cycles : ℕ) :
    Governs w e (w.transferReturns P t result time cycles) := by
  unfold transferReturns
  cases t.purpose with
  | deposit user amount =>
    cases result <;> exact .leaves e _ rfl rfl
  | withdrawUser user amount =>
    rcases Payment.userWithdrawFundsAnswer_cases P ⟨time, t.caller, cycles⟩ w.factory user amount
      result with ⟨hok, hb, heq⟩ | ⟨hn, e', heq⟩
    · exact .leaves e _ (congrArg (fun q => Factory.admins (Prod.snd q)) heq)
        (congrArg (fun q => Factory.deploymentFee (Prod.snd q)) heq)
    · exact governs_of_factory (congrArg Prod.snd heq)
  | withdrawIcp recipient amount retries =>
    dsimp only
    cases Payment.withdrawFundsAnswer paymentConfig.maxWithdrawalRetries retries result with
    | again retries => exact governs_of_factory rfl
    | done result => exact governs_of_factory rfl

/-- A request leaves the settings, whether it is refused or run. -/
theorem governs_requestStrategy (hs : w.Sound) (config : Config) :
    Governs w e (w.requestStrategy P env config) := by
  have hr := requestStrategy_requested hs P env config
  generalize w.requestStrategy P env config = w' at hr
  cases hr with
  | refused hn => exact governs_of_factory rfl
  | unserialized e' g hp encode posts records registry =>
    exact .leaves _ _ registry.admins registry.deploymentFee
  | accepted configData g hp encode posts records registry hg outcome =>
    exact governs_resume (v := w.accept env g) outcome registry.admins registry.deploymentFee

theorem governs_setDeploymentFee (fee : ℕ) : Governs w (.setDeploymentFee env fee)
    (w.withFactory (Api.setDeploymentFee env w.factory fee).2) := by
  unfold Api.setDeploymentFee Factory.setFee Factory.requireAdmin
  by_cases h : w.factory.isAdmin env = true
  · simp only [h, if_true]
    exact .sets env fee _ (of_decide_eq_true h) rfl rfl
  · simp only [h]
    exact governs_of_factory rfl

theorem governs_addAdmin (principal : Principal) : Governs w (.addAdmin env principal)
    (w.withFactory (Api.addAdmin env w.factory principal).2) := by
  unfold Api.addAdmin Factory.requireAdmin
  by_cases h : w.factory.isAdmin env = true
  · simp only [h, if_true]
    split_ifs with hp
    · exact governs_of_factory rfl
    · exact .appoints env principal _ (of_decide_eq_true h) hp rfl rfl
  · simp only [h]
    exact governs_of_factory rfl

theorem governs_removeAdmin (principal : Principal) : Governs w (.removeAdmin env principal)
    (w.withFactory (Api.removeAdmin env w.factory principal).2) := by
  unfold Api.removeAdmin Factory.requireAdmin
  by_cases h : w.factory.isAdmin env = true
  · simp only [h, if_true]
    split_ifs with hp
    · exact governs_of_factory rfl
    · exact .dismisses env principal _ (of_decide_eq_true h) hp rfl rfl
  · simp only [h]
    exact governs_of_factory rfl

/-- Every step is one of the four. -/
theorem next_governs (hs : w.Sound) (hn : next P L w e = some w') : Governs w e w' := by
  cases e with
  | depositIcp env amount =>
    obtain rfl := Option.some.inj hn
    exact governs_issue _ _ _
  | withdrawUserIcp env amount =>
    obtain rfl := Option.some.inj hn
    exact governs_issue _ _ _
  | withdrawIcp env recipient amount =>
    obtain rfl := Option.some.inj hn
    exact governs_issue _ _ _
  | requestStrategy env config =>
    obtain rfl := Option.some.inj hn
    exact governs_requestStrategy hs config
  | forceExecuteDeployment env id =>
    rcases next_forceExecuteDeployment hn with ⟨-, rfl⟩ | ⟨-, rfl⟩
    · exact governs_of_factory rfl
    · exact governs_resume (executeDeployment_outcome hs.records) rfl rfl
  | adjustBalance env user amount reason =>
    obtain rfl := Option.some.inj hn
    unfold Api.adjustBalance Factory.requireAdmin
    split_ifs with h
    · exact .leaves _ _ rfl rfl
    · exact governs_of_factory rfl
  | setDeploymentFee env fee =>
    obtain rfl := Option.some.inj hn
    exact governs_setDeploymentFee fee
  | addAdmin env principal =>
    obtain rfl := Option.some.inj hn
    exact governs_addAdmin principal
  | removeAdmin env principal =>
    obtain rfl := Option.some.inj hn
    exact governs_removeAdmin principal
  | cleanup time cycles =>
    obtain rfl := Option.some.inj hn
    let env : Env := ⟨time, P.id, cycles⟩
    have ha : Archives P env w.factory (Api.executeCleanupTasks P env w.factory) :=
      executeCleanupTasks_archives hs.records
    exact .leaves _ _ ha.registry.admins ha.registry.deploymentFee
  | upgrade =>
    simp only [next] at hn
    split_ifs at hn with hidle
    obtain rfl := Option.some.inj hn
    exact .leaves _ _ rfl rfl
  | userTransfer sender args =>
    obtain ⟨l, -, rfl⟩ := Option.map_eq_some_iff.1 hn
    exact governs_of_factory rfl
  | ledgerAnswers t answer =>
    simp only [next] at hn
    split_ifs at hn with ht
    unfold ledgerAnswers at hn
    split_ifs at hn with ha
    · obtain ⟨l, -, rfl⟩ := Option.map_eq_some_iff.1 hn
      exact governs_of_factory rfl
    · obtain rfl := Option.some.inj hn
      exact governs_of_factory rfl
  | transferReturns t time cycles =>
    obtain ⟨answer, -, -, rfl⟩ := next_transferReturns hn
    exact governs_transferReturns t answer.result time cycles
  | canisterCreated task time cycles result =>
    obtain ⟨ht, hst, rfl⟩ := next_canisterCreated hn
    exact governs_resume (v := { w with tasks := w.tasks.erase task })
      (afterCreateCanister_outcome hs.records (hs.tasks task ht) result) rfl rfl
  | codeInstalled task time cycles result =>
    obtain ⟨canisterId, ht, hst, rfl⟩ := next_codeInstalled hn
    exact governs_resume (v := { w with tasks := w.tasks.erase task })
      (afterInstallCode_outcome hs.records (hs.tasks task ht) canisterId result) rfl rfl
  | strategyInitialized task time cycles result =>
    obtain ⟨call, ht, hst, rfl⟩ := next_strategyInitialized hn
    exact governs_resume (v := { w with tasks := w.tasks.erase task })
      (afterInitStrategy_outcome hs.records (hs.tasks task ht) call.canisterId result) rfl rfl

/-! ## Runs -/

section Runs

variable (P : Platform) (L : LedgerRule) (w₀ : World) (es : List Event)

/-- The event is one of the run, and `a` is an admin when it comes. -/
def ByAdmin (a : Principal) (e : Event) : Prop :=
  ∃ xs ys w, es = xs ++ e :: ys ∧ Runs.run (World.step P L) w₀ xs = some w ∧ a ∈ w.factory.admins

/-- A message of the admin `a` appoints `b`. -/
def Appoints (a b : Principal) : Prop :=
  ∃ env : Env, env.caller = a ∧ ByAdmin P L w₀ es a (.addAdmin env b)

/-- There is a chain of appointments from who installed the factory. -/
def Entitled (installer a : Principal) : Prop :=
  Relation.ReflTransGen (Appoints P L w₀ es) installer a

/-- The settings of a state that the run reaches. -/
structure Governed (installer : Principal) (w : World) : Prop where
  nonempty : w.factory.admins.Nonempty
  known : installer ≠ .anonymous → .anonymous ∉ w.factory.admins
  entitled : ∀ a ∈ w.factory.admins, Entitled P L w₀ es installer a
  fee : w.factory.deploymentFee = defaultDeploymentFee ∨ ∃ env : Env,
    ByAdmin P L w₀ es env.caller (.setDeploymentFee env w.factory.deploymentFee) ∧
      Entitled P L w₀ es installer env.caller

end Runs

theorem Governs.governed {w₀ : World} {installer : Principal} {es : List Event}
    (hg : Governs w e w') (he : ∃ xs ys, es = xs ++ e :: ys ∧
      Runs.run (World.step P L) w₀ xs = some w) (h : Governed P L w₀ es installer w) :
    Governed P L w₀ es installer w' := by
  obtain ⟨xs, ys, hes, hrun⟩ := he
  cases hg with
  | leaves e w' admins fee =>
    refine ⟨admins ▸ h.nonempty, admins ▸ h.known, admins ▸ h.entitled, ?_⟩
    rw [fee]
    exact h.fee
  | appoints env principal w' authorized known admins fee =>
    refine ⟨?_, fun hi ha => ?_, fun a ha => ?_, ?_⟩
    · rw [admins]
      exact Finset.insert_nonempty _ _
    · rw [admins] at ha
      exact (Finset.mem_insert.1 ha).elim (fun heq => known heq.symm) (h.known hi)
    · rw [admins] at ha
      rcases Finset.mem_insert.1 ha with rfl | ha
      · exact (h.entitled env.caller authorized).tail
          ⟨env, rfl, xs, ys, w, hes, hrun, authorized⟩
      · exact h.entitled a ha
    · rw [fee]
      exact h.fee
  | dismisses env principal w' authorized notlast admins fee =>
    have hsub : ∀ a ∈ w'.factory.admins, a ∈ w.factory.admins :=
      fun a ha => Finset.mem_of_mem_erase (admins ▸ ha)
    refine ⟨?_, fun hi ha => h.known hi (hsub _ ha), fun a ha => h.entitled a (hsub a ha), ?_⟩
    · -- the last admin cannot be dismissed
      rw [admins, ← Finset.card_pos]
      have hpos := Finset.card_pos.2 h.nonempty
      by_cases hmem : principal ∈ w.factory.admins
      · rw [Finset.card_erase_of_mem hmem]
        have hmany : ¬w.factory.admins.card ≤ 1 := fun hle => notlast ⟨hle, hmem⟩
        omega
      · rwa [Finset.erase_eq_of_notMem hmem]
    · rw [fee]
      exact h.fee
  | sets env fee w' authorized admins fee_eq =>
    refine ⟨admins ▸ h.nonempty, admins ▸ h.known, admins ▸ h.entitled,
      Or.inr ⟨env, ⟨xs, ys, w, ?_, hrun, authorized⟩, h.entitled _ authorized⟩⟩
    rwa [fee_eq]

/-- In every state of a run there is an admin, the anonymous principal is none if it did not install
the factory, each admin was appointed by admins along a chain from who did, and the fee is the
default one or was set by an admin with such a chain. -/
theorem administration (P : Platform) (L : LedgerRule) (env : Env) (ledger : Ledger)
    (es : List Event) : Runs.Throughout (World.step P L)
      (Governed P L (start env ledger) es env.caller) (start env ledger) es := by
  have hstart : (start env ledger).Sound ∧
      Governed P L (start env ledger) es env.caller (start env ledger) := by
    refine ⟨sound_start env ledger, Finset.singleton_nonempty _, fun hi ha => ?_, fun a ha => ?_,
      Or.inl rfl⟩
    · exact hi (Finset.mem_singleton.1 ha).symm
    · rw [Finset.mem_singleton.1 ha]
      exact .refl
  refine (Runs.throughout_of_along (P := fun w => w.Sound ∧
    Governed P L (start env ledger) es env.caller w) ?_ hstart
    (Runs.along_self (start env ledger) es)).mono fun w h => h.2
  rintro w e w' ⟨hs, h⟩ he ht
  have hd := step_deploys hs ht
  have hg : Governs w e w' := by
    unfold World.step at ht
    split_ifs at ht
    exact next_governs hs ht
  exact ⟨hd.sound hs, hg.governed he h⟩

end World

end HunterFi
