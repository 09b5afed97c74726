import HunterFi.Updates

/-!
# Whose account an event changes

A segment runs on behalf of the caller of its message, also after an await (`Event.caller`). It
debits no one else, and it credits someone else only if it is an adjustment by an admin or the
refund of a stored deployment.

`Owned` is the invariant behind it : a deposit or a withdrawal in flight is of the one who called.
`debits_personal` is the law over every run.
-/

set_option linter.unusedSectionVars false

namespace HunterFi

/-- On whose behalf the factory runs a segment. -/
def Event.caller (P : Platform) : Event → Option Principal
  | .cleanup _ _ => some P.id
  | .transferReturns t _ _ => some t.caller
  | .canisterCreated task _ _ _ => some task.caller
  | .codeInstalled task _ _ _ => some task.caller
  | .strategyInitialized task _ _ _ => some task.caller
  | .userTransfer _ _ => none
  | e => e.sender

/-- The user whose account a reply of the ledger moves. -/
def Purpose.user : Purpose → Option Principal
  | .deposit user _ => some user
  | .withdrawUser user _ => some user
  | .withdrawIcp _ _ _ => none

namespace World

variable {P : Platform} {L : LedgerRule} {w w' : World} {e : Event} {u : Principal}

/-! ## Calls in flight -/

/-- The calls in flight move the accounts of their callers. -/
def Owned (w : World) : Prop :=
  ∀ t ∈ w.transfers, ∀ user, t.purpose.user = some user → user = t.caller

/-- A step makes calls for the accounts of their callers alone. -/
theorem Moves.owned (hm : Moves P L w e w') (h : w.Owned) : w'.Owned := by
  intro x hx
  cases hm.inFlight x hx with
  | waits t mem => exact h x mem
  | issued purpose caller args issues =>
    intro user huser
    cases issues with
    | deposit => exact (Option.some.inj huser).symm
    | withdrawUser => exact (Option.some.inj huser).symm
    | withdrawIcp => cases huser
  | answered t answer l mem rule => exact h t mem
  | again t recipient amount retries mem =>
    intro user huser
    cases huser

/-! ## Named accounts -/

/-- The event adjusts the balance of `u`, and an admin sends it. -/
def Adjusts (w : World) (u : Principal) (e : Event) : Prop :=
  ∃ env amount reason, e = .adjustBalance env u amount reason ∧ w.factory.isAdmin env = true

/-- The step refunds a stored deployment of `u`, and records no more than that. -/
def Refunds (w w' : World) (u : Principal) (e : Event) : Prop :=
  ∃ id r, w.executes e = some id ∧ w.factory.getDeploymentRecord id = some r ∧ r.owner = u ∧
    w'.factory.records.map TransactionRecord.update =
      w.factory.records.map TransactionRecord.update ++ [⟨u, .refund, r.feeAmount⟩]

/-- A step leaves the account of everyone but its caller, or credits it by an adjustment or a
refund. -/
def Personal (P : Platform) (L : LedgerRule) (w : World) (e : Event) : Prop :=
  ∀ w' ∈ step P L w e, ∀ u, e.caller P ≠ some u →
    w'.factory.userAccounts.get? u = w.factory.userAccounts.get? u ∨
      (w.Adjusts u e ∨ w.Refunds w' u e) ∧ w.factory.balance u ≤ w'.factory.balance u ∧
        (w'.factory.getUserAccount u).totalConsumed = (w.factory.getUserAccount u).totalConsumed

/-- The event makes one update, a credit of `u` that it names. -/
inductive Names (P : Platform) (w : World) (u : Principal) (e : Event) : Prop
  | adjusts (n : ℕ) (adjusts : w.Adjusts u e)
    (updates : w.updates P e = [⟨u, .adminAdjustment, n⟩])
  | refunds (id : String) (r : DeploymentRecord) (executes : w.executes e = some id)
    (record : w.factory.getDeploymentRecord id = some r) (owner : r.owner = u)
    (updates : w.updates P e = [⟨u, .refund, r.feeAmount⟩])

theorem exists_of_movementsOf_ne_nil {us : List Update} (h : movementsOf u us ≠ []) :
    ∃ x ∈ us, x.user = u := by
  by_contra hno
  refine h ?_
  rw [movementsOf, List.filter_eq_nil_iff.2 fun x hx => ?_]
  · rfl
  · simpa using fun hxu => hno ⟨x, hx, hxu⟩

/-- An execution that refunds names the owner of the record. -/
theorem names_of_refundUpdates {id : String} (he : w.executes e = some id)
    (hus : w.updates P e = w.factory.refundUpdates id)
    (h : movementsOf u (w.updates P e) ≠ []) : Names P w u e := by
  obtain ⟨x, hx, hxu⟩ := exists_of_movementsOf_ne_nil h
  cases hr : w.factory.getDeploymentRecord id with
  | none =>
    rw [hus, refundUpdates_none hr] at hx
    cases hx
  | some r =>
    rw [refundUpdates_some hr] at hus
    rw [hus] at hx
    obtain rfl := List.mem_singleton.1 hx
    exact .refunds id r he hr hxu (hxu ▸ hus)

/-- The reply of the ledger moves the account of its user. -/
theorem user_of_mem_updates {t : Transfer} {time cycles : ℕ} {x : Update}
    (hx : x ∈ w.updates P (.transferReturns t time cycles)) : t.purpose.user = some x.user := by
  rw [updates] at hx
  cases hp : t.purpose with
  | deposit user amount =>
    cases ha : t.answer with
    | none => simp [hp, ha] at hx
    | some answer =>
      simp only [hp, ha] at hx
      split_ifs at hx
      · rw [List.mem_singleton.1 hx]
        rfl
      · cases hx
  | withdrawUser user amount =>
    cases ha : t.answer with
    | none => simp [hp, ha] at hx
    | some answer =>
      simp only [hp, ha] at hx
      split_ifs at hx
      · rw [List.mem_singleton.1 hx]
        rfl
      · cases hx
  | withdrawIcp recipient amount retries => simp [hp] at hx

/-- Whoever is not the caller and has a movement is named. -/
theorem names_of_ne_caller (hm : Moves P L w e w') (ho : w.Owned) (hu : e.caller P ≠ some u)
    (h : movementsOf u (w.updates P e) ≠ []) : Names P w u e := by
  obtain ⟨x, hx, hxu⟩ := exists_of_movementsOf_ne_nil h
  cases e with
  | adjustBalance env user amount reason =>
    rw [updates] at hx
    split_ifs at hx with ha
    · obtain rfl := List.mem_singleton.1 hx
      obtain rfl := hxu
      exact .adjusts amount ⟨env, amount, reason, rfl, ha⟩ (if_pos ha)
    · cases hx
  | requestStrategy env config =>
    refine absurd (congrArg some ?_) hu
    rw [updates] at hx
    split_ifs at hx <;> simp at hx
    · rcases hx with rfl | rfl <;> exact hxu
    · rw [← hxu, hx]
  | forceExecuteDeployment env id =>
    by_cases hc : w.factory.isAdmin env ∧ env.cycles < creationCycles
    · exact names_of_refundUpdates (if_pos hc.1) (if_pos hc) h
    · rw [updates, if_neg hc] at hx
      cases hx
  | canisterCreated task time cycles result =>
    by_cases hc : result.isOk = true
    · rw [updates, if_pos hc] at hx
      cases hx
    · exact names_of_refundUpdates rfl (if_neg hc) h
  | codeInstalled task time cycles result =>
    by_cases hc : P.GoesOn task.record result = true
    · rw [updates, if_pos hc] at hx
      cases hx
    · exact names_of_refundUpdates rfl (if_neg hc) h
  | strategyInitialized task time cycles result =>
    by_cases hc : P.GoesOn task.record result = true
    · rw [updates, if_pos hc] at hx
      cases hx
    · exact names_of_refundUpdates rfl (if_neg hc) h
  | transferReturns t time cycles =>
    refine absurd (congrArg some ?_) hu
    cases hm with
    | quiet _ _ _ he => exact he.elim
    | credits _ _ _ _ he => exact he.elim
    | issues _ _ _ _ issues => cases issues
    | returns t answer time cycles mem ans =>
      rw [← hxu]
      exact (ho t mem x.user (user_of_mem_updates hx)).symm
  | _ => cases hx

/-! ## Runs -/

theorem owned_start (env : Env) (ledger : Ledger) : (start env ledger).Owned :=
  fun _ ht => absurd ht List.not_mem_nil

/-- A single credit keeps the debits and does not lower the balance. -/
theorem credit_of_makes {f g : Factory} {x : Update} {n : ℕ} (hk : Kept f) (hm : Makes P f g [x])
    (hx : x.movement = some (.credit n)) :
    f.balance x.user ≤ g.balance x.user ∧
      (g.getUserAccount x.user).totalConsumed = (f.getUserAccount x.user).totalConsumed := by
  have ht := hm.totals_eq x.user
  have hone : movementsOf x.user [x] = [.credit n] := by simp [movementsOf, hx]
  rw [hone, List.foldl_cons, List.foldl_nil] at ht
  have hle : f.balance x.user ≤ u64Max := hk.balance_eq x.user ▸ Movement.replay_le_cap
  refine ⟨?_, congrArg Totals.consumed ht⟩
  refine le_trans ?_ (congrArg Totals.balance ht).ge
  exact le_min (Nat.le_add_right _ _) hle

/-- What names a user credits them, as an adjustment or as a refund. -/
theorem Names.personal (hn : Names P w u e) (hk : Kept w.factory)
    (hm : Makes P w.factory w'.factory (w.updates P e)) :
    (w.Adjusts u e ∨ w.Refunds w' u e) ∧ w.factory.balance u ≤ w'.factory.balance u ∧
      (w'.factory.getUserAccount u).totalConsumed = (w.factory.getUserAccount u).totalConsumed := by
  cases hn with
  | adjusts n adjusts updates =>
    rw [updates] at hm
    exact ⟨Or.inl adjusts, credit_of_makes hk hm rfl⟩
  | refunds id r executes record owner updates =>
    rw [updates] at hm
    exact ⟨Or.inr ⟨id, r, executes, record, owner, hm.updates_eq⟩, credit_of_makes hk hm rfl⟩

/-- Along every run, a segment debits no one but its caller, and credits someone else only by an
adjustment of an admin or the refund of a stored deployment. -/
theorem debits_personal (P : Platform) (L : LedgerRule) (env : Env) (ledger : Ledger)
    (es : List Event) : Runs.Along (step P L) (Personal P L) (start env ledger) es := by
  refine Runs.along_of_step (I := fun w => w.Sound ∧ Kept w.factory ∧ w.Owned)
    (fun w e w' h _ hs => ?_)
    ⟨sound_start env ledger, kept_start env ledger, owned_start env ledger⟩ Runs.along_true
  obtain ⟨hsound, hkept, howned⟩ := h
  have hm := (step_moves hsound hs).1
  have hmakes := step_makes hsound hs
  refine ⟨⟨(step_deploys hsound hs).sound hsound, hmakes.kept hkept, hm.owned howned⟩, ?_⟩
  intro w'' hs' u hu
  obtain rfl := Option.some.inj (hs.symm.trans hs')
  by_cases h : movementsOf u (w.updates P e) = []
  · exact Or.inl (hmakes.account_eq h)
  · exact Or.inr ((names_of_ne_caller hm howned hu h).personal hkept hmakes)

end World

end HunterFi
