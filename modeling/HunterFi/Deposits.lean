import HunterFi.Money

/-!
# Deposits

`process_deposit` calls `icrc1_transfer` itself, so by the ICRC-1 rule the account that pays is
the factory's own, and the field `to` names that account too. A deposit that the ledger
accepts never raises the factory's account and takes nothing from the user
(`DepositsMint`), yet it is credited. `DepositsArrive` says that deposits credit only what
arrived. It holds along a run exactly if no deposit is credited.
-/

set_option linter.unusedSectionVars false

namespace HunterFi

/-! ## The ledger -/

/-- An accepted transfer takes the amount and some fee from the default account of the caller
and adds the amount to the account in the field `to`. -/
def Icrc1 (L : LedgerRule) : Prop :=
  ∀ caller args l l', L caller args l = some l' → ∃ fee : ℕ, ∀ a, (l' a : ℤ) = l a -
    (if a = defaultAccount caller then (args.amount + fee : ℤ) else 0) +
    if a = args.toAccount then (args.amount : ℤ) else 0

theorem icrc1_icrc1Transfer : Icrc1 icrc1Transfer := by
  intro caller args l l' h
  unfold icrc1Transfer at h
  dsimp only at h
  split_ifs at h with hcost
  obtain rfl := Option.some.inj h
  refine ⟨args.fee.getD paymentConfig.icpTransferFee, fun a => ?_⟩
  by_cases hto : a = args.toAccount
  · rw [hto, Function.update_self, if_pos rfl, Function.update_apply]
    split_ifs with hpayer
    · rw [hpayer]
      omega
    · omega
  · rw [Function.update_of_ne hto, if_neg hto, Function.update_apply]
    split_ifs with hpayer
    · rw [hpayer]
      omega
    · omega

/-! ## Deposits -/

/-- What the records credit as deposits. -/
def deposited (rs : List TransactionRecord) : ℕ :=
  ((rs.filter fun r => r.transactionType = .deposit).map TransactionRecord.amount).sum

theorem deposited_append (rs ss : List TransactionRecord) :
    deposited (rs ++ ss) = deposited rs + deposited ss := by
  simp [deposited]

theorem deposited_eq_zero {rs : List TransactionRecord}
    (h : ∀ r ∈ rs, r.transactionType ≠ .deposit) : deposited rs = 0 := by
  rw [deposited, List.filter_eq_nil_iff.2 fun r hr => ?_, List.map_nil, List.sum_nil]
  simpa using h r hr

/-- A deposit that gives the factory's account nothing and takes nothing from its user. -/
def Transfer.Mints (t : Transfer) : Prop :=
  t.factoryGain ≤ 0 ∧ t.callerGain = 0

/-- The event credits no deposit : the call of a deposit does not come back with a block
index. -/
def Event.CreditsNoDeposit : Event → Prop
  | .transferReturns t _ _ =>
    ∀ u amount answer, t.purpose = .deposit u amount → t.answer = some answer →
      answer.result.isOk = false
  | _ => True

namespace World

open Deployment

variable {P : Platform} {L : LedgerRule} {w w' : World} {e : Event}

/-- Each credited deposit raised the factory's account by its amount at the expense of the
account of its user, and the deposits are at most what users brought in. -/
structure DepositsArrive (w : World) : Prop where
  raised : ∀ t ∈ w.deposits, ∀ u amount, t.purpose = .deposit u amount →
    t.factoryGain = amount ∧ t.callerGain ≤ -amount
  total : deposited w.factory.records ≤ w.received

/-- A deposit in flight asks for the factory's account, and mints if the ledger accepts it. -/
structure Depositing (P : Platform) (t : Transfer) : Prop where
  caller_ne : t.caller ≠ P.id
  receiver : t.args.toAccount = defaultAccount P.id
  positive : ∀ u amount, t.purpose = .deposit u amount → 1 ≤ amount
  mints : ∀ answer, t.answer = some answer → answer.accepted → t.Mints

/-- Deposits in flight are as `Depositing` says, and every credited one minted. -/
structure DepositsMint (P : Platform) (w : World) : Prop where
  transfers : ∀ t ∈ w.transfers, (∃ u amount, t.purpose = .deposit u amount) → Depositing P t
  deposits : ∀ t ∈ w.deposits, (∃ u amount, t.purpose = .deposit u amount ∧ 1 ≤ amount) ∧ t.Mints

theorem DepositsMint.deposits_eq_nil (h : DepositsMint P w) (ha : w.DepositsArrive) :
    w.deposits = [] := by
  refine List.eq_nil_iff_forall_not_mem.2 fun t ht => ?_
  obtain ⟨⟨u, amount, hp, hpos⟩, hgain, -⟩ := h.deposits t ht
  have hraised := (ha.raised t ht u amount hp).1
  omega

/-- What the ledger does to a deposit that it accepts. -/
theorem answered_mints (hL : Icrc1 L) {t : Transfer} {answer : LedgerAnswer} {l l' : Ledger}
    (hl : L P.id t.args l = some l') (hcaller : t.caller ≠ P.id)
    (hto : t.args.toAccount = defaultAccount P.id) : (answered P t answer l l').Mints := by
  obtain ⟨fee, hfee⟩ := hL _ _ _ _ hl
  have hne : defaultAccount t.caller ≠ defaultAccount P.id := fun h => hcaller (by
    simpa [defaultAccount] using h)
  constructor
  · have hself := hfee (defaultAccount P.id)
    rw [hto, if_pos rfl, if_pos rfl] at hself
    simp only [answered]
    omega
  · have hother := hfee (defaultAccount t.caller)
    rw [hto, if_neg hne, if_neg hne] at hother
    simp only [answered]
    omega

theorem Moves.depositing (hL : Icrc1 L) (hm : Moves P L w e w') (hsender : e.sender ≠ some P.id)
    (h : DepositsMint P w) :
    ∀ t ∈ w'.transfers, (∃ u amount, t.purpose = .deposit u amount) → Depositing P t := by
  intro x hx
  cases hm.inFlight x hx with
  | waits t mem => exact h.transfers x mem
  | issued purpose caller args issues =>
    rintro ⟨u, amount, hp⟩
    cases issues with
    | withdrawUser => cases hp
    | withdrawIcp => cases hp
    | deposit env a args receiver amount_eq min =>
      refine ⟨fun hc => hsender (congrArg some hc), receiver, ?_, fun answer ha => nomatch ha⟩
      rintro u' amount' ⟨⟩
      exact (by decide : 1 ≤ paymentConfig.minDepositAmount).trans min
  | answered t answer l mem rule =>
    intro hp
    have ht := h.transfers t mem hp
    refine ⟨ht.caller_ne, ht.receiver, ht.positive, ?_⟩
    rintro answer' ⟨⟩ haccepted
    exact answered_mints hL (rule haccepted) ht.caller_ne ht.receiver
  | again t recipient amount retries mem => rintro ⟨u, amount, ⟨⟩⟩

/-- A deposit that comes back with a block index is one that was in flight. -/
theorem transferReturns_minted {t : Transfer} {answer : LedgerAnswer} {time cycles : ℕ}
    (h : DepositsMint P w) (ht : t ∈ w.transfers) (ha : t.answer = some answer) :
    ∀ x ∈ (w.transferReturns P t answer.result time cycles).deposits,
      (∃ u amount, x.purpose = .deposit u amount ∧ 1 ≤ amount) ∧ x.Mints := by
  unfold transferReturns
  cases hp : t.purpose with
  | withdrawUser u amount => exact h.deposits
  | withdrawIcp recipient amount retries =>
    dsimp only
    cases Payment.withdrawFundsAnswer paymentConfig.maxWithdrawalRetries retries
        answer.result with
    | again retries => exact h.deposits
    | done result => exact h.deposits
  | deposit u amount =>
    have hd := h.transfers t ht ⟨u, amount, hp⟩
    dsimp only
    split_ifs with hok
    · refine List.forall_mem_cons.2 ⟨⟨⟨u, amount, hp, hd.positive u amount hp⟩, ?_⟩, h.deposits⟩
      exact hd.mints answer ha (answer.accepted_of_isOk hok)
    · exact h.deposits

theorem Moves.depositsMint (hL : Icrc1 L) (hm : Moves P L w e w') (hsender : e.sender ≠ some P.id)
    (h : DepositsMint P w) : DepositsMint P w' := by
  refine ⟨hm.depositing hL hsender h, ?_⟩
  cases hm with
  | quiet e w' env he posts same => exact same.deposits ▸ h.deposits
  | credits e w' env rs he posts credits same => exact same.deposits ▸ h.deposits
  | asks env config w' asks =>
    cases asks with
    | refused h' => exact h.deposits
    | unserialized g passes e encode posts => exact h.deposits
    | waits w' task r passes cycles posts tasks record feeAmount same =>
      exact same.deposits ▸ h.deposits
    | failed w' configData passes encode cycles posts tasks same =>
      exact same.deposits ▸ h.deposits
  | issues e purpose caller args issues => exact h.deposits
  | transfers sender args l rule => exact h.deposits
  | refuses t answer mem open_ refused => exact h.deposits
  | accepts t answer l mem open_ accepted rule => exact h.deposits
  | returns t answer time cycles mem ans => exact transferReturns_minted h mem ans

/-- A step that credits no deposit. -/
theorem Moves.no_deposit (hm : Moves P L w e w') (he : e.CreditsNoDeposit) :
    deposited w'.factory.records = deposited w.factory.records ∧ w'.deposits = w.deposits := by
  have hposts : ∀ {env rs g}, Posts P env w.factory rs g →
      (∀ r ∈ rs, r.transactionType ≠ .deposit) →
      deposited g.records = deposited w.factory.records := by
    intro env rs g posts hrs
    rw [posts.records_eq, deposited_append, deposited_eq_zero hrs, Nat.add_zero]
  cases hm with
  | quiet e w' env he posts same => exact ⟨hposts posts (by simp), same.deposits⟩
  | credits e w' env rs he posts credits same =>
    refine ⟨hposts posts fun r hr => ?_, same.deposits⟩
    rcases credits r hr with h | h <;> simp [h]
  | asks env config w' asks =>
    cases asks with
    | refused h' => exact ⟨rfl, rfl⟩
    | unserialized g passes e encode posts => exact ⟨hposts posts (by simp [feeOf]), rfl⟩
    | waits w' task r passes cycles posts tasks record feeAmount same =>
      exact ⟨hposts posts (by simp [feeOf]), same.deposits⟩
    | failed w' configData passes encode cycles posts tasks same =>
      exact ⟨hposts posts (by simp [feeOf, refundOf]), same.deposits⟩
  | issues e purpose caller args issues => exact ⟨rfl, rfl⟩
  | transfers sender args l rule => exact ⟨rfl, rfl⟩
  | refuses t answer mem open_ refused => exact ⟨rfl, rfl⟩
  | accepts t answer l mem open_ accepted rule => exact ⟨rfl, rfl⟩
  | returns t answer time cycles mem ans =>
    unfold transferReturns
    cases hp : t.purpose with
    | withdrawUser u amount =>
      refine ⟨hposts (userWithdrawFundsAnswer_pays P ⟨time, t.caller, cycles⟩ w.factory u amount
        answer.result).posts fun r hr => ?_, rfl⟩
      split_ifs at hr <;> simp_all [withdrawalOf]
    | withdrawIcp recipient amount retries =>
      dsimp only
      cases Payment.withdrawFundsAnswer paymentConfig.maxWithdrawalRetries retries answer.result <;>
        exact ⟨rfl, rfl⟩
    | deposit u amount =>
      have hok : answer.result.isOk = false := he u amount answer hp ans
      have hposts' := (processDepositAnswer_pays P ⟨time, t.caller, cycles⟩ w.factory u amount
        answer.result).posts
      rw [hok] at hposts'
      refine ⟨hposts hposts' (by simp), ?_⟩
      simp [hok]

/-- A step that credits a deposit. -/
theorem Moves.creditsNoDeposit (hm : Moves P L w e w') (hd : w'.deposits = []) :
    e.CreditsNoDeposit := by
  cases hm with
  | returns t answer time cycles mem ans =>
    intro u amount answer' hp ha
    obtain rfl := Option.some.inj (ans.symm.trans ha)
    rw [← Bool.not_eq_true]
    intro hok
    simp [transferReturns, hp, hok] at hd
  | quiet e w' env he => cases e <;> trivial
  | credits e w' env rs he => cases e <;> trivial
  | issues e purpose caller args issues => cases issues <;> trivial
  | asks => trivial
  | transfers => trivial
  | refuses => trivial
  | accepts => trivial

/-! ## Runs -/

theorem depositsMint_start (P : Platform) (env : Env) (ledger : Ledger) :
    DepositsMint P (start env ledger) :=
  ⟨fun _ h => (nomatch h), fun _ h => (nomatch h)⟩

/-- Over an ICRC-1 ledger deposits credit only what arrived, in every state of a run, exactly
if the run credits no deposit. -/
theorem depositsArrive_iff (P : Platform) (L : LedgerRule) (hL : Icrc1 L) (env : Env)
    (ledger : Ledger) (es : List Event) :
    Runs.Throughout (step P L) DepositsArrive (start env ledger) es ↔
      Runs.Along (step P L) (fun _ e => e.CreditsNoDeposit) (start env ledger) es := by
  constructor
  · refine Runs.along_of_throughout (I := fun w => w.Sound ∧ DepositsMint P w) ?_
      ⟨sound_start env ledger, depositsMint_start P env ledger⟩ Runs.along_true
    rintro w e w' ⟨hsound, hmint⟩ - - hstep harrive
    obtain ⟨hm, hsender⟩ := step_moves hsound hstep
    have hmint' := hm.depositsMint hL hsender hmint
    exact ⟨⟨(step_deploys hsound hstep).sound hsound, hmint'⟩,
      hm.creditsNoDeposit (hmint'.deposits_eq_nil harrive)⟩
  · intro hcredits
    refine (Runs.throughout_of_along (P := fun w => w.Sound ∧ w.deposits = [] ∧
      deposited w.factory.records = 0) ?_ ⟨sound_start env ledger, rfl, rfl⟩ hcredits).mono ?_
    · rintro w e w' ⟨hsound, hnil, hzero⟩ he hstep
      obtain ⟨hdep, hlist⟩ := (step_moves hsound hstep).1.no_deposit he
      exact ⟨(step_deploys hsound hstep).sound hsound, hlist.trans hnil, hdep.trans hzero⟩
    · rintro w ⟨-, hnil, hzero⟩
      exact ⟨fun t ht => by simp [hnil] at ht, hzero ▸ Nat.zero_le _⟩

/-- A deposit that comes back with an answer, which changed the factory's account by `gain`. -/
def depositAnswered (answer : LedgerAnswer) (gain : ℤ) : List Event :=
  [.depositIcp (Sample.message 1 Sample.user) 100000000,
    .ledgerAnswers (Sample.deposit 1 100000000) answer,
    .transferReturns { Sample.deposit 1 100000000 with
      answer := some answer
      factoryGain := gain } 2 0]

/-- A deposit that the ledger refuses is not credited. -/
theorem depositsArrive_iff_refused : Runs.Throughout Sample.step DepositsArrive Sample.world
    (depositAnswered ⟨false, .error .canisterReject "refused", fun h => nomatch h⟩ 0) := by
  refine (depositsArrive_iff Sample.platform icrc1Transfer icrc1_icrc1Transfer
    (Sample.message 0 Sample.admin) Sample.ledger _).2 (Runs.along_of_forall fun e he => ?_)
  obtain rfl | rfl | rfl : _ ∨ _ ∨ _ := by simpa [depositAnswered] using he
  · trivial
  · trivial
  · rintro u amount answer - ⟨⟩
    rfl

/-- A deposit of 1 ICP that the ledger accepts is credited, and the factory's account has
paid the fee of a transfer to itself. -/
theorem not_depositsArrive_accepted :
    ¬Runs.Throughout Sample.step DepositsArrive Sample.world
      (depositAnswered (Sample.done 1) (-10000)) := by
  refine Runs.not_throughout (p := fun w => decide (w.received < deposited w.factory.records))
    (fun w h ha => ?_) (by decide +kernel)
  exact absurd ha.total (Nat.not_le.2 (of_decide_eq_true h))

end World

end HunterFi
