import HunterFi.Money

/-!
# Solvency

The factory is solvent if its account at the ledger holds at least the sum of all balances.
A deposit adds to both sides, a fee takes from the balances alone and its refund puts it
back, but a withdrawal takes its amount from the balances and the amount with the ledger's
fee from the account. So solvency is kept exactly as long as the account holds the fee of
each accepted withdrawal on top of the balances (`AffordsFee`).

`Backed` is the invariant, for runs of one call at a time. It counts what the call that is
under way will still credit or debit. `Short` is the state that a withdrawal leads to whose
fee the factory cannot afford.
-/

set_option linter.unusedSectionVars false

namespace HunterFi

/-! ## The sum of all balances -/

namespace Factory

/-- The sum of the balances of all accounts. -/
def totalBalance (f : Factory) : ℕ :=
  f.userAccounts.sumBy UserAccount.balance

theorem at0_balance (f : Factory) (user : Principal) :
    f.userAccounts.at0 UserAccount.balance user = f.balance user := by
  rw [KeyedMap.at0, balance, getUserAccount]
  cases f.userAccounts.get? user <;> rfl

theorem totalBalance_storeUserAccount (f : Factory) (account : UserAccount) :
    (f.storeUserAccount account).totalBalance + f.balance account.owner =
      f.totalBalance + account.balance := by
  rw [← at0_balance]
  exact f.userAccounts.sumBy_insert UserAccount.balance account

theorem totalBalance_credit_le (f : Factory) (env : Env) (user : Principal) (amount : ℕ) :
    (f.credit env user amount).totalBalance ≤ f.totalBalance + amount := by
  obtain ⟨account, heq, howner, hbalance⟩ : ∃ account, f.credit env user amount =
      f.storeUserAccount account ∧ account.owner = user ∧
        account.balance = saturatingAdd (f.balance user) amount :=
    ⟨_, rfl, f.owner_getUserAccount user, rfl⟩
  have h := f.totalBalance_storeUserAccount account
  rw [howner, hbalance, ← heq, saturatingAdd] at h
  omega

theorem totalBalance_debit (f : Factory) (user : Principal) {amount : ℕ}
    (hb : amount ≤ f.balance user) :
    (f.debit user amount).totalBalance + amount = f.totalBalance := by
  obtain ⟨account, heq, howner, hbalance⟩ : ∃ account, f.debit user amount =
      f.storeUserAccount account ∧ account.owner = user ∧
        account.balance = f.balance user - amount :=
    ⟨_, rfl, f.owner_getUserAccount user, rfl⟩
  have h := f.totalBalance_storeUserAccount account
  rw [howner, hbalance, ← heq] at h
  omega

@[simp] theorem totalBalance_post (f : Factory) (P : Platform) (env : Env) (user : Principal)
    (amount : ℕ) (ty : TransactionType) (description : String) :
    (f.post P env user amount ty description).totalBalance = f.totalBalance :=
  rfl

end Factory

/-- What a list of records credits, whoever the user is. -/
def creditsOf (rs : List TransactionRecord) : ℕ :=
  Movement.credits (rs.filterMap TransactionRecord.movement)

/-- What it debits. -/
def debitsOf (rs : List TransactionRecord) : ℕ :=
  Movement.debits (rs.filterMap TransactionRecord.movement)

/-- A segment raises the sum of all balances by at most what it credits less what it debits. -/
theorem Posts.totalBalance_le {P : Platform} {env : Env} {f g : Factory}
    {rs : List TransactionRecord} (hp : Posts P env f rs g) :
    g.totalBalance + debitsOf rs ≤ f.totalBalance + creditsOf rs := by
  induction hp with
  | idle accounts transactions journal =>
    have hperm := KeyedMap.vals_perm_of_get?_eq accounts
    exact ((hperm.map _).sum_eq).le
  | credit f user amount ty description movement =>
    have h := f.totalBalance_credit_le env user amount
    simpa [creditsOf, debitsOf, movement, Movement.credited, Movement.debited] using h
  | debit f user amount ty description covered movement =>
    have h := f.totalBalance_debit user covered
    simpa [creditsOf, debitsOf, movement, Movement.credited, Movement.debited] using h.le
  | trans _ _ ihf ihg =>
    simp only [creditsOf, debitsOf, List.filterMap_append, Movement.credits_append,
      Movement.debits_append] at ihf ihg ⊢
    omega

/-! ## Calls under way -/

namespace Transfer

/-- What the reply to a transfer will credit. -/
def toCredit (t : Transfer) : ℕ :=
  match t.purpose, t.answer with
  | .deposit _ amount, some answer => if answer.result.isOk then amount else 0
  | _, _ => 0

/-- What the reply to a transfer will debit. -/
def toDebit (t : Transfer) : ℕ :=
  match t.purpose, t.answer with
  | .withdrawUser _ amount, some answer => if answer.result.isOk then amount else 0
  | _, _ => 0

theorem toCredit_of_open {t : Transfer} (h : t.answer = none) : t.toCredit = 0 := by
  rw [toCredit, h]
  cases t.purpose <;> rfl

theorem toDebit_of_open {t : Transfer} (h : t.answer = none) : t.toDebit = 0 := by
  rw [toDebit, h]
  cases t.purpose <;> rfl

end Transfer

/-- A deposit raises the factory's account by its amount, and any other accepted transfer of
the factory takes its amount and the fee from it. -/
structure ChargesFee (P : Platform) (L : LedgerRule) : Prop where
  deposit : ∀ args l l', L P.id args l = some l' → args.toAccount = defaultAccount P.id →
    l' (defaultAccount P.id) = l (defaultAccount P.id) + args.amount
  charge : ∀ args l l', L P.id args l = some l' → args.toAccount ≠ defaultAccount P.id →
    l' (defaultAccount P.id) + (args.amount + paymentConfig.icpTransferFee) =
      l (defaultAccount P.id)

namespace World

open Deployment

variable {P : Platform} {L : LedgerRule} {w w' : World} {env : Env} {e : Event}

/-- The factory's account at the ledger. -/
def vault (P : Platform) (w : World) : ℕ :=
  w.ledger (defaultAccount P.id)

/-- While no ledger call is in flight, the factory's account holds the sum of all balances. -/
def Solvent (P : Platform) (w : World) : Prop :=
  w.transfers = [] → w.factory.totalBalance ≤ w.vault P

/-- A user calls while nothing is under way, and otherwise there are only answers. -/
def OneCall (w : World) : Event → Prop
  | .depositIcp _ _ => w.transfers = [] ∧ w.tasks = []
  | .withdrawUserIcp _ _ => w.transfers = [] ∧ w.tasks = []
  | .requestStrategy _ _ => w.transfers = [] ∧ w.tasks = []
  | .ledgerAnswers _ _ => True
  | .transferReturns _ _ _ => True
  | .canisterCreated _ _ _ _ => True
  | .codeInstalled _ _ _ _ => True
  | .strategyInitialized _ _ _ _ => True
  | _ => False

instance (w : World) : ∀ e, Decidable (w.OneCall e)
  | .depositIcp .. => inferInstanceAs (Decidable (_ ∧ _))
  | .withdrawUserIcp .. => inferInstanceAs (Decidable (_ ∧ _))
  | .requestStrategy .. => inferInstanceAs (Decidable (_ ∧ _))
  | .ledgerAnswers .. => .isTrue trivial
  | .transferReturns .. => .isTrue trivial
  | .canisterCreated .. => .isTrue trivial
  | .codeInstalled .. => .isTrue trivial
  | .strategyInitialized .. => .isTrue trivial
  | .forceExecuteDeployment .. => .isFalse id
  | .withdrawIcp .. => .isFalse id
  | .adjustBalance .. => .isFalse id
  | .setDeploymentFee .. => .isFalse id
  | .addAdmin .. => .isFalse id
  | .removeAdmin .. => .isFalse id
  | .cleanup .. => .isFalse id
  | .upgrade => .isFalse id
  | .userTransfer .. => .isFalse id

/-- When the ledger accepts a withdrawal, the factory's account exceeds the sum of all balances
by the fee, and by the amount too if the call comes back as an error. -/
def AffordsFee (P : Platform) (w : World) : Event → Prop
  | .ledgerAnswers t answer =>
    answer.accepted → ∀ u amount, t.purpose = .withdrawUser u amount →
      w.factory.totalBalance + paymentConfig.icpTransferFee +
        (if answer.result.isOk then 0 else amount) ≤ w.vault P
  | _ => True

instance (P : Platform) (w : World) : ∀ e, Decidable (AffordsFee P w e)
  | .ledgerAnswers t answer =>
    match h : t.purpose with
    | .withdrawUser u amount =>
      decidable_of_iff (answer.accepted → w.factory.totalBalance + paymentConfig.icpTransferFee +
        (if answer.result.isOk then 0 else amount) ≤ w.vault P) (by simp [AffordsFee, h])
    | .deposit .. | .withdrawIcp .. => .isTrue (by simp [AffordsFee, h])
  | .depositIcp .. | .withdrawUserIcp .. | .withdrawIcp .. | .requestStrategy ..
  | .forceExecuteDeployment .. | .adjustBalance .. | .setDeploymentFee .. | .addAdmin ..
  | .removeAdmin .. | .cleanup .. | .upgrade | .userTransfer .. | .transferReturns ..
  | .canisterCreated .. | .codeInstalled .. | .strategyInitialized .. => .isTrue trivial

/-- What is known of a call in flight : a deposit asks for the factory's account, a withdrawal
for another one, and the balance covers it. -/
def Pending (P : Platform) (w : World) (t : Transfer) : Prop :=
  match t.purpose with
  | .deposit _ amount => t.args.toAccount = defaultAccount P.id ∧ t.args.amount = amount
  | .withdrawUser u amount =>
    t.args.toAccount ≠ defaultAccount P.id ∧ t.args.amount = amount ∧ amount ≤ w.factory.balance u
  | .withdrawIcp _ _ _ => False

/-- The fee that an execution of the deployment refunds if it fails. -/
def refundable (w : World) (id : String) : ℕ :=
  ((w.factory.getDeploymentRecord id).map DeploymentRecord.feeAmount).getD 0

/-- At most one call is under way, and the factory's account holds the balances with what this
call will still credit, less what it will debit. -/
structure Backed (P : Platform) (w : World) : Prop where
  single : w.transfers.length + w.tasks.length ≤ 1
  pending : ∀ t ∈ w.transfers, w.Pending P t
  backed : w.factory.totalBalance + (w.tasks.map fun task => w.refundable task.deploymentId).sum +
      (w.transfers.map Transfer.toCredit).sum ≤
    w.vault P + (w.transfers.map Transfer.toDebit).sum

/-- A withdrawal is about to come back after which the factory's account does not hold the
sum of all balances. -/
def Short (P : Platform) (w : World) : Prop :=
  ∃ t u amount, w.transfers = [t] ∧ w.tasks = [] ∧ t.answer ≠ none ∧
    t.purpose = .withdrawUser u amount ∧ amount ≤ w.factory.balance u ∧
    w.vault P + t.toDebit < w.factory.totalBalance

theorem Backed.solvent_of_idle (h : w.Backed P) (ht : w.transfers = []) :
    w.factory.totalBalance ≤ w.vault P := by
  have hb := h.backed
  rw [ht, List.map_nil, List.map_nil, List.sum_nil] at hb
  omega

theorem Backed.eq_of_mem_transfers (h : w.Backed P) {t : Transfer} (ht : t ∈ w.transfers) :
    w.transfers = [t] ∧ w.tasks = [] := by
  have hsingle := h.single
  have hpos := List.length_pos_of_mem ht
  obtain ⟨t', ht'⟩ := List.length_eq_one_iff.1 (by omega : w.transfers.length = 1)
  refine ⟨?_, List.eq_nil_of_length_eq_zero (by omega)⟩
  rw [ht'] at ht ⊢
  rw [List.mem_singleton.1 ht]

theorem Backed.backed_of_mem (h : w.Backed P) {t : Transfer} (ht : t ∈ w.transfers) :
    w.factory.totalBalance + t.toCredit ≤ w.vault P + t.toDebit := by
  obtain ⟨heq, hk⟩ := h.eq_of_mem_transfers ht
  have hb := h.backed
  rw [heq, hk, List.map_nil, List.map_singleton, List.map_singleton, List.sum_singleton,
    List.sum_singleton] at hb
  exact hb

theorem Backed.eq_of_mem_tasks (h : w.Backed P) {task : Task} (ht : task ∈ w.tasks) :
    w.tasks = [task] ∧ w.transfers = [] := by
  have hsingle := h.single
  have hpos := List.length_pos_of_mem ht
  obtain ⟨t', ht'⟩ := List.length_eq_one_iff.1 (by omega : w.tasks.length = 1)
  refine ⟨?_, List.eq_nil_of_length_eq_zero (by omega)⟩
  rw [ht'] at ht ⊢
  rw [List.mem_singleton.1 ht]

/-- Nothing is under way. -/
theorem backed_of_idle (ht : w.transfers = []) (hk : w.tasks = [])
    (hb : w.factory.totalBalance ≤ w.vault P) : w.Backed P := by
  refine ⟨by simp [ht, hk], by simp [ht], ?_⟩
  simpa [ht, hk] using hb

/-- An execution is under way. -/
theorem backed_of_task {task : Task} (ht : w.transfers = []) (hk : w.tasks = [task])
    (hb : w.factory.totalBalance + w.refundable task.deploymentId ≤ w.vault P) : w.Backed P := by
  refine ⟨by simp [ht, hk], by simp [ht], ?_⟩
  simpa [ht, hk] using hb

/-- A transfer is under way. -/
theorem backed_of_transfer {t : Transfer} (ht : w.transfers = [t]) (hk : w.tasks = [])
    (hp : w.Pending P t) (hb : w.factory.totalBalance + t.toCredit ≤ w.vault P + t.toDebit) :
    w.Backed P := by
  refine ⟨by simp [ht, hk], by simpa [ht] using hp, ?_⟩
  simpa [ht, hk] using hb

/-! ## Steps -/

theorem Backed.issue (h : w.Backed P) (ht : w.transfers = []) (hk : w.tasks = [])
    {purpose : Purpose} {caller : Principal} {args : Except String TransferArgs}
    (hp : ∀ a, args = .ok a → w.Pending P (.issued purpose caller a)) :
    (w.issue purpose caller args).Backed P := by
  have hb := h.solvent_of_idle ht
  cases args with
  | error message => exact backed_of_idle ht hk hb
  | ok args =>
    refine backed_of_transfer (t := .issued purpose caller args) (congrArg _ ht) hk (hp args rfl) ?_
    rw [Transfer.toCredit_of_open rfl, Transfer.toDebit_of_open rfl]
    exact hb

theorem Backed.asks {config : Config} (h : w.Backed P) (ht : w.transfers = []) (hk : w.tasks = [])
    (ha : Asks P w env config w') : w'.Backed P := by
  have hb := h.solvent_of_idle ht
  have hfee : creditsOf [feeOf P env w.factory] = 0 ∧
      debitsOf [feeOf P env w.factory] = w.factory.deploymentFee := ⟨rfl, rfl⟩
  cases ha with
  | refused _ => exact backed_of_idle ht hk hb
  | unserialized g passes e encode posts =>
    have hle := posts.totalBalance_le
    refine backed_of_idle ht hk ?_
    change g.totalBalance ≤ w.vault P
    omega
  | waits w' task r passes cycles posts tasks record feeAmount same =>
    have hle := posts.totalBalance_le
    have hvault : w'.vault P = w.vault P := congrFun same.ledger _
    refine backed_of_task (same.transfers.trans ht) (tasks.trans (congrArg _ hk)) ?_
    rw [refundable, record, Option.map_some, Option.getD_some, feeAmount, hvault]
    omega
  | failed w' configData passes encode cycles posts tasks same =>
    have hle := posts.totalBalance_le
    have hvault : w'.vault P = w.vault P := congrFun same.ledger _
    have hsum : creditsOf [feeOf P env w.factory,
        refundOf P env (newRecord env w.factory configData)] = w.factory.deploymentFee ∧
        debitsOf [feeOf P env w.factory,
          refundOf P env (newRecord env w.factory configData)] = w.factory.deploymentFee := by
      simp [creditsOf, debitsOf, Movement.credits, Movement.debits, feeOf, refundOf, newRecord,
        TransactionRecord.movement, Movement.credited, Movement.debited]
    refine backed_of_idle (same.transfers.trans ht) (tasks.trans hk) ?_
    omega

/-- A segment of the only execution. -/
theorem backed_resume {id : String} {ends : Prop} {left : ℕ} {p : Progress × Factory}
    (spawned : Bool) (ht : w.transfers = []) (hk : w.tasks = [])
    (ho : Outcome P env w.factory id ends left p)
    (hb : w.factory.totalBalance + w.refundable id ≤ w.vault P) :
    (w.resume P env spawned id p).Backed P := by
  have hf := factory_resume (w := w) spawned ho
  have hvault : (w.resume P env spawned id p).vault P = w.vault P := congrFun ledger_resume _
  have hfee : ∀ {r}, w.factory.getDeploymentRecord id = some r → w.refundable id = r.feeAmount := by
    intro r hr
    rw [refundable, hr]
    rfl
  cases ho with
  | lost message hr =>
    refine backed_of_idle ht hk ?_
    rw [hf, hvault]
    dsimp only
    omega
  | waits r r' record stage g hr hends follows status writes =>
    refine backed_of_task ht (congrArg _ hk) ?_
    have hid := follows.deploymentId.trans (Factory.deploymentId_of_getDeploymentRecord hr)
    have hr' : g.getDeploymentRecord id = some r' := by rw [writes.record, if_pos hid.symm]
    have hle := writes.posts.totalBalance_le
    rw [hfee hr] at hb
    rw [hvault, refundable, hf, hr', Option.map_some, Option.getD_some, follows.feeAmount]
    dsimp only
    change g.totalBalance + 0 ≤ w.factory.totalBalance + 0 at hle
    omega
  | failed r r' message g hr hends follows status writes =>
    refine backed_of_idle ht hk ?_
    have hle := writes.posts.totalBalance_le
    rw [hfee hr] at hb
    rw [hf, hvault]
    dsimp only
    change g.totalBalance + 0 ≤ w.factory.totalBalance + (r.feeAmount + 0) at hle
    omega
  | deployed r r' metadata canisterId g hr hends follows status _ _ writes =>
    refine backed_of_idle ht hk ?_
    have hle := writes.posts.totalBalance_le
    rw [hf, hvault]
    dsimp only
    change g.totalBalance + 0 ≤ w.factory.totalBalance + 0 at hle
    omega

theorem Backed.continued {task : Task} {ends : Prop} {p : Progress × Factory}
    (h : w.Backed P) (mem : task ∈ w.tasks)
    (ho : Outcome P env w.factory task.deploymentId ends task.stage.left p) :
    (resume { w with tasks := w.tasks.erase task } P env task.spawned
      task.deploymentId p).Backed P := by
  obtain ⟨hk, ht⟩ := h.eq_of_mem_tasks mem
  have htasks : w.tasks.erase task = [] := by rw [hk, List.erase_cons_head]
  have hb := h.backed
  rw [hk, ht, List.map_singleton, List.sum_singleton, List.map_nil, List.map_nil, List.sum_nil]
    at hb
  exact backed_resume (w := { w with tasks := w.tasks.erase task }) _ ht htasks ho hb

/-- The ledger refuses the transfer that is under way. -/
theorem Backed.refuses (h : w.Backed P) {t : Transfer} {answer : LedgerAnswer}
    (mem : t ∈ w.transfers) (open_ : t.answer = none) (refused : answer.accepted = false) :
    ({ w with
      transfers := answered P t answer w.ledger w.ledger :: w.transfers.erase t
      returned := none } : World).Backed P := by
  obtain ⟨ht, hk⟩ := h.eq_of_mem_transfers mem
  have hb := h.backed_of_mem mem
  rw [Transfer.toCredit_of_open open_, Transfer.toDebit_of_open open_] at hb
  have hok : ¬answer.result.isOk := fun hok => by simp [answer.accepted_of_isOk hok] at refused
  have hnil : w.transfers.erase t = [] := by rw [ht, List.erase_cons_head]
  refine backed_of_transfer (congrArg _ hnil) hk (h.pending t mem) ?_
  have hcredit : (answered P t answer w.ledger w.ledger).toCredit = 0 := by
    unfold Transfer.toCredit answered
    cases t.purpose <;> simp [hok]
  rw [hcredit]
  exact hb.trans (Nat.le_add_right _ _)

/-- The ledger accepts the transfer that is under way. -/
theorem Backed.accepts (hL : ChargesFee P L) (h : w.Backed P) {t : Transfer}
    {answer : LedgerAnswer} {l : Ledger} (mem : t ∈ w.transfers) (open_ : t.answer = none)
    (accepted : answer.accepted = true) (rule : L P.id t.args w.ledger = some l)
    {w' : World} (hw : w' = { w with
      ledger := l
      transfers := answered P t answer w.ledger l :: w.transfers.erase t
      accepted := answered P t answer w.ledger l :: w.accepted
      returned := none }) :
    (AffordsFee P w (.ledgerAnswers t answer) → w'.Backed P) ∧
      (¬AffordsFee P w (.ledgerAnswers t answer) → w'.Short P) := by
  obtain ⟨ht, hk⟩ := h.eq_of_mem_transfers mem
  have hb := h.backed_of_mem mem
  have hp := h.pending t mem
  rw [Transfer.toCredit_of_open open_, Transfer.toDebit_of_open open_] at hb
  have hnil : w.transfers.erase t = [] := by rw [ht, List.erase_cons_head]
  have htransfers : w'.transfers = [answered P t answer w.ledger l] := by rw [hw, hnil]
  have hfactory : w'.factory = w.factory := by rw [hw]
  have htasks : w'.tasks = [] := by rw [hw, hk]
  have hvault : w'.vault P = l (defaultAccount P.id) := by rw [hw, vault]
  have hp' : w'.Pending P (answered P t answer w.ledger l) := by
    unfold Pending
    rw [hfactory]
    exact hp
  cases hpurpose : t.purpose with
  | withdrawIcp recipient amount retries => simp [Pending, hpurpose] at hp
  | deposit u amount =>
    simp only [Pending, hpurpose] at hp
    have hafford : AffordsFee P w (.ledgerAnswers t answer) := by
      intro _ u' amount' hp
      rw [hpurpose] at hp
      cases hp
    refine ⟨fun _ => backed_of_transfer htransfers htasks hp' ?_, fun hn => absurd hafford hn⟩
    have hraise := hL.deposit _ _ _ rule hp.1
    have hcredit : (answered P t answer w.ledger l).toCredit ≤ amount := by
      simp only [Transfer.toCredit, answered, hpurpose]
      split_ifs
      · exact le_rfl
      · exact Nat.zero_le _
    rw [hfactory, hvault, hraise, hp.2]
    change w.factory.totalBalance + 0 ≤ w.ledger (defaultAccount P.id) + 0 at hb
    omega
  | withdrawUser u amount =>
    simp only [Pending, hpurpose] at hp
    have hafford : AffordsFee P w (.ledgerAnswers t answer) ↔ w.factory.totalBalance +
        paymentConfig.icpTransferFee + (if answer.result.isOk then 0 else amount) ≤ w.vault P := by
      refine ⟨fun h => h accepted u amount hpurpose, fun h _ u' amount' hp => ?_⟩
      rw [hpurpose] at hp
      cases hp
      exact h
    have hcharge := hL.charge _ _ _ rule hp.1
    have hdebit : (answered P t answer w.ledger l).toDebit =
        if answer.result.isOk then amount else 0 := by
      simp only [Transfer.toDebit, answered, hpurpose]
    have hcredit : (answered P t answer w.ledger l).toCredit = 0 := by
      simp only [Transfer.toCredit, answered, hpurpose]
    rw [hp.2.1] at hcharge
    change _ = w.vault P at hcharge
    rw [hafford]
    constructor
    · intro hle
      refine backed_of_transfer htransfers htasks hp' ?_
      rw [hcredit, hdebit, hfactory, hvault]
      split_ifs at hle ⊢ <;> omega
    · intro hlt
      refine ⟨_, u, amount, htransfers, htasks, by simp [answered], hpurpose, hfactory ▸ hp.2.2, ?_⟩
      rw [hdebit, hfactory, hvault]
      split_ifs at hlt ⊢ <;> omega

/-- A withdrawal that comes back takes from the sum of all balances what its reply debits. -/
theorem totalBalance_transferReturns {t : Transfer} {answer : LedgerAnswer} {u : Principal}
    {amount : ℕ} (ans : t.answer = some answer) (hp : t.purpose = .withdrawUser u amount)
    (hb : amount ≤ w.factory.balance u) (time cycles : ℕ) :
    (w.transferReturns P t answer.result time cycles).factory.totalBalance + t.toDebit =
      w.factory.totalBalance := by
  rw [transferReturns, Transfer.toDebit, hp, ans]
  dsimp only [withFactory]
  rcases Payment.userWithdrawFundsAnswer_cases P ⟨time, t.caller, cycles⟩ w.factory u amount
    answer.result with ⟨hok, hle, heq⟩ | ⟨hn, e, heq⟩
  · rw [heq, if_pos hok]
    exact w.factory.totalBalance_debit u hle
  · rw [heq, if_neg fun hok => hn ⟨hok, hb⟩]
    rfl

theorem Backed.returns (h : w.Backed P) {t : Transfer} {answer : LedgerAnswer}
    (mem : t ∈ w.transfers) (ans : t.answer = some answer) (time cycles : ℕ) :
    (w.transferReturns P t answer.result time cycles).Backed P := by
  obtain ⟨ht, hk⟩ := h.eq_of_mem_transfers mem
  have hpending := h.pending t mem
  have hb := h.backed_of_mem mem
  have hnil : w.transfers.erase t = [] := by rw [ht, List.erase_cons_head]
  cases hp : t.purpose with
  | withdrawIcp recipient amount retries => simp [Pending, hp] at hpending
  | deposit u amount =>
    have hle := (processDepositAnswer_pays P ⟨time, t.caller, cycles⟩ w.factory u amount
      answer.result).posts.totalBalance_le
    have hcredit : t.toCredit = if answer.result.isOk then amount else 0 := by
      rw [Transfer.toCredit, hp, ans]
    have hdebit : t.toDebit = 0 := by rw [Transfer.toDebit, hp]
    rw [hcredit, hdebit] at hb
    unfold transferReturns
    rw [hp]
    refine backed_of_idle hnil hk ?_
    change (Payment.processDepositAnswer P ⟨time, t.caller, cycles⟩ w.factory u amount
      answer.result).2.totalBalance ≤ w.vault P
    split_ifs at hle hb with hok
    · change _ + 0 ≤ w.factory.totalBalance + (amount + 0) at hle
      omega
    · change _ + 0 ≤ w.factory.totalBalance + 0 at hle
      omega
  | withdrawUser u amount =>
    simp only [Pending, hp] at hpending
    have htotal := totalBalance_transferReturns ans hp hpending.2.2 time cycles (P := P)
    have hcredit : t.toCredit = 0 := by rw [Transfer.toCredit, hp]
    have hvault : (w.transferReturns P t answer.result time cycles).vault P = w.vault P := by
      rw [transferReturns, hp]
      rfl
    refine backed_of_idle ?_ ?_ ?_
    · rw [transferReturns, hp]
      exact hnil
    · rw [transferReturns, hp]
      exact hk
    · omega

theorem Deploys.backed {id : String} (hd : Deploys P w e w') (he : w.executes e = some id)
    (hforce : ∀ env id, e ≠ .forceExecuteDeployment env id) (h : w.Backed P) : w'.Backed P := by
  cases hd with
  | still e w' env rs pays norefund tasks requests returned ended executes => simp [executes] at he
  | cleans => cases he
  | upgrades => cases he
  | unserialized => cases he
  | requested => cases he
  | forced env id p executes outcome => exact absurd rfl (hforce env id)
  | continued e task time cycles p mem executes outcome => exact h.continued mem outcome

/-- A step keeps the balances backed if the factory affords the fee, and else it leaves the
factory short. -/
theorem Backed.step (hL : ChargesFee P L) (hs : w.Sound) (h : w.Backed P) (hone : w.OneCall e)
    (hstep : step P L w e = some w') :
    (AffordsFee P w e → w'.Backed P) ∧ (¬AffordsFee P w e → w'.Short P) := by
  have hd := step_deploys hs hstep
  obtain ⟨hm, hsender⟩ := step_moves hs hstep
  unfold World.step at hstep
  rw [if_neg hsender] at hstep
  cases e with
  | depositIcp env amount =>
    refine ⟨fun _ => ?_, fun hn => absurd trivial hn⟩
    obtain rfl := Option.some.inj hstep
    refine h.issue hone.1 hone.2 fun a ha => ?_
    cases depositIcp_issues (w := w) ha with
    | deposit _ _ _ receiver amount_eq _ => exact ⟨receiver, amount_eq⟩
  | withdrawUserIcp env amount =>
    refine ⟨fun _ => ?_, fun hn => absurd trivial hn⟩
    obtain rfl := Option.some.inj hstep
    refine h.issue hone.1 hone.2 fun a ha => ?_
    cases withdrawUserIcp_issues (P := P) ha with
    | withdrawUser _ _ _ receiver amount_eq covered =>
      refine ⟨fun hto => hsender ?_, amount_eq, covered⟩
      simpa [Event.sender, defaultAccount] using receiver.symm.trans hto
  | requestStrategy env config =>
    refine ⟨fun _ => ?_, fun hn => absurd trivial hn⟩
    cases hm with
    | quiet _ _ _ he => exact he.elim
    | credits _ _ _ _ he => exact he.elim
    | asks _ _ _ asks => exact h.asks hone.1 hone.2 asks
    | issues _ _ _ _ issues => cases issues
  | ledgerAnswers t answer =>
    cases hm with
    | quiet _ _ _ he => exact he.elim
    | credits _ _ _ _ he => exact he.elim
    | issues _ _ _ _ issues => cases issues
    | refuses _ _ mem open_ refused =>
      refine ⟨fun _ => h.refuses mem open_ refused, fun hn => absurd (fun ha => ?_) hn⟩
      rw [refused] at ha
      cases ha
    | accepts _ _ l mem open_ accepted rule => exact h.accepts hL mem open_ accepted rule rfl
  | transferReturns t time cycles =>
    refine ⟨fun _ => ?_, fun hn => absurd trivial hn⟩
    cases hm with
    | quiet _ _ _ he => exact he.elim
    | credits _ _ _ _ he => exact he.elim
    | issues _ _ _ _ issues => cases issues
    | returns _ answer _ _ mem ans => exact h.returns mem ans time cycles
  | canisterCreated task time cycles result =>
    exact ⟨fun _ => hd.backed rfl (by simp) h, fun hn => absurd trivial hn⟩
  | codeInstalled task time cycles result =>
    exact ⟨fun _ => hd.backed rfl (by simp) h, fun hn => absurd trivial hn⟩
  | strategyInitialized task time cycles result =>
    exact ⟨fun _ => hd.backed rfl (by simp) h, fun hn => absurd trivial hn⟩
  | forceExecuteDeployment => exact hone.elim
  | withdrawIcp => exact hone.elim
  | adjustBalance => exact hone.elim
  | setDeploymentFee => exact hone.elim
  | addAdmin => exact hone.elim
  | removeAdmin => exact hone.elim
  | cleanup => exact hone.elim
  | upgrade => exact hone.elim
  | userTransfer => exact hone.elim

/-- From a short state the only step is the reply, after which the factory is not solvent. -/
theorem Short.not_solvent (hs : w.Short P) (hone : w.OneCall e)
    (hstep : step P L w e = some w') : ¬w'.Solvent P := by
  obtain ⟨t, u, amount, ht, hk, hans, hp, hb, hlt⟩ := hs
  have hidle : w.transfers ≠ [] := by simp [ht]
  unfold World.step at hstep
  split_ifs at hstep
  cases e with
  | depositIcp => exact absurd hone.1 hidle
  | withdrawUserIcp => exact absurd hone.1 hidle
  | requestStrategy => exact absurd hone.1 hidle
  | ledgerAnswers t' answer =>
    simp only [next, ht, List.mem_singleton] at hstep
    split_ifs at hstep with h
    obtain ⟨rfl, hopen⟩ := h
    exact absurd hopen hans
  | transferReturns t' time cycles =>
    obtain ⟨answer, hmem, ha, rfl⟩ := next_transferReturns hstep
    obtain rfl := List.mem_singleton.1 (ht ▸ hmem)
    have htotal := totalBalance_transferReturns (P := P) ha hp hb time cycles
    have hnil : w.transfers.erase t' = [] := by rw [ht, List.erase_cons_head]
    intro hsolvent
    have hle := hsolvent (by rw [transferReturns, hp]; exact hnil)
    have hvault : (w.transferReturns P t' answer.result time cycles).vault P = w.vault P := by
      rw [transferReturns, hp]
      rfl
    omega
  | canisterCreated task => exact absurd (next_canisterCreated hstep).1 (by simp [hk])
  | codeInstalled task =>
    obtain ⟨_, hmem, -⟩ := next_codeInstalled hstep
    exact absurd hmem (by simp [hk])
  | strategyInitialized task =>
    obtain ⟨_, hmem, -⟩ := next_strategyInitialized hstep
    exact absurd hmem (by simp [hk])
  | forceExecuteDeployment => exact hone.elim
  | withdrawIcp => exact hone.elim
  | adjustBalance => exact hone.elim
  | setDeploymentFee => exact hone.elim
  | addAdmin => exact hone.elim
  | removeAdmin => exact hone.elim
  | cleanup => exact hone.elim
  | upgrade => exact hone.elim
  | userTransfer => exact hone.elim

/-! ## Runs -/

theorem backed_start (P : Platform) (env : Env) (ledger : Ledger) : (start env ledger).Backed P :=
  backed_of_idle rfl rfl (Nat.zero_le _)

/-- In a run of one call at a time the factory is solvent in every state if it affords the fee
of each withdrawal that the ledger accepts, and in a run that ends with no ledger call in
flight only then. -/
theorem solvent_of_affordsFee (P : Platform) (L : LedgerRule) (hL : ChargesFee P L) (env : Env)
    (ledger : Ledger) (es : List Event)
    (hone : Runs.Along (step P L) OneCall (start env ledger) es) :
    (Runs.Along (step P L) (AffordsFee P) (start env ledger) es →
      Runs.Throughout (step P L) (Solvent P) (start env ledger) es) ∧
    ((∃ w, Runs.run (step P L) (start env ledger) es = some w ∧ w.transfers = []) →
      Runs.Throughout (step P L) (Solvent P) (start env ledger) es →
      Runs.Along (step P L) (AffordsFee P) (start env ledger) es) := by
  have hstart : (start env ledger).Sound ∧ (start env ledger).Backed P :=
    ⟨sound_start env ledger, backed_start P env ledger⟩
  constructor
  · intro hfee
    refine (Runs.throughout_of_along (P := fun w => w.Sound ∧ w.Backed P) ?_ hstart
      (hone.and hfee)).mono fun w h => h.2.solvent_of_idle
    rintro w e w' ⟨hsound, hbacked⟩ ⟨hone, hfee⟩ hstep
    exact ⟨(step_deploys hsound hstep).sound hsound, (hbacked.step hL hsound hone hstep).1 hfee⟩
  · rintro ⟨w, hrun, hidle⟩ hsolvent
    have hlast : ¬w.Short P := by
      rintro ⟨t, _, _, ht, _⟩
      simp [hidle] at ht
    have hshort := Runs.throughout_not_of_step
      (fun _ _ _ hs hone hstep => hs.not_solvent hone hstep) hlast hone hsolvent hrun
    refine Runs.along_of_throughout (I := fun w => w.Sound ∧ w.Backed P) ?_ hstart hone hshort
    rintro w e w' ⟨hsound, hbacked⟩ - hone hstep hnot
    have h := hbacked.step hL hsound hone hstep
    have hfee : AffordsFee P w e := by
      by_contra hn
      exact hnot (h.2 hn)
    exact ⟨⟨(step_deploys hsound hstep).sound hsound, h.1 hfee⟩, hfee⟩

/-- A ledger at which a deposit brings its amount to the account it names. -/
def depositingTransfer (P : Platform) : LedgerRule := fun caller args l =>
  if args.toAccount = defaultAccount P.id then
    some (Function.update l args.toAccount (l args.toAccount + args.amount))
  else if args.fee.getD paymentConfig.icpTransferFee = paymentConfig.icpTransferFee then
    icrc1Transfer caller args l
  else none

theorem chargesFee_depositingTransfer (P : Platform) : ChargesFee P (depositingTransfer P) := by
  refine ⟨fun args l l' h hto => ?_, fun args l l' h hto => ?_⟩
  · rw [depositingTransfer, if_pos hto, hto] at h
    obtain rfl := Option.some.inj h
    exact Function.update_self _ _ _
  · rw [depositingTransfer, if_neg hto] at h
    split_ifs at h with hfee
    unfold icrc1Transfer at h
    dsimp only at h
    split_ifs at h with hcost
    obtain rfl := Option.some.inj h
    rw [Function.update_of_ne (Ne.symm hto), Function.update_self, hfee]
    rw [hfee] at hcost
    omega

/-- A deposit of 1 ICP and a withdrawal of half of it. -/
def withdrawsHalf : List Event :=
  [.depositIcp (Sample.message 1 Sample.user) 100000000,
    .ledgerAnswers (Sample.deposit 1 100000000) (Sample.done 1),
    .transferReturns { Sample.deposit 1 100000000 with
      answer := some (Sample.done 1)
      factoryGain := 100000000 } 2 0,
    .withdrawUserIcp (Sample.message 3 Sample.user) 50000000,
    .ledgerAnswers (Sample.withdrawal 3 50000000) (Sample.done 2),
    .transferReturns { Sample.withdrawal 3 50000000 with
      answer := some (Sample.done 2)
      factoryGain := -50010000
      callerGain := 50000000 } 4 0]

/-- A ledger at which the factory's account alone holds something, the fee of one transfer. -/
def surplus : Ledger :=
  Function.update (fun _ => 0) (defaultAccount Sample.platform.id) paymentConfig.icpTransferFee

/-- With the fee in its account at the start, the factory stays solvent. -/
theorem solvent_of_affordsFee_withdrawsHalf :
    Runs.Throughout (step Sample.platform (depositingTransfer Sample.platform))
      (Solvent Sample.platform) (start (Sample.message 0 Sample.admin) surplus) withdrawsHalf :=
  (solvent_of_affordsFee Sample.platform (depositingTransfer Sample.platform)
    (chargesFee_depositingTransfer _) (Sample.message 0 Sample.admin) surplus withdrawsHalf
    (by decide +kernel)).1 (by decide +kernel)

/-- If its account is empty at the start, the balance is 0.5 ICP at the end and the account holds
less by the fee. -/
theorem not_solvent_withdrawsHalf :
    ChargesFee Sample.platform (depositingTransfer Sample.platform) ∧
      Runs.Along (step Sample.platform (depositingTransfer Sample.platform)) OneCall
        (start (Sample.message 0 Sample.admin) fun _ => 0) withdrawsHalf ∧
      ¬Runs.Throughout (step Sample.platform (depositingTransfer Sample.platform))
        (Solvent Sample.platform) (start (Sample.message 0 Sample.admin) fun _ => 0)
        withdrawsHalf := by
  refine ⟨chargesFee_depositingTransfer _, by decide +kernel, ?_⟩
  refine Runs.not_throughout (p := fun w => decide (w.transfers = [] ∧
    w.vault Sample.platform < w.factory.totalBalance)) (fun w h hs => ?_) (by decide +kernel)
  obtain ⟨hidle, hlt⟩ := of_decide_eq_true h
  exact absurd (hs hidle) (Nat.not_le.2 hlt)

end World

end HunterFi
