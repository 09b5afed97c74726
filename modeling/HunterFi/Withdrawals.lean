import HunterFi.Money

/-!
# Withdrawals

A withdrawal checks the balance before its call to the ledger and debits it after the reply,
so what the ledger has accepted and the factory has not yet debited is `unsettled`. An
account is `NotOverdrawn` if what the ledger accepted, with the fees, is at most what was
credited, and if each accepted amount is debited or unsettled.

By the books this is the same as the balance covering what is unsettled
(`notOverdrawn_iff_covers`). `Tallies` says what a step does to these four numbers of an
account, and `Careful` is the condition under which it keeps the account covered.
-/

set_option linter.unusedSectionVars false

namespace HunterFi

/-! ## Withdrawals and fees of an account -/

namespace Transfer

/-- The ledger accepted the transfer. -/
def Accepted (t : Transfer) : Bool :=
  t.answer.any LedgerAnswer.accepted

/-- The amount of a transfer to `user` that a withdrawal asked for. -/
def withdrawal (user : Principal) (t : Transfer) : Option ℕ :=
  match t.purpose with
  | .withdrawUser _ _ =>
    if t.args.toAccount = defaultAccount user then some t.args.amount else none
  | _ => none

/-- That amount while the ledger has accepted the transfer. -/
def unsettled (user : Principal) (t : Transfer) : List ℕ :=
  if t.Accepted then (t.withdrawal user).toList else []

/-- The arguments of a withdrawal are those the user asked for. -/
def AsAsked (t : Transfer) : Prop :=
  ∀ u amount, t.purpose = .withdrawUser u amount →
    t.args.toAccount = defaultAccount u ∧ t.args.amount = amount

end Transfer

/-- The amounts withdrawn in a list of records. -/
def withdrawals (user : Principal) (rs : List TransactionRecord) : List ℕ :=
  (rs.filter fun r => r.user = user ∧ r.transactionType = .withdrawal).map TransactionRecord.amount

/-- The deployment fees in a list of records. -/
def fees (user : Principal) (rs : List TransactionRecord) : ℕ :=
  ((rs.filter fun r => r.user = user ∧ r.transactionType = .deploymentFee).map
    TransactionRecord.amount).sum

@[simp] theorem withdrawals_append (user : Principal) (rs ss : List TransactionRecord) :
    withdrawals user (rs ++ ss) = withdrawals user rs ++ withdrawals user ss := by
  simp [withdrawals]

theorem withdrawals_eq_nil {user : Principal} {rs : List TransactionRecord}
    (h : ∀ r ∈ rs, r.user = user → r.transactionType ≠ .withdrawal) : withdrawals user rs = [] := by
  rw [withdrawals, List.filter_eq_nil_iff.2 fun r hr => ?_, List.map_nil]
  simpa using h r hr

/-- An account is debited fees and withdrawals. -/
theorem debits_movements (user : Principal) (rs : List TransactionRecord) :
    Movement.debits (movements user rs) = fees user rs + (withdrawals user rs).sum := by
  induction rs with
  | nil => rfl
  | cons r rs ih =>
    have hsplit : movements user (r :: rs) = movements user [r] ++ movements user rs :=
      movements_append user [r] rs
    have hone : Movement.debits (movements user [r]) =
        fees user [r] + (withdrawals user [r]).sum := by
      by_cases h : r.user = user
      · cases hty : r.transactionType <;>
          simp [fees, withdrawals, movements, h, hty, TransactionRecord.movement, Movement.debited]
      · simp [fees, withdrawals, movements, h]
    have hfees : fees user (r :: rs) = fees user [r] + fees user rs := by
      by_cases h : r.user = user ∧ r.transactionType = .deploymentFee <;> simp [fees, h]
    have hwith : withdrawals user (r :: rs) = withdrawals user [r] ++ withdrawals user rs :=
      withdrawals_append user [r] rs
    rw [hsplit, Movement.debits_append, hone, ih, hfees, hwith, List.sum_append]
    omega

/-- Credits do not lower a balance. -/
theorem le_foldl_apply {cap b : ℕ} {ms : List Movement} (hb : b ≤ cap)
    (h : ∀ m ∈ ms, m.debited = 0) : b ≤ ms.foldl (Movement.apply cap) b := by
  induction ms generalizing b with
  | nil => exact le_rfl
  | cons m ms ih =>
    obtain ⟨hm, hms⟩ := List.forall_mem_cons.1 h
    have hstep : b ≤ Movement.apply cap b m ∧ Movement.apply cap b m ≤ cap := by
      cases m with
      | credit n => simp only [Movement.apply]; omega
      | debit n =>
        obtain rfl : n = 0 := hm
        simp only [Movement.apply]
        omega
    exact hstep.1.trans (ih hstep.2 hms)

namespace World

open Deployment

variable {P : Platform} {L : LedgerRule} {w w' : World} {user : Principal} {e : Event}

/-- The amounts of the withdrawals to `user` that the ledger accepted. -/
def acceptedFor (user : Principal) (w : World) : List ℕ :=
  w.accepted.filterMap (Transfer.withdrawal user)

/-- The amounts of those whose reply has not come back. -/
def unsettled (user : Principal) (w : World) : List ℕ :=
  w.transfers.flatMap (Transfer.unsettled user)

/-- Each accepted withdrawal is debited, or its reply has not come back. -/
def Matched (user : Principal) (w : World) : Prop :=
  (w.acceptedFor user).Perm (withdrawals user w.factory.records ++ w.unsettled user)

/-- What the ledger accepted for `user`, with the fees, is at most what was credited, and each
accepted amount is debited or unsettled. -/
def NotOverdrawn (user : Principal) (w : World) : Prop :=
  (w.acceptedFor user).sum + fees user w.factory.records ≤
      Movement.gained u64Max (movements user w.factory.records) ∧
    w.Matched user

/-- The balance covers what is unsettled. -/
def Covers (user : Principal) (w : World) : Prop :=
  w.Matched user ∧ (w.unsettled user).sum ≤ w.factory.balance user

/-- The condition on a step : a fee is kept, and a withdrawal accepted by the ledger, only if
the balance covers it besides what is unsettled, and the reply to an accepted withdrawal
comes back as such. -/
def Careful (P : Platform) (user : Principal) (w : World) : Event → Prop
  | .requestStrategy env config =>
    env.caller = user → KeepsFee P env w.factory config →
      (w.unsettled user).sum + w.factory.deploymentFee ≤ w.factory.balance user
  | .ledgerAnswers t answer =>
    answer.accepted → ∀ amount, t.withdrawal user = some amount →
      (w.unsettled user).sum + amount ≤ w.factory.balance user
  | .transferReturns t _ _ =>
    t.Accepted → t.withdrawal user ≠ none → ∀ answer, t.answer = some answer → answer.result.isOk
  | _ => True

theorem notOverdrawn_iff_covers (hk : Kept w.factory) :
    w.NotOverdrawn user ↔ w.Covers user := by
  have hgained := Movement.replay_add_debits_eq_gained (hk.covered user)
  rw [← hk.balance_eq, debits_movements] at hgained
  rw [NotOverdrawn, Covers, and_comm]
  refine and_congr_right fun hm => ?_
  have hsum := hm.sum_eq
  rw [List.sum_append] at hsum
  omega

/-! ## What a step does to an account -/

/-- What a step does to the balance of `user` and to their accepted, debited and unsettled
withdrawals. -/
inductive Tallies (P : Platform) (user : Principal) (w : World) (e : Event) (w' : World) : Prop
  | keeps (careful : Careful P user w e)
    (balance : w.factory.balance user ≤ w'.factory.balance user)
    (debited : withdrawals user w'.factory.records = withdrawals user w.factory.records)
    (unsettled : (w.unsettled user).Perm (w'.unsettled user))
    (accepted : w'.acceptedFor user = w.acceptedFor user)
  | charges (careful : Careful P user w e ↔
      (w.unsettled user).sum + w.factory.deploymentFee ≤ w.factory.balance user)
    (balance : w'.factory.balance user = w.factory.balance user - w.factory.deploymentFee)
    (covered : w.factory.deploymentFee ≤ w.factory.balance user)
    (debited : withdrawals user w'.factory.records = withdrawals user w.factory.records)
    (unsettled : w'.unsettled user = w.unsettled user)
    (accepted : w'.acceptedFor user = w.acceptedFor user)
  | accepts (amount : ℕ) (careful : Careful P user w e ↔
      (w.unsettled user).sum + amount ≤ w.factory.balance user)
    (factory : w'.factory = w.factory)
    (unsettled : (w'.unsettled user).Perm (amount :: w.unsettled user))
    (accepted : w'.acceptedFor user = amount :: w.acceptedFor user)
  | settles (amount : ℕ) (careful : Careful P user w e)
    (balance : w'.factory.balance user = w.factory.balance user - amount)
    (debited : withdrawals user w'.factory.records =
      withdrawals user w.factory.records ++ [amount])
    (unsettled : (w.unsettled user).Perm (amount :: w'.unsettled user))
    (accepted : w'.acceptedFor user = w.acceptedFor user)
  | drops (amount : ℕ) (careful : Careful P user w e → w.factory.balance user < amount)
    (balance : w'.factory.balance user = w.factory.balance user)
    (debited : withdrawals user w'.factory.records = withdrawals user w.factory.records)
    (unsettled : (w.unsettled user).Perm (amount :: w'.unsettled user))
    (accepted : w'.acceptedFor user = w.acceptedFor user)

/-- A step from a covered account leads to a covered one exactly if it is careful. -/
theorem Tallies.careful_iff (h : Tallies P user w e w') (hc : w.Covers user) :
    Careful P user w e ↔ w'.Covers user := by
  obtain ⟨hm, hle⟩ := hc
  cases h with
  | keeps careful balance debited unsettled accepted =>
    refine iff_of_true careful ⟨?_, ?_⟩
    · rw [Matched, accepted, debited]
      exact hm.trans (unsettled.append_left _)
    · rw [← unsettled.sum_eq]
      exact hle.trans balance
  | charges careful balance covered debited unsettled accepted =>
    have hm' : w'.Matched user := by
      rw [Matched, accepted, debited, unsettled]
      exact hm
    rw [careful, Covers, and_iff_right hm', unsettled, balance]
    omega
  | accepts amount careful factory unsettled accepted =>
    have hm' : w'.Matched user := by
      rw [Matched, accepted, factory]
      exact ((hm.cons amount).trans List.perm_middle.symm).trans (unsettled.symm.append_left _)
    rw [careful, Covers, and_iff_right hm', unsettled.sum_eq, factory, List.sum_cons, Nat.add_comm]
  | settles amount careful balance debited unsettled accepted =>
    refine iff_of_true careful ⟨?_, ?_⟩
    · rw [Matched, accepted, debited, List.append_assoc]
      exact hm.trans (unsettled.append_left _)
    · have hsum := unsettled.sum_eq
      rw [List.sum_cons] at hsum
      omega
  | drops amount careful balance debited unsettled accepted =>
    have hsum := unsettled.sum_eq
    rw [List.sum_cons] at hsum
    refine iff_of_false (fun hcareful => ?_) fun hc' => ?_
    · have hlt := careful hcareful
      omega
    · -- one accepted amount is neither debited nor unsettled any more
      have hm' := hc'.1
      rw [Matched, accepted] at hm'
      have hlen := (hm.symm.trans hm').length_eq
      rw [debited, List.length_append, List.length_append, unsettled.length_eq,
        List.length_cons] at hlen
      omega

/-- Quiet messages and credits are careful. -/
theorem careful_of_quiet_or_credits (he : e.Quiet ∨ e.Credits) : Careful P user w e := by
  cases e <;> first | trivial | exact he.elim False.elim False.elim

theorem withdrawals_of_posts {env : Env} {rs : List TransactionRecord}
    (posts : Posts P env w.factory rs w'.factory)
    (hrs : ∀ r ∈ rs, r.user = user → r.transactionType ≠ .withdrawal) :
    withdrawals user w'.factory.records = withdrawals user w.factory.records := by
  rw [posts.records_eq, withdrawals_append, withdrawals_eq_nil hrs, List.append_nil]

/-- A segment that posts no fee and no withdrawal of `user` does not lower their balance. -/
theorem balance_le_of_posts {env : Env} {rs : List TransactionRecord} (hk : Kept w.factory)
    (posts : Posts P env w.factory rs w'.factory)
    (hrs : ∀ r ∈ rs, r.user = user →
      r.transactionType ≠ .withdrawal ∧ r.transactionType ≠ .deploymentFee) :
    w.factory.balance user ≤ w'.factory.balance user := by
  rw [posts.balance_eq]
  refine le_foldl_apply (hk.balance_eq user ▸ Movement.replay_le_cap) fun m hm => ?_
  obtain ⟨r, hr, hrm⟩ := List.mem_filterMap.1 hm
  obtain ⟨hr, hu⟩ := List.mem_filter.1 hr
  have hty := hrs r hr (of_decide_eq_true hu)
  cases h : r.transactionType <;> simp_all [TransactionRecord.movement]
  all_goals
    subst hrm
    rfl

/-- A step that leaves the transfers alone and posts no fee and no withdrawal of `user`. -/
theorem tallies_keeps {env : Env} {rs : List TransactionRecord} (hk : Kept w.factory)
    (careful : Careful P user w e) (posts : Posts P env w.factory rs w'.factory)
    (hrs : ∀ r ∈ rs, r.user = user →
      r.transactionType ≠ .withdrawal ∧ r.transactionType ≠ .deploymentFee)
    (unsettled : (w.unsettled user).Perm (w'.unsettled user))
    (accepted : w'.acceptedFor user = w.acceptedFor user) : Tallies P user w e w' :=
  .keeps careful (balance_le_of_posts hk posts hrs)
    (withdrawals_of_posts posts fun r hr hu => (hrs r hr hu).1) unsettled accepted

theorem SameTransfers.unsettled_eq (h : SameTransfers w w') (user : Principal) :
    w'.unsettled user = w.unsettled user := by
  rw [unsettled, h.transfers, unsettled]

theorem SameTransfers.acceptedFor_eq (h : SameTransfers w w') (user : Principal) :
    w'.acceptedFor user = w.acceptedFor user := by
  rw [acceptedFor, h.accepted, acceptedFor]

/-- A fee that is kept. -/
theorem tallies_charges {env : Env} {config : Config} (hk : Kept w.factory)
    (keeps : KeepsFee P env w.factory config)
    (posts : Posts P env w.factory [feeOf P env w.factory] w'.factory) (same : SameTransfers w w') :
    Tallies P user w (.requestStrategy env config) w' := by
  by_cases hu : env.caller = user
  · subst hu
    refine .charges ⟨fun h => h rfl keeps, fun h _ _ => h⟩ ?_ keeps.1.covered
      (withdrawals_of_posts posts (by simp [feeOf])) (same.unsettled_eq _) (same.acceptedFor_eq _)
    rw [posts.balance_eq, movements_singleton (m := .debit w.factory.deploymentFee) rfl]
    simp [feeOf, Movement.apply]
  · refine tallies_keeps hk (fun h => absurd h hu) posts ?_ (.of_eq (same.unsettled_eq _).symm)
      (same.acceptedFor_eq _)
    simp [feeOf, hu]

theorem Asks.tallies {env : Env} {config : Config} (hk : Kept w.factory)
    (ha : Asks P w env config w') : Tallies P user w (.requestStrategy env config) w' := by
  cases ha with
  | refused h => exact .keeps (fun _ hk => absurd hk.1 h) le_rfl rfl (.refl _) rfl
  | unserialized g passes e encode posts =>
    exact tallies_charges hk ⟨passes, Or.inl ⟨e, encode⟩⟩ posts (sameTransfers_withFactory _ _)
  | waits w' task r passes cycles posts tasks record feeAmount same =>
    exact tallies_charges hk ⟨passes, Or.inr cycles⟩ posts same
  | failed w' configData passes encode cycles posts tasks same =>
    have hcareful : Careful P user w (.requestStrategy env config) := by
      rintro - ⟨-, ⟨e, he⟩ | hc⟩
      · rw [encode] at he
        cases he
      · omega
    refine .keeps hcareful ?_ (withdrawals_of_posts posts (by simp [feeOf, refundOf]))
      (.of_eq (same.unsettled_eq _).symm) (same.acceptedFor_eq _)
    -- the refund returns what the fee took
    have hcap : w.factory.balance user ≤ u64Max := hk.balance_eq user ▸ Movement.replay_le_cap
    have hcovered := passes.covered
    have hsplit : movements user [feeOf P env w.factory,
        refundOf P env (newRecord env w.factory configData)] =
        if env.caller = user then [.debit w.factory.deploymentFee, .credit w.factory.deploymentFee]
        else [] := by
      by_cases hu : env.caller = user <;>
        simp [movements, feeOf, refundOf, newRecord, hu, TransactionRecord.movement]
    rw [posts.balance_eq, hsplit]
    split_ifs with hu
    · subst hu
      simp only [List.foldl_cons, List.foldl_nil, Movement.apply]
      omega
    · exact le_rfl

/-! ## Transfers in flight -/

/-- A transfer in flight and the others. -/
theorem unsettled_perm (user : Principal) {t : Transfer} (ht : t ∈ w.transfers) :
    (w.unsettled user).Perm
      (t.unsettled user ++ (w.transfers.erase t).flatMap (Transfer.unsettled user)) :=
  (List.perm_cons_erase ht).flatMap_right _

theorem unsettled_of_open {t : Transfer} (h : t.answer = none) : t.unsettled user = [] := by
  simp [Transfer.unsettled, Transfer.Accepted, h]

theorem unsettled_answered {t : Transfer} {answer : LedgerAnswer} {l l' : Ledger} :
    (answered P t answer l l').unsettled user =
      if answer.accepted then (t.withdrawal user).toList else [] :=
  rfl

theorem transferReturns_tallies {t : Transfer} {answer : LedgerAnswer} {time cycles : ℕ}
    (hk : Kept w.factory) (ht : t ∈ w.transfers) (ha : t.answer = some answer)
    (hasked : t.AsAsked) : Tallies P user w (.transferReturns t time cycles)
      (w.transferReturns P t answer.result time cycles) := by
  have hperm := unsettled_perm user ht
  have hnone : t.withdrawal user = none → (w.unsettled user).Perm
      ((w.transfers.erase t).flatMap (Transfer.unsettled user)) := by
    intro h
    simpa [Transfer.unsettled, h] using hperm
  unfold transferReturns
  cases hp : t.purpose with
  | deposit u amount =>
    have hw : t.withdrawal user = none := by rw [Transfer.withdrawal, hp]
    refine tallies_keeps hk (fun _ h => absurd hw h)
      (processDepositAnswer_pays P _ _ u amount answer.result).posts (fun r hr _ => ?_) (hnone hw)
      rfl
    split_ifs at hr <;> simp_all [depositOf]
  | withdrawIcp recipient amount retries =>
    have hw : t.withdrawal user = none := by rw [Transfer.withdrawal, hp]
    dsimp only
    cases Payment.withdrawFundsAnswer paymentConfig.maxWithdrawalRetries retries answer.result with
    | again retries =>
      exact .keeps (fun _ h => absurd hw h) le_rfl rfl (hnone hw) rfl
    | done result => exact .keeps (fun _ h => absurd hw h) le_rfl rfl (hnone hw) rfl
  | withdrawUser u amount =>
    obtain ⟨hto, hamount⟩ := hasked u amount hp
    have hposts := (userWithdrawFundsAnswer_pays P ⟨time, t.caller, cycles⟩ w.factory u amount
      answer.result).posts
    have hw : t.withdrawal user = if u = user then some amount else none := by
      simp [Transfer.withdrawal, hp, hto, hamount, defaultAccount]
    have hacc : t.Accepted = answer.accepted := by rw [Transfer.Accepted, ha, Option.any_some]
    by_cases hu : u = user
    · subst hu
      rw [if_pos rfl] at hw
      by_cases haccepted : answer.accepted
      · have hperm' : (w.unsettled u).Perm
            (amount :: (w.transfers.erase t).flatMap (Transfer.unsettled u)) := by
          simpa [Transfer.unsettled, hacc, haccepted, hw] using hperm
        split_ifs at hposts with hok
        · refine .settles amount (fun _ _ a ha' => ?_) ?_ ?_ hperm' rfl
          · obtain rfl := Option.some.inj (ha.symm.trans ha')
            exact hok.1
          · refine (hposts.balance_eq u).trans ?_
            rw [movements_singleton (m := .debit amount) rfl]
            simp [withdrawalOf, Movement.apply]
          · refine (congrArg (withdrawals u) hposts.records_eq).trans ?_
            rw [withdrawals_append]
            simp [withdrawals, withdrawalOf]
        · refine .drops amount (fun h => ?_) (hposts.balance_eq u) ?_ hperm' rfl
          · have hisOk := h (hacc.trans haccepted) (by simp [hw]) answer ha
            by_contra hle
            exact hok ⟨hisOk, Nat.le_of_not_lt hle⟩
          · refine (congrArg (withdrawals u) hposts.records_eq).trans ?_
            rw [List.append_nil]
      · have hnotOk : ¬answer.result.isOk := fun h => haccepted (answer.accepted_of_isOk h)
        rw [if_neg fun h => hnotOk h.1] at hposts
        have hperm' : (w.unsettled u).Perm
            ((w.transfers.erase t).flatMap (Transfer.unsettled u)) := by
          simpa [Transfer.unsettled, hacc, haccepted] using hperm
        exact tallies_keeps hk (fun h => absurd (hacc.symm.trans h) haccepted) hposts (by simp)
          hperm' rfl
    · rw [if_neg hu] at hw
      refine tallies_keeps hk (fun _ h => absurd hw h) hposts (fun r hr hru => ?_) (hnone hw) rfl
      split_ifs at hr with hok
      · obtain rfl := List.mem_singleton.1 hr
        exact absurd hru hu
      · cases hr

theorem Moves.tallies (hm : Moves P L w e w') (hk : Kept w.factory)
    (hasked : ∀ t ∈ w.transfers, t.AsAsked) : Tallies P user w e w' := by
  cases hm with
  | quiet e w' env he posts same =>
    exact tallies_keeps hk (careful_of_quiet_or_credits (Or.inl he)) posts (by simp)
      (.of_eq (same.unsettled_eq user).symm) (same.acceptedFor_eq user)
  | credits e w' env rs he posts credits same =>
    refine tallies_keeps hk (careful_of_quiet_or_credits (Or.inr he)) posts (fun r hr _ => ?_)
      (.of_eq (same.unsettled_eq user).symm) (same.acceptedFor_eq user)
    rcases credits r hr with h | h <;> simp [h]
  | asks env config w' asks => exact asks.tallies hk
  | issues e purpose caller args issues =>
    refine .keeps ?_ le_rfl rfl (.refl _) rfl
    cases issues <;> trivial
  | transfers sender args l rule => exact .keeps trivial le_rfl rfl (.refl _) rfl
  | refuses t answer mem open_ refused =>
    refine .keeps (fun h => absurd h (by simp [refused])) le_rfl rfl ?_ rfl
    have hperm := unsettled_perm user mem
    rw [unsettled_of_open open_] at hperm
    simpa [unsettled, unsettled_answered, refused] using hperm
  | accepts t answer l mem open_ accepted rule =>
    have hperm := unsettled_perm user mem
    rw [unsettled_of_open open_, List.nil_append] at hperm
    cases hw : t.withdrawal user with
    | none =>
      refine .keeps (fun _ a h => by rw [hw] at h; cases h) le_rfl rfl ?_ ?_
      · simpa [unsettled, unsettled_answered, accepted, hw] using hperm
      · exact List.filterMap_cons_none hw
    | some amount =>
      refine .accepts amount ⟨fun h => h accepted amount hw, fun h _ a ha => ?_⟩ rfl ?_ ?_
      · obtain rfl := Option.some.inj (hw.symm.trans ha)
        exact h
      · simpa [unsettled, unsettled_answered, accepted, hw] using (hperm.cons amount).symm
      · exact List.filterMap_cons_some hw
  | returns t answer time cycles mem ans => exact transferReturns_tallies hk mem ans (hasked t mem)

/-! ## Runs -/

/-- The withdrawals in flight are as their users asked. -/
def Asked (w : World) : Prop :=
  ∀ t ∈ w.transfers, t.AsAsked

theorem Moves.asked (hm : Moves P L w e w') (ha : w.Asked) : w'.Asked := by
  intro x hx
  cases hm.inFlight x hx with
  | waits t mem => exact ha x mem
  | issued purpose caller args issues =>
    rintro u amount hp
    cases issues with
    | deposit => cases hp
    | withdrawIcp => cases hp
    | withdrawUser env amount args receiver amount_eq covered =>
      cases hp
      exact ⟨receiver, amount_eq⟩
  | answered t answer l mem rule => exact ha t mem
  | again t recipient amount retries mem => rintro u amount ⟨⟩

/-- What the account of every user rests on. -/
structure Booked (w : World) : Prop where
  sound : w.Sound
  kept : Kept w.factory
  asked : w.Asked

theorem booked_start (env : Env) (ledger : Ledger) : (start env ledger).Booked :=
  ⟨sound_start env ledger, kept_start env ledger, fun _ h => by cases h⟩

theorem Booked.tallies (h : w.Booked) (hs : step P L w e = some w') : Tallies P user w e w' :=
  (step_moves h.sound hs).1.tallies h.kept h.asked

theorem Booked.step (h : w.Booked) (hs : step P L w e = some w') : w'.Booked := by
  have hd := step_deploys h.sound hs
  obtain ⟨env, rs, hposts⟩ := hd.posts
  exact ⟨hd.sound h.sound, hposts.kept h.kept, (step_moves h.sound hs).1.asked h.asked⟩

/-- An account is not overdrawn in any state of a run exactly if every step of the run is
careful of it. -/
theorem notOverdrawn_iff (P : Platform) (L : LedgerRule) (user : Principal) (env : Env)
    (ledger : Ledger) (es : List Event) :
    Runs.Throughout (step P L) (NotOverdrawn user) (start env ledger) es ↔
      Runs.Along (step P L) (Careful P user) (start env ledger) es := by
  have hcovers : Runs.Throughout (step P L) (NotOverdrawn user) (start env ledger) es ↔
      Runs.Throughout (step P L) (Covers user) (start env ledger) es :=
    (Runs.throughout_of_step (fun _ _ _ => Booked.step) es (booked_start env ledger)).congr
      fun w h => notOverdrawn_iff_covers h.kept
  rw [hcovers]
  refine Runs.throughout_iff_along (I := Booked) ?_ (booked_start env ledger)
    ⟨.refl _, Nat.zero_le _⟩ Runs.along_true
  rintro w e w' hb hc - hstep
  exact ⟨hb.step hstep, ((hb.tallies hstep).careful_iff hc).symm⟩

/-- Two withdrawals of 0.9 ICP from a balance of 1 ICP, which the ledger accepts before the
reply to either has come back. -/
def overlapping : List Event :=
  [.adjustBalance (Sample.message 1 Sample.admin) Sample.user 100000000 "initial balance",
    .withdrawUserIcp (Sample.message 2 Sample.user) 90000000,
    .withdrawUserIcp (Sample.message 3 Sample.user) 90000000,
    .ledgerAnswers (Sample.withdrawal 2 90000000) (Sample.done 1),
    .ledgerAnswers (Sample.withdrawal 3 90000000) (Sample.done 2)]

/-- The ledger pays out 1.8 ICP. -/
theorem not_notOverdrawn_overlapping :
    ¬Runs.Throughout Sample.step (NotOverdrawn Sample.user) Sample.world overlapping := by
  refine Runs.not_throughout (p := fun w => decide (Movement.gained u64Max
    (movements Sample.user w.factory.records) < (w.acceptedFor Sample.user).sum))
    (fun w h hn => ?_) (by decide +kernel)
  have hlt := of_decide_eq_true h
  have hle := hn.1
  omega

end World

end HunterFi
