import HunterFi.Sequences
import HunterFi.System

/-!
# The ledger's replies

An ICRC-1 ledger replies to `icrc1_transfer` with a variant, `Ok` with a block index or `Err`
with a reason. The factory declares a bare number as the type of the reply, so no reply of
the ledger decodes and the caller always gets an error. `followsLedger_iff` : deposits and
withdrawals keep their books by the ledger's reply, unless it is `Ok`. A transfer that went
through is not booked.

`withdraw_funds` tries again after a transient error. `withdrawFundsLoop_eq` : it stops as a
loop of one try less than its limit does, and `usesAttempts_iff` says when that matters.
-/

set_option linter.unusedSectionVars false

namespace HunterFi

/-! ## Candid -/

/-- A candid value of the types that a reply of the ledger is made of. -/
inductive CandidValue
  | nat (n : ℕ)
  | nat64 (n : ℕ)
  | text (s : String)
  | null
  | record (fields : List (String × CandidValue))
  | variant (label : String) (content : CandidValue)

/-- The value as a `u128` : of a candid `nat` the low 128 bits are kept, and nothing else is
decoded. -/
def CandidValue.asU128 : CandidValue → Option ℕ
  | nat n => some (n % 2 ^ 128)
  | _ => none

/-- The reasons for which an ICRC-1 ledger refuses a transfer. -/
inductive TransferError
  | badFee (expectedFee : ℕ)
  | badBurn (minBurnAmount : ℕ)
  | insufficientFunds (balance : ℕ)
  | tooOld
  | createdInFuture (ledgerTime : ℕ)
  | duplicate (duplicateOf : ℕ)
  | temporarilyUnavailable
  | genericError (errorCode : ℕ) (message : String)
  deriving DecidableEq

/-- The error as the ledger encodes it. -/
def TransferError.candid : TransferError → CandidValue
  | badFee n => .variant "BadFee" (.record [("expected_fee", .nat n)])
  | badBurn n => .variant "BadBurn" (.record [("min_burn_amount", .nat n)])
  | insufficientFunds n => .variant "InsufficientFunds" (.record [("balance", .nat n)])
  | tooOld => .variant "TooOld" .null
  | createdInFuture n => .variant "CreatedInFuture" (.record [("ledger_time", .nat64 n)])
  | duplicate n => .variant "Duplicate" (.record [("duplicate_of", .nat n)])
  | temporarilyUnavailable => .variant "TemporarilyUnavailable" .null
  | genericError n m =>
    .variant "GenericError" (.record [("error_code", .nat n), ("message", .text m)])

/-- What the ledger sends back : `variant { Ok : nat; Err : TransferError }`. -/
def transferReply : Except TransferError ℕ → CandidValue
  | .ok block => .variant "Ok" (.nat block)
  | .error e => .variant "Err" e.candid

/-! ## What the caller gets -/

/-- How a call of `icrc1_transfer` ends at the ledger. -/
inductive LedgerOutcome
  | rejected (code : RejectionCode) (message : String)
  | replied (reply : Except TransferError ℕ)
  deriving DecidableEq

/-- What `call` returns for the declared type `(u128,)`. -/
def LedgerOutcome.result : LedgerOutcome → CallResult ℕ
  | rejected code message => .error code message
  | replied reply =>
    match (transferReply reply).asU128 with
    | some n => .ok n
    | none => .error .canisterError "failed to decode canister response"

/-- No reply of the ledger decodes. -/
theorem LedgerOutcome.result_eq_error (o : LedgerOutcome) :
    ∃ code message, o.result = .error code message := by
  cases o with
  | rejected code message => exact ⟨code, message, rfl⟩
  | replied reply => cases reply <;> exact ⟨_, _, rfl⟩

namespace Payment

/-- `process_deposit` as a whole, where nothing comes between its call of the ledger and the answer
at `answered`. -/
def processDepositWhole (P : Platform) (env answered : Env) (f : Factory) (user : Principal)
    (amount : ℕ) (outcome : LedgerOutcome) : Except PaymentError ℕ × Factory :=
  match processDeposit P env user amount with
  | .error e => (.error e, f)
  | .ok _ => processDepositAnswer P answered f user amount outcome.result

/-- `user_withdraw_funds` as a whole. -/
def userWithdrawFundsWhole (P : Platform) (env answered : Env) (f : Factory) (user : Principal)
    (amount : ℕ) (outcome : LedgerOutcome) : Except PaymentError ℕ × Factory :=
  match userWithdrawFunds env f user amount with
  | .error e => (.error e, f)
  | .ok _ => userWithdrawFundsAnswer P answered f user amount outcome.result

/-- The amount is within the limits of a deposit and the caller is not anonymous. -/
structure Depositable (user : Principal) (amount : ℕ) : Prop where
  min_le : paymentConfig.minDepositAmount ≤ amount
  le_max : amount ≤ paymentConfig.maxDepositAmount
  user_ne : user ≠ .anonymous

/-- The amount is within the limits of a withdrawal and the balance, the caller is not anonymous,
and the factory has the cycles for the call. -/
structure Withdrawable (env : Env) (f : Factory) (user : Principal) (amount : ℕ) : Prop where
  one_le : 1 ≤ amount
  le_max : amount ≤ paymentConfig.maxDepositAmount
  user_ne : user ≠ .anonymous
  covered : amount ≤ f.balance user
  cycles : paymentConfig.minCyclesBalance ≤ env.cycles

variable {P : Platform} {env answered : Env} {f : Factory} {user : Principal} {amount : ℕ}

theorem processDeposit_isOk_iff :
    (∃ args, processDeposit P env user amount = .ok args) ↔ Depositable user amount := by
  constructor
  · rintro ⟨args, h⟩
    obtain ⟨h1, h2, h3, -⟩ := processDeposit_eq_ok h
    exact ⟨h1, h2, h3⟩
  · rintro ⟨h1, h2, h3⟩
    rw [processDeposit, (validateAmount_eq_ok (by decide)).2 ⟨h1, h2⟩]
    exact ⟨_, if_neg h3⟩

theorem userWithdrawFunds_isOk_iff :
    (∃ args, userWithdrawFunds env f user amount = .ok args) ↔
      Withdrawable env f user amount := by
  constructor
  · rintro ⟨args, h⟩
    unfold userWithdrawFunds at h
    split_ifs at h with h0 h1 h2 h3 h4
    exact ⟨by omega, by omega, h2, by omega, by omega⟩
  · rintro ⟨h0, h1, h2, h3, h4⟩
    unfold userWithdrawFunds
    rw [if_neg (by omega), if_neg (by omega), if_neg h2, if_neg (by omega), if_neg (by omega)]
    exact ⟨_, rfl⟩

/-- Whatever the ledger does, a deposit ends with an error and books nothing. -/
theorem processDepositWhole_eq (P : Platform) (env answered : Env) (f : Factory)
    (user : Principal) (amount : ℕ) (outcome : LedgerOutcome) :
    ∃ e, processDepositWhole P env answered f user amount outcome = (.error e, f) := by
  unfold processDepositWhole
  obtain ⟨code, message, hr⟩ := outcome.result_eq_error
  cases processDeposit P env user amount with
  | error e => exact ⟨e, rfl⟩
  | ok args => exact ⟨_, by rw [hr]; rfl⟩

/-- So does a withdrawal. -/
theorem userWithdrawFundsWhole_eq (P : Platform) (env answered : Env) (f : Factory)
    (user : Principal) (amount : ℕ) (outcome : LedgerOutcome) :
    ∃ e, userWithdrawFundsWhole P env answered f user amount outcome = (.error e, f) := by
  unfold userWithdrawFundsWhole
  obtain ⟨code, message, hr⟩ := outcome.result_eq_error
  cases userWithdrawFunds env f user amount with
  | error e => exact ⟨e, rfl⟩
  | ok args => exact ⟨_, by rw [hr]; rfl⟩

/-! ## Books and replies -/

/-- The balance of the user is moved, and a transaction of the amount is recorded. -/
structure Booked (moved : ℕ → ℕ → Prop) (user : Principal) (amount : ℕ) (f g : Factory) :
    Prop where
  balance : moved (f.balance user) (g.balance user)
  recorded : ∃ p, g.journal = f.journal ++ [p] ∧ p.record.user = user ∧ p.record.amount = amount

/-- A call that returns `r` books exactly if the ledger replied `Ok`, and otherwise it fails and
the account is as before. -/
structure FollowsLedger (moved : ℕ → ℕ → Prop) (user : Principal) (amount : ℕ) (f : Factory)
    (repliedOk : Prop) (r : Except PaymentError ℕ × Factory) : Prop where
  booked_iff : Booked moved user amount f r.2 ↔ repliedOk
  refused : ¬repliedOk → (∃ e, r.1 = .error e) ∧ r.2.getUserAccount user = f.getUserAccount user

/-- A deposit follows the ledger : it adds the amount exactly if its call is made and answered with
a block index. -/
def DepositFollows (P : Platform) (env answered : Env) (f : Factory) (user : Principal)
    (amount : ℕ) (outcome : LedgerOutcome) : Prop :=
  FollowsLedger (fun before after => after = before + amount) user amount f
    ((∃ args, processDeposit P env user amount = .ok args) ∧
      ∃ block, outcome = .replied (.ok block))
    (processDepositWhole P env answered f user amount outcome)

/-- A withdrawal follows the ledger. -/
def WithdrawalFollows (P : Platform) (env answered : Env) (f : Factory) (user : Principal)
    (amount : ℕ) (outcome : LedgerOutcome) : Prop :=
  FollowsLedger (fun before after => after + amount = before) user amount f
    ((∃ args, userWithdrawFunds env f user amount = .ok args) ∧
      ∃ block, outcome = .replied (.ok block))
    (userWithdrawFundsWhole P env answered f user amount outcome)

/-- A call that fails and leaves the state follows the ledger exactly if there was no `Ok`. -/
theorem followsLedger_of_unchanged {moved : ℕ → ℕ → Prop} {repliedOk : Prop} (e : PaymentError) :
    FollowsLedger moved user amount f repliedOk (.error e, f) ↔ ¬repliedOk := by
  have hbooked : ¬Booked moved user amount f f := by
    rintro ⟨-, p, hp, -⟩
    have := congrArg List.length hp
    simp at this
  constructor
  · exact fun h hr => hbooked (h.booked_iff.2 hr)
  · exact fun hr => ⟨iff_of_false hbooked hr, fun _ => ⟨⟨e, rfl⟩, rfl⟩⟩

/-- Deposits and withdrawals follow the ledger exactly if no call that passes the checks is
answered with a block index. -/
theorem followsLedger_iff (P : Platform) (env answered : Env) (f : Factory) (user : Principal)
    (amount : ℕ) (outcome : LedgerOutcome) :
    (WithdrawalFollows P env answered f user amount outcome ↔
      ¬(Withdrawable env f user amount ∧ ∃ block, outcome = .replied (.ok block))) ∧
    (DepositFollows P env answered f user amount outcome ↔
      ¬(Depositable user amount ∧ ∃ block, outcome = .replied (.ok block))) := by
  constructor
  · obtain ⟨e, he⟩ := userWithdrawFundsWhole_eq P env answered f user amount outcome
    rw [WithdrawalFollows, he, followsLedger_of_unchanged, userWithdrawFunds_isOk_iff]
  · obtain ⟨e, he⟩ := processDepositWhole_eq P env answered f user amount outcome
    rw [DepositFollows, he, followsLedger_of_unchanged, processDeposit_isOk_iff]

/-- A user with 1 ICP withdraws a half, and deposits it. The ledger answers both with a block index,
and neither is booked. -/
theorem not_followsLedger_ok :
    ¬WithdrawalFollows Sample.platform (Sample.message 1 Sample.user)
        (Sample.message 2 Sample.user) (Factory.initial.credit default Sample.user 100000000)
        Sample.user 50000000 (.replied (.ok 1)) ∧
      ¬DepositFollows Sample.platform (Sample.message 1 Sample.user)
        (Sample.message 2 Sample.user) (Factory.initial.credit default Sample.user 100000000)
        Sample.user 50000000 (.replied (.ok 2)) := by
  constructor
  · intro h
    have hbooked := h.booked_iff.2 ⟨⟨_, rfl⟩, 1, rfl⟩
    exact absurd hbooked.balance (by decide +kernel)
  · intro h
    have hbooked := h.booked_iff.2 ⟨⟨_, rfl⟩, 2, rfl⟩
    exact absurd hbooked.balance (by decide +kernel)

/-! ## Retries -/

end Payment

/-- The error by which the loop of `withdraw_funds` tries again. -/
def CallResult.isTransient {α : Type} : CallResult α → Bool
  | error .sysTransient _ => true
  | _ => false

/-- The text that `withdraw_funds` keeps of an error. -/
def CallResult.errorText {α : Type} : CallResult α → String
  | ok _ => "Unknown error"
  | error code message => "code=" ++ code.debug ++ ", message=" ++ message

namespace Payment

/-- The loop of `withdraw_funds` after `retries` failed calls, where `outcomes i` is what the `i`-th
call returns : the number of calls and the result. `fuel` bounds the passes. -/
def withdrawFundsLoop (maxRetries : ℕ) (outcomes : ℕ → CallResult ℕ) :
    ℕ → ℕ → String → Option (ℕ × Except String Unit)
  | 0, _, _ => none
  | fuel + 1, retries, lastError =>
    if retries < maxRetries then
      match withdrawFundsAnswer maxRetries retries (outcomes retries) with
      | .done result => some (retries + 1, result)
      | .again retries' =>
        withdrawFundsLoop maxRetries outcomes fuel retries' (outcomes retries).errorText
    else
      some (retries, .error ("Withdrawal failed after " ++ toString retries ++ " attempts: " ++
        lastError))

/-- `withdraw_funds` past its checks ends with `result` after `calls` calls of the ledger. -/
def Ends (maxRetries : ℕ) (outcomes : ℕ → CallResult ℕ) (calls : ℕ)
    (result : Except String Unit) : Prop :=
  ∃ enough, ∀ fuel, enough ≤ fuel →
    withdrawFundsLoop maxRetries outcomes fuel 0 "Unknown error" = some (calls, result)

/-- The loop ends, calls the ledger at most `maxRetries` times and only again after a transient
error, and returns `Ok` exactly if one of the first `maxRetries` outcomes is a success that comes
after transient errors alone. -/
def UsesAttempts (maxRetries : ℕ) (outcomes : ℕ → CallResult ℕ) : Prop :=
  ∃ calls result, Ends maxRetries outcomes calls result ∧ calls ≤ maxRetries ∧
    (∀ i, i + 1 < calls → (outcomes i).isTransient = true) ∧
    (result = .ok () ↔ ∃ k < maxRetries, (outcomes k).isOk = true ∧
      ∀ j < k, (outcomes j).isTransient = true)

/-- The result of a last call, after `retries` failed ones. -/
def lastResult (retries : ℕ) : CallResult ℕ → Except String Unit
  | .ok _ => .ok ()
  | .error code message => .error ("Withdrawal failed after " ++ toString (retries + 1) ++
      " attempts: " ++ (CallResult.error (α := ℕ) code message).errorText)

variable {maxRetries : ℕ} {outcomes : ℕ → CallResult ℕ}

/-- An answer after which the ledger is called no more. -/
theorem withdrawFundsAnswer_done {retries : ℕ} {o : CallResult ℕ}
    (h : o.isTransient = false ∨ maxRetries ≤ retries + 2) :
    withdrawFundsAnswer maxRetries retries o = .done (lastResult retries o) := by
  cases o with
  | ok n => rfl
  | error code message =>
    simp only [withdrawFundsAnswer, lastResult, CallResult.errorText]
    split_ifs with hagain hlast
    · rfl
    · obtain ⟨hcode, hlt⟩ : code = .sysTransient ∧ retries + 1 < maxRetries := by
        simpa using hagain
      subst hcode
      rcases h with hno | hle
      · cases hno
      · omega
    · rfl

/-- An answer after which it is called again. -/
theorem withdrawFundsAnswer_again {retries : ℕ} {o : CallResult ℕ} (h : o.isTransient = true)
    (hlt : retries + 2 < maxRetries) :
    withdrawFundsAnswer maxRetries retries o = .again (retries + 1) := by
  cases o with
  | ok n => cases h
  | error code message =>
    have hcode : code = .sysTransient := by
      cases code <;> first | rfl | cases h
    subst hcode
    have hmore : retries + 1 < maxRetries := by omega
    simp only [withdrawFundsAnswer, decide_true, hmore, Bool.and_self, if_true]
    rw [if_neg (by omega)]

/-- The loop stops as one that makes at most `maxRetries - 1` tries, but at least one. -/
theorem withdrawFundsLoop_eq (spare : ℕ) : ∀ {i fuel : ℕ} (lastError : String),
    i + spare + 1 = max 1 (maxRetries - 1) → 1 ≤ maxRetries → spare < fuel →
      withdrawFundsLoop maxRetries outcomes fuel i lastError =
        some (Sequences.stop CallResult.isTransient outcomes spare i + 1,
          lastResult (Sequences.stop CallResult.isTransient outcomes spare i)
            (outcomes (Sequences.stop CallResult.isTransient outcomes spare i))) := by
  induction spare with
  | zero =>
    intro i fuel lastError hi hpos hfuel
    obtain ⟨fuel, rfl⟩ := Nat.exists_eq_add_one_of_ne_zero hfuel.ne'
    rw [withdrawFundsLoop, if_pos (by omega), withdrawFundsAnswer_done (Or.inr (by omega))]
    rfl
  | succ spare ih =>
    intro i fuel lastError hi hpos hfuel
    obtain ⟨fuel, rfl⟩ := Nat.exists_eq_add_one_of_ne_zero (Nat.ne_zero_of_lt hfuel)
    rw [withdrawFundsLoop, if_pos (by omega)]
    unfold Sequences.stop
    cases hagain : (outcomes i).isTransient with
    | false =>
      rw [withdrawFundsAnswer_done (Or.inl hagain)]
      rfl
    | true =>
      rw [withdrawFundsAnswer_again hagain (by omega)]
      exact ih _ (by omega) hpos (by omega)

theorem lastResult_eq_ok {retries : ℕ} {o : CallResult ℕ} :
    lastResult retries o = .ok () ↔ o.isOk = true := by
  cases o <;> simp [lastResult, CallResult.isOk]

theorem isTransient_of_isOk {o : CallResult ℕ} (h : o.isOk = true) : o.isTransient = false := by
  cases o with
  | ok n => rfl
  | error code message => cases h

/-- How the loop ends. -/
theorem ends_iff (hpos : 1 ≤ maxRetries) {calls : ℕ} {result : Except String Unit} :
    Ends maxRetries outcomes calls result ↔
      (calls, result) = (Sequences.stop CallResult.isTransient outcomes (maxRetries - 2) 0 + 1,
        lastResult (Sequences.stop CallResult.isTransient outcomes (maxRetries - 2) 0)
          (outcomes (Sequences.stop CallResult.isTransient outcomes (maxRetries - 2) 0))) := by
  have hloop : ∀ fuel, maxRetries ≤ fuel → withdrawFundsLoop maxRetries outcomes fuel 0
      "Unknown error" = some _ := fun fuel hfuel =>
    withdrawFundsLoop_eq (maxRetries - 2) (i := 0) "Unknown error" (by omega) hpos (by omega)
  constructor
  · rintro ⟨enough, h⟩
    have hlarge := h (max enough maxRetries) (Nat.le_max_left _ _)
    rw [hloop _ (Nat.le_max_right _ _)] at hlarge
    exact (Option.some.inj hlarge).symm
  · intro h
    exact ⟨maxRetries, fun fuel hfuel => (hloop fuel hfuel).trans (congrArg some h.symm)⟩

/-- The loop uses all its attempts exactly if there is only one, or it does not take the last one to
succeed after transient errors. -/
theorem usesAttempts_iff {maxRetries : ℕ} (hpos : 1 ≤ maxRetries) (outcomes : ℕ → CallResult ℕ) :
    UsesAttempts maxRetries outcomes ↔
      maxRetries = 1 ∨ ¬((outcomes (maxRetries - 1)).isOk = true ∧
        ∀ j < maxRetries - 1, (outcomes j).isTransient = true) := by
  have hstop := Sequences.outcome_stop_iff outcomes (Q := fun o => o.isOk = true)
    (fun _ => isTransient_of_isOk) (maxRetries - 2)
  have hle := Sequences.stop_le CallResult.isTransient outcomes (maxRetries - 2) 0
  constructor
  · rintro ⟨calls, result, hends, -, -, hok⟩
    obtain ⟨rfl, rfl⟩ := Prod.mk.inj ((ends_iff hpos).1 hends)
    rw [lastResult_eq_ok, hstop] at hok
    refine or_iff_not_imp_left.2 fun hone hlast => ?_
    obtain ⟨k, hk, hkok, -⟩ := hok.2 ⟨maxRetries - 1, by omega, hlast⟩
    -- the success is at the last try, which the loop does not make
    have htransient := hlast.2 k (by omega)
    rw [isTransient_of_isOk hkok] at htransient
    cases htransient
  · intro h
    refine ⟨_, _, (ends_iff hpos).2 rfl, by omega, fun i hi => ?_, ?_⟩
    · exact Sequences.again_of_lt_stop _ (Nat.zero_le i) (Nat.lt_of_succ_lt_succ hi)
    · rw [lastResult_eq_ok, hstop]
      constructor
      · rintro ⟨k, hk, hkok, hbefore⟩
        exact ⟨k, by omega, hkok, hbefore⟩
      · rintro ⟨k, hk, hkok, hbefore⟩
        refine ⟨k, ?_, hkok, hbefore⟩
        rcases h with hone | hlast
        · omega
        · by_contra hgt
          obtain rfl : k = maxRetries - 1 := by omega
          exact hlast ⟨hkok, hbefore⟩

/-- The outcomes of a ledger that is busy twice and then takes the transfer. -/
def busyTwice (i : ℕ) : CallResult ℕ :=
  if i < 2 then .error .sysTransient "busy" else .ok 1

/-- With five attempts the third one is made. -/
theorem usesAttempts_iff_five : UsesAttempts 5 busyTwice :=
  (usesAttempts_iff (by decide) busyTwice).2
    (Or.inr fun h => absurd (h.2 2 (by decide)) (by decide))

/-- With the three attempts of the configuration it is not. -/
theorem not_usesAttempts_three : ¬UsesAttempts paymentConfig.maxWithdrawalRetries busyTwice := by
  rintro ⟨calls, result, ⟨enough, hends⟩, -, -, hok⟩
  have hend := hends (max enough 3) (Nat.le_max_left _ _)
  rw [withdrawFundsLoop_eq 1 _ (by decide) (by decide) (by omega)] at hend
  obtain ⟨-, rfl⟩ := Prod.mk.inj (Option.some.inj hend)
  exact absurd (hok.2 ⟨2, by decide, rfl, by decide⟩) (by decide)

end Payment

end HunterFi
