import HunterFi.State

/-!
# Payments

`payment.rs` : deposits, fee payments, refunds and withdrawals. An async function is cut at
its awaits. The first segment runs up to the `icrc1_transfer` call and returns its arguments,
the second one runs from the answer, a `CallResult`, on whatever state it finds then.
`record_transaction` awaits nothing, so a payment and a refund are one segment.

Amounts in messages are printed in ICP. The code divides an `f64` by `1e8` ; the text here
is the exact decimal, which is the same for every amount below `2 ^ 52` e8s.
-/

set_option linter.unusedSectionVars false

namespace HunterFi

/-! ## Errors -/

/-- The variants of `PaymentError`. -/
inductive PaymentError
  | invalidAmount (message : String)
  | insufficientBalance (message : String)
  | transferFailed (message : String)
  | userNotFound (message : String)
  | systemError (message : String)
  | invalidPrincipal (message : String)
  | operationFailed (message : String)
  | transactionError (message : String)
  deriving DecidableEq, Inhabited

namespace PaymentError

/-- `to_string`. -/
def text : PaymentError → String
  | invalidAmount m => "Invalid amount: " ++ m
  | insufficientBalance m => "Insufficient balance: " ++ m
  | transferFailed m => "Transfer failed: " ++ m
  | userNotFound m => "User not found: " ++ m
  | systemError m => "System error: " ++ m
  | invalidPrincipal m => "Invalid principal: " ++ m
  | operationFailed m => "Operation failed: " ++ m
  | transactionError m => "Transaction error: " ++ m

/-- `{:?}`. -/
def debug : PaymentError → String
  | invalidAmount m => "InvalidAmount(" ++ debugString m ++ ")"
  | insufficientBalance m => "InsufficientBalance(" ++ debugString m ++ ")"
  | transferFailed m => "TransferFailed(" ++ debugString m ++ ")"
  | userNotFound m => "UserNotFound(" ++ debugString m ++ ")"
  | systemError m => "SystemError(" ++ debugString m ++ ")"
  | invalidPrincipal m => "InvalidPrincipal(" ++ debugString m ++ ")"
  | operationFailed m => "OperationFailed(" ++ debugString m ++ ")"
  | transactionError m => "TransactionError(" ++ debugString m ++ ")"

end PaymentError

/-- Why a call failed. -/
inductive RejectionCode
  | noError
  | sysFatal
  | sysTransient
  | destinationInvalid
  | canisterReject
  | canisterError
  | unknown
  deriving DecidableEq, Inhabited

/-- The `{:?}` text of a rejection code. -/
def RejectionCode.debug : RejectionCode → String
  | noError => "NoError"
  | sysFatal => "SysFatal"
  | sysTransient => "SysTransient"
  | destinationInvalid => "DestinationInvalid"
  | canisterReject => "CanisterReject"
  | canisterError => "CanisterError"
  | unknown => "Unknown"

/-- What `call` returns : the decoded reply, or a code and a message. -/
inductive CallResult (α : Type)
  | ok (reply : α)
  | error (code : RejectionCode) (message : String)
  deriving DecidableEq

/-- The call came back with a decoded reply. -/
def CallResult.isOk {α : Type} : CallResult α → Bool
  | ok _ => true
  | error _ _ => false

/-! ## Amounts and transfers -/

/-- Two digits less than eight are filled up with zeros. -/
def eightDigits (n : ℕ) : String :=
  let digits := toString n
  String.ofList (List.replicate (8 - digits.length) '0') ++ digits

/-- `{:.8}` of an amount of e8s in ICP. -/
def icpText (e8s : ℕ) : String :=
  toString (e8s / 100000000) ++ "." ++ eightDigits (e8s % 100000000)

/-- `{}` of an amount of e8s in ICP : no trailing zeros. -/
def icpShort (e8s : ℕ) : String :=
  if e8s % 100000000 = 0 then toString (e8s / 100000000)
  else String.ofList ((icpText e8s).toList.reverse.dropWhile (· = '0')).reverse

/-- The bounds of payments. -/
structure PaymentConfig where
  maxDepositAmount : ℕ
  minDepositAmount : ℕ
  icpTransferFee : ℕ
  maxWithdrawalRetries : ℕ
  minCyclesBalance : ℕ

/-- `PAYMENT_CONFIG`. -/
def paymentConfig : PaymentConfig where
  maxDepositAmount := 10000000000
  minDepositAmount := 1000000
  icpTransferFee := 10000
  maxWithdrawalRetries := 3
  minCyclesBalance := 1000000000

/-- An ICRC-1 account. -/
structure Account where
  owner : Principal
  subaccount : Option (List UInt8)
  deriving DecidableEq

/-- `toAccount` is the field `to`. -/
structure TransferArgs where
  toAccount : Account
  amount : ℕ
  fee : Option ℕ
  memo : Option (List UInt8)
  createdAtTime : Option ℕ
  deriving DecidableEq

namespace Payment

/-- `validate_amount`. -/
def validateAmount (amount min max : ℕ) (operation : String) : Except PaymentError Unit :=
  if amount = 0 then
    .error (.invalidAmount (operation ++ " amount must be greater than 0"))
  else if amount < min then
    .error (.invalidAmount (operation ++ " amount cannot be less than " ++ icpShort min ++ " ICP"))
  else if max < amount then
    .error (.invalidAmount (operation ++ " amount cannot exceed " ++ icpShort max ++ " ICP"))
  else .ok ()

/-! ## Deposits -/

/-- `process_deposit` up to its `icrc1_transfer` call. -/
def processDeposit (P : Platform) (env : Env) (user : Principal) (amount : ℕ) :
    Except PaymentError TransferArgs :=
  match validateAmount amount paymentConfig.minDepositAmount paymentConfig.maxDepositAmount
      "Deposit" with
  | .error e => .error e
  | .ok () =>
    if user = .anonymous then
      .error (.invalidPrincipal "Anonymous identity cannot make deposits")
    else
      .ok {
        toAccount := ⟨P.id, none⟩
        amount := amount
        fee := some paymentConfig.icpTransferFee
        memo := some (asBytes ("HunterFi deposit from " ++ user.toText))
        createdAtTime := some env.time }

/-- `process_deposit` from the answer of the ledger. -/
def processDepositAnswer (P : Platform) (env : Env) (f : Factory) (user : Principal) (amount : ℕ)
    (result : CallResult ℕ) : Except PaymentError ℕ × Factory :=
  match result with
  | .ok _ =>
    match f.updateUserBalance env user amount true with
    | .error e => (.error (.systemError e), f)
    | .ok (newBalance, f) =>
      (.ok newBalance, (f.recordTransaction P env user amount .deposit
        ("Deposit of " ++ icpText amount ++ " ICP")).2)
  | .error _ message => (.error (.transferFailed ("Deposit failed: " ++ message)), f)

/-! ## Fees and refunds -/

/-- `process_balance_payment`. -/
def processBalancePayment (P : Platform) (env : Env) (f : Factory) (user : Principal) (amount : ℕ)
    (purpose : String) : Except PaymentError Unit × Factory :=
  match validateAmount amount 1 u64Max "Payment" with
  | .error e => (.error e, f)
  | .ok () =>
    if !f.checkUserBalance user amount then
      (.error (.insufficientBalance
        (icpText amount ++ " ICP required, but your balance is too low")), f)
    else
      match f.updateUserBalance env user amount false with
      | .error e => (.error (.systemError e), f)
      | .ok (_, f) => (.ok (), (f.recordTransaction P env user amount .deploymentFee purpose).2)

/-- `process_balance_refund`. The failure of the status update at its end is dropped. -/
def processBalanceRefund (P : Platform) (env : Env) (f : Factory) (user : Principal) (amount : ℕ)
    (deploymentId : String) : Except PaymentError Unit × Factory :=
  match validateAmount amount 1 u64Max "Refund" with
  | .error e => (.error e, f)
  | .ok () =>
    match f.updateUserBalance env user amount true with
    | .error e => (.error (.systemError e), f)
    | .ok (_, f) =>
      let f := (f.recordTransaction P env user amount .refund
        ("Refund for deployment: " ++ deploymentId)).2
      match f.updateDeploymentStatus env deploymentId .refunded none
          (some "Deployment fee refunded") with
      | .error _ => (.ok (), f)
      | .ok f => (.ok (), f)

/-! ## Withdrawals -/

/-- `user_withdraw_funds` up to its `icrc1_transfer` call : the balance is checked and not
yet debited. -/
def userWithdrawFunds (env : Env) (f : Factory) (user : Principal) (amount : ℕ) :
    Except PaymentError TransferArgs :=
  if amount = 0 then .error (.invalidAmount "Withdrawal amount must be greater than 0")
  else if paymentConfig.maxDepositAmount < amount then
    .error (.invalidAmount ("Withdrawal amount cannot exceed " ++
      icpShort paymentConfig.maxDepositAmount ++ " ICP"))
  else if user = .anonymous then
    .error (.invalidPrincipal "Anonymous identity cannot withdraw funds")
  else if f.balance user < amount then
    .error (.insufficientBalance ("You have " ++ icpText (f.balance user) ++
      " ICP but requested " ++ icpText amount ++ " ICP"))
  else if env.cycles < paymentConfig.minCyclesBalance then
    .error (.systemError ("System cycles balance too low for safe operation. " ++
      "Please try again later or contact support."))
  else
    .ok {
      toAccount := ⟨user, none⟩
      amount := amount
      fee := some paymentConfig.icpTransferFee
      memo := some (asBytes ("HunterFi withdrawal to " ++ user.toText))
      createdAtTime := some env.time }

/-- `user_withdraw_funds` from the answer of the ledger. -/
def userWithdrawFundsAnswer (P : Platform) (env : Env) (f : Factory) (user : Principal)
    (amount : ℕ) (result : CallResult ℕ) : Except PaymentError ℕ × Factory :=
  match result with
  | .ok _ =>
    match f.updateUserBalance env user amount false with
    | .error e => (.error (.systemError e), f)
    | .ok (newBalance, f) =>
      (.ok newBalance, (f.recordTransaction P env user amount .withdrawal
        ("Withdrawal of " ++ icpText amount ++ " ICP")).2)
  | .error _ message => (.error (.transferFailed ("Withdrawal failed: " ++ message)), f)

/-- `withdraw_funds` up to its loop. -/
def withdrawFunds (env : Env) (recipient : Principal) (amount : ℕ) : Except String TransferArgs :=
  if amount = 0 then .error "Withdrawal amount must be greater than 0"
  else if paymentConfig.maxDepositAmount < amount then
    .error ("Withdrawal amount cannot exceed " ++ icpShort paymentConfig.maxDepositAmount ++
      " ICP")
  else if recipient = .anonymous then .error "Cannot withdraw to anonymous identity"
  else if env.cycles < paymentConfig.minCyclesBalance then
    .error ("Canister cycles balance too low for safe operation. Current balance: " ++
      toString env.cycles ++ " cycles")
  else
    .ok {
      toAccount := ⟨recipient, none⟩
      amount := amount
      fee := some paymentConfig.icpTransferFee
      memo := some (asBytes "Withdrawal from HunterFi Factory")
      createdAtTime := some env.time }

/-- What the loop of `withdraw_funds` does with an answer. -/
inductive Retry
  | again (retries : ℕ)
  | done (result : Except String Unit)

/-- One pass of the loop of `withdraw_funds`, from the answer of the ledger, with `retries`
attempts behind it. -/
def withdrawFundsAnswer (maxRetries retries : ℕ) (result : CallResult ℕ) : Retry :=
  match result with
  | .ok _ => .done (.ok ())
  | .error code message =>
    let retries := retries + 1
    let lastError := "code=" ++ code.debug ++ ", message=" ++ message
    let failed := Retry.done (.error ("Withdrawal failed after " ++ toString retries ++
      " attempts: " ++ lastError))
    if code = .sysTransient && retries < maxRetries then
      -- the attempt before the last is not followed by another
      if retries = maxRetries - 1 then failed else .again retries
    else failed

/-! ## Failed deployments -/

/-- One record of the loop of `process_failed_deployments`. -/
def processFailedDeployment (P : Platform) (env : Env) :
    ℕ × List String × Factory → DeploymentRecord → ℕ × List String × Factory
  | (count, errors, f), record =>
    if record.status = .refunded then (count, errors, f)
    else
      match processBalanceRefund P env f record.owner record.feeAmount record.deploymentId with
      | (.error e, f) =>
        (count, errors ++ ["Refund error (ID: " ++ record.deploymentId ++ "): " ++ e.debug], f)
      | (.ok (), f) =>
        match f.updateDeploymentStatus env record.deploymentId .refunded none none with
        | .ok f => (count + 1, errors, f)
        | .error e =>
          (count, errors ++ ["Status update error (ID: " ++ record.deploymentId ++ "): " ++ e], f)

/-- `process_failed_deployments`, which nothing calls. -/
def processFailedDeployments (P : Platform) (env : Env) (f : Factory) :
    Except String ℕ × Factory :=
  let (count, errors, f) :=
    (f.getDeploymentRecordsByStatus .deploymentFailed).foldl (processFailedDeployment P env)
      (0, [], f)
  if errors ≠ [] ∧ count = 0 then
    (.error ("Could not process any refunds. Errors: " ++ ", ".intercalate errors), f)
  else (.ok count, f)

/-! ## What the segments do -/

theorem validateAmount_eq_ok {amount min max : ℕ} {operation : String} (hmin : 1 ≤ min) :
    validateAmount amount min max operation = .ok () ↔ min ≤ amount ∧ amount ≤ max := by
  unfold validateAmount
  split_ifs with h0 h1 h2
  · simp; omega
  · simp; omega
  · simp; omega
  · simp; omega

/-- A deposit calls the ledger exactly for an amount within the limits and a caller that is
not anonymous, and asks it to credit the factory. -/
theorem processDeposit_eq_ok {P : Platform} {env : Env} {user : Principal} {amount : ℕ}
    {args : TransferArgs} (h : processDeposit P env user amount = .ok args) :
    paymentConfig.minDepositAmount ≤ amount ∧ amount ≤ paymentConfig.maxDepositAmount ∧
      user ≠ .anonymous ∧ args.toAccount = ⟨P.id, none⟩ ∧ args.amount = amount := by
  unfold processDeposit at h
  split at h
  · cases h
  · rename_i hv
    split_ifs at h with hu
    cases h
    obtain ⟨h1, h2⟩ := (validateAmount_eq_ok (by decide)).1 hv
    exact ⟨h1, h2, hu, rfl, rfl⟩

/-- A fee payment takes a fee of at least one that the balance covers, and otherwise changes
nothing. -/
theorem processBalancePayment_cases (P : Platform) (env : Env) (f : Factory) (user : Principal)
    (amount : ℕ) (purpose : String) :
    (1 ≤ amount ∧ amount ≤ u64Max ∧ amount ≤ f.balance user ∧
      processBalancePayment P env f user amount purpose = (.ok (),
        (f.debit user amount).post P env user amount .deploymentFee purpose)) ∨
    (¬(1 ≤ amount ∧ amount ≤ u64Max ∧ amount ≤ f.balance user) ∧
      ∃ e, processBalancePayment P env f user amount purpose = (.error e, f)) := by
  unfold processBalancePayment
  cases hv : validateAmount amount 1 u64Max "Payment" with
  | error e =>
    refine Or.inr ⟨fun h => ?_, e, rfl⟩
    rw [(validateAmount_eq_ok le_rfl).2 ⟨h.1, h.2.1⟩] at hv
    cases hv
  | ok _ =>
    obtain ⟨h1, h2⟩ := (validateAmount_eq_ok le_rfl).1 hv
    by_cases hb : amount ≤ f.balance user
    · have hc : f.checkUserBalance user amount = true := decide_eq_true hb
      refine Or.inl ⟨h1, h2, hb, ?_⟩
      simp only [hc, Bool.not_true, Bool.false_eq_true, if_false,
        f.updateUserBalance_false env user amount hb]
      rfl
    · have hc : f.checkUserBalance user amount = false := decide_eq_false hb
      refine Or.inr ⟨fun h => hb h.2.2, .insufficientBalance
        (icpText amount ++ " ICP required, but your balance is too low"), ?_⟩
      simp only [hc, Bool.not_false, if_true]

/-- The state after `process_balance_refund` returns the fee of a stored record. -/
theorem processBalanceRefund_eq {P : Platform} {env : Env} {f : Factory} {user : Principal}
    {amount : ℕ} {id : String} {record : DeploymentRecord} (h1 : 1 ≤ amount)
    (h2 : amount ≤ u64Max) (hr : f.getDeploymentRecord id = some record) :
    processBalanceRefund P env f user amount id = (.ok (),
      ((f.credit env user amount).post P env user amount .refund
        ("Refund for deployment: " ++ id)).storeDeploymentRecord
          (record.withStatus env.time .refunded none (some "Deployment fee refunded"))) := by
  unfold processBalanceRefund
  rw [(validateAmount_eq_ok le_rfl).2 ⟨h1, h2⟩]
  have hu : ((f.credit env user amount).post P env user amount .refund
      ("Refund for deployment: " ++ id)).updateDeploymentStatus env id .refunded none
        (some "Deployment fee refunded") = .ok _ :=
    Factory.updateDeploymentStatus_eq_ok.2 ⟨record, hr, rfl⟩
  simp only [f.updateUserBalance_true env user amount]
  change (match ((f.credit env user amount).post P env user amount .refund
      ("Refund for deployment: " ++ id)).updateDeploymentStatus env id .refunded none
        (some "Deployment fee refunded") with
    | .error _ => _
    | .ok f => _) = _
  rw [hu]

/-- A withdrawal calls the ledger only if the balance covers it at that moment. -/
theorem userWithdrawFunds_eq_ok {env : Env} {f : Factory} {user : Principal} {amount : ℕ}
    {args : TransferArgs} (h : userWithdrawFunds env f user amount = .ok args) :
    1 ≤ amount ∧ amount ≤ paymentConfig.maxDepositAmount ∧ user ≠ .anonymous ∧
      amount ≤ f.balance user ∧ args.toAccount = ⟨user, none⟩ ∧ args.amount = amount := by
  unfold userWithdrawFunds at h
  split_ifs at h with h0 h1 h2 h3 h4
  cases h
  exact ⟨by omega, by omega, h2, by omega, rfl, rfl⟩

/-- The answer to a withdrawal debits the balance it finds, or fails and changes nothing. -/
theorem userWithdrawFundsAnswer_cases (P : Platform) (env : Env) (f : Factory) (user : Principal)
    (amount : ℕ) (result : CallResult ℕ) :
    (result.isOk ∧ amount ≤ f.balance user ∧
      userWithdrawFundsAnswer P env f user amount result = (.ok (f.balance user - amount),
        (f.debit user amount).post P env user amount .withdrawal
          ("Withdrawal of " ++ icpText amount ++ " ICP"))) ∨
    (¬(result.isOk ∧ amount ≤ f.balance user) ∧
      ∃ e, userWithdrawFundsAnswer P env f user amount result = (.error e, f)) := by
  unfold userWithdrawFundsAnswer
  cases result with
  | error code message => exact Or.inr ⟨by simp [CallResult.isOk], _, rfl⟩
  | ok block =>
    by_cases hb : amount ≤ f.balance user
    · refine Or.inl ⟨rfl, hb, ?_⟩
      simp only [f.updateUserBalance_false env user amount hb]
      rfl
    · obtain ⟨e, he⟩ := f.updateUserBalance_false_error env user amount (Nat.lt_of_not_le hb)
      refine Or.inr ⟨fun h => hb h.2, .systemError e, ?_⟩
      simp only [he]

end Payment

end HunterFi
