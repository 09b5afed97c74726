import HunterFi.Requests

/-!
# Money along a run

What a step of the whole does to accounts, transfers and the ledger (`Moves`) : it posts
nothing, posts credits, is a strategy request (`Asks`), issues a transfer, has one taken up
by the ledger, runs from its answer, or is a transfer of a user's own.

`Moves.inFlight` : where the calls come from that are in flight after a step (`InFlight`). An
invariant of the calls in flight is shown by its four cases.
-/

set_option linter.unusedSectionVars false

namespace HunterFi

/-! ## Events -/

/-- The messages that can credit an account : an adjustment, and a segment of an execution,
which may refund. -/
def Event.Credits : Event → Prop
  | .adjustBalance _ _ _ _ => True
  | .forceExecuteDeployment _ _ => True
  | .canisterCreated _ _ _ _ => True
  | .codeInstalled _ _ _ _ => True
  | .strategyInitialized _ _ _ _ => True
  | _ => False

/-- The messages that move nothing by themselves. -/
def Event.Quiet : Event → Prop
  | .depositIcp _ _ => True
  | .withdrawUserIcp _ _ => True
  | .withdrawIcp _ _ _ => True
  | .setDeploymentFee _ _ => True
  | .addAdmin _ _ => True
  | .removeAdmin _ _ => True
  | .cleanup _ _ => True
  | .upgrade => True
  | _ => False

/-! ## What a step does -/

namespace World

open Deployment

variable {P : Platform} {L : LedgerRule} {w w' : World} {env : Env} {spawned : Bool} {id : String}
  {p : Progress × Factory} {e : Event}

/-- The transfers, the ledger and what is remembered of them are the same. -/
structure SameTransfers (w w' : World) : Prop where
  ledger : w'.ledger = w.ledger
  transfers : w'.transfers = w.transfers
  accepted : w'.accepted = w.accepted
  deposits : w'.deposits = w.deposits
  received : w'.received = w.received

theorem sameTransfers_withFactory (w : World) (f : Factory) : SameTransfers w (w.withFactory f) :=
  ⟨rfl, rfl, rfl, rfl, rfl⟩

theorem sameTransfers_resume (w : World) : SameTransfers w (w.resume P env spawned id p) :=
  ⟨ledger_resume, transfers_resume, accepted_resume, deposits_resume, received_resume⟩

/-- A request passes the checks and its fee is not refunded in the same message : the
configuration cannot be encoded, or there are cycles for a new canister. -/
def KeepsFee (P : Platform) (env : Env) (f : Factory) (config : Config) : Prop :=
  Passes env f config ∧ ((∃ e, P.encodeOne config = .error e) ∨ creationCycles ≤ env.cycles)

/-- What a strategy request leads to, with the first segment of its deployment. -/
inductive Asks (P : Platform) (w : World) (env : Env) (config : Config) : World → Prop
  | refused (h : ¬Passes env w.factory config) : Asks P w env config (w.withFactory w.factory)
  | unserialized (g : Factory) (passes : Passes env w.factory config) (e : String)
    (encode : P.encodeOne config = .error e)
    (posts : Posts P env w.factory [feeOf P env w.factory] g) :
    Asks P w env config (w.withFactory g)
  | waits (w' : World) (task : Task) (r : DeploymentRecord)
    (passes : Passes env w.factory config) (cycles : creationCycles ≤ env.cycles)
    (posts : Posts P env w.factory [feeOf P env w.factory] w'.factory)
    (tasks : w'.tasks = task :: w.tasks)
    (record : w'.factory.getDeploymentRecord task.deploymentId = some r)
    (feeAmount : r.feeAmount = w.factory.deploymentFee) (same : SameTransfers w w') :
    Asks P w env config w'
  | failed (w' : World) (configData : List UInt8) (passes : Passes env w.factory config)
    (encode : P.encodeOne config = .ok configData) (cycles : env.cycles < creationCycles)
    (posts : Posts P env w.factory
      [feeOf P env w.factory, refundOf P env (newRecord env w.factory configData)] w'.factory)
    (tasks : w'.tasks = w.tasks) (same : SameTransfers w w') : Asks P w env config w'

/-- The calls that an event issues. -/
inductive Issues (P : Platform) (w : World) : Event → Purpose → Principal → TransferArgs → Prop
  | deposit (env : Env) (amount : ℕ) (args : TransferArgs)
    (receiver : args.toAccount = defaultAccount P.id) (amount_eq : args.amount = amount)
    (min : paymentConfig.minDepositAmount ≤ amount) :
    Issues P w (.depositIcp env amount) (.deposit env.caller amount) env.caller args
  | withdrawUser (env : Env) (amount : ℕ) (args : TransferArgs)
    (receiver : args.toAccount = defaultAccount env.caller) (amount_eq : args.amount = amount)
    (covered : amount ≤ w.factory.balance env.caller) :
    Issues P w (.withdrawUserIcp env amount) (.withdrawUser env.caller amount) env.caller args
  | withdrawIcp (env : Env) (recipient : Principal) (amount : ℕ) (args : TransferArgs) :
    Issues P w (.withdrawIcp env recipient amount) (.withdrawIcp recipient amount 0) env.caller
      args

/-- What a step does to accounts, transfers and the ledger. -/
inductive Moves (P : Platform) (L : LedgerRule) (w : World) : Event → World → Prop
  | quiet (e : Event) (w' : World) (env : Env) (he : e.Quiet)
    (posts : Posts P env w.factory [] w'.factory) (same : SameTransfers w w') : Moves P L w e w'
  | credits (e : Event) (w' : World) (env : Env) (rs : List TransactionRecord)
    (he : e.Credits) (posts : Posts P env w.factory rs w'.factory)
    (credits : ∀ r ∈ rs, r.transactionType = .refund ∨ r.transactionType = .adminAdjustment)
    (same : SameTransfers w w') : Moves P L w e w'
  | asks (env : Env) (config : Config) (w' : World) (asks : Asks P w env config w') :
    Moves P L w (.requestStrategy env config) w'
  | issues (e : Event) (purpose : Purpose) (caller : Principal) (args : TransferArgs)
    (issues : Issues P w e purpose caller args) :
    Moves P L w e (w.issue purpose caller (.ok args))
  | transfers (sender : Principal) (args : TransferArgs) (l : Ledger)
    (rule : L sender args w.ledger = some l) :
    Moves P L w (.userTransfer sender args)
      { w with
        ledger := l
        received := if args.toAccount = defaultAccount P.id then w.received + args.amount
          else w.received
        returned := none }
  | refuses (t : Transfer) (answer : LedgerAnswer) (mem : t ∈ w.transfers) (open_ : t.answer = none)
    (refused : answer.accepted = false) :
    Moves P L w (.ledgerAnswers t answer)
      { w with
        transfers := answered P t answer w.ledger w.ledger :: w.transfers.erase t
        returned := none }
  | accepts (t : Transfer) (answer : LedgerAnswer) (l : Ledger) (mem : t ∈ w.transfers)
    (open_ : t.answer = none) (accepted : answer.accepted = true)
    (rule : L P.id t.args w.ledger = some l) :
    Moves P L w (.ledgerAnswers t answer)
      { w with
        ledger := l
        transfers := answered P t answer w.ledger l :: w.transfers.erase t
        accepted := answered P t answer w.ledger l :: w.accepted
        returned := none }
  | returns (t : Transfer) (answer : LedgerAnswer) (time cycles : ℕ) (mem : t ∈ w.transfers)
    (answered : t.answer = some answer) :
    Moves P L w (.transferReturns t time cycles)
      (w.transferReturns P t answer.result time cycles)

theorem issue_moves {purpose : Purpose} {caller : Principal} {args : Except String TransferArgs}
    (he : e.Quiet) (h : ∀ a, args = .ok a → Issues P w e purpose caller a) :
    Moves P L w e (w.issue purpose caller args) := by
  cases args with
  | error message => exact .quiet e _ default he (.refl _) ⟨rfl, rfl, rfl, rfl, rfl⟩
  | ok args => exact .issues e purpose caller args (h args rfl)

theorem requestStrategy_asks (h : w.Sound) (env : Env) (config : Config) :
    Asks P w env config (w.requestStrategy P env config) := by
  have hr := requestStrategy_requested h P env config
  generalize w.requestStrategy P env config = w' at hr
  cases hr with
  | refused hn => exact .refused hn
  | unserialized e' g hp encode posts records registry =>
    exact .unserialized g hp e' encode posts
  | accepted configData g hp encode posts records registry hg ho =>
    have hnew : g.getDeploymentRecord (w.factory.generateDeploymentId env).1 =
        some (newRecord env w.factory configData) := (records _).trans (if_pos rfl)
    generalize executeDeployment P env g (w.factory.generateDeploymentId env).1 = q at ho
    have hsame : SameTransfers w (resume (w.accept env g) P env true
        (w.factory.generateDeploymentId env).1 q) :=
      ⟨ledger_resume, transfers_resume, accepted_resume, deposits_resume, received_resume⟩
    have hf := factory_resume (w := w.accept env g) true ho
    cases ho with
    | lost message hr => simp [hnew] at hr
    | waits r r' record stage g' hr hends follows status writes =>
      obtain rfl := Option.some.inj (hnew.symm.trans hr)
      refine .waits _ ⟨true, env.caller, _, record, stage⟩ r' hp (Nat.not_lt.1 hends)
        (hf ▸ posts.trans writes.posts) rfl ?_ follows.feeAmount hsame
      have hget := writes.get_self
      rw [follows.deploymentId] at hget
      exact hget
    | failed r r' message g' hr hends follows status writes =>
      obtain rfl := Option.some.inj (hnew.symm.trans hr)
      exact .failed _ configData hp encode hends (hf ▸ posts.trans writes.posts) rfl hsame
    | deployed r r' metadata canisterId g' hr hends follows status _ _ writes last =>
      exact absurd last (by decide)

/-- A segment of an execution posts refunds, if anything. -/
theorem Deploys.moves (hd : Deploys P w e w') (he : w.executes e = some id) (hq : e.Credits) :
    Moves P L w e w' := by
  cases hd with
  | still e w' env rs pays norefund tasks requests returned ended executes => simp [executes] at he
  | cleans => cases he
  | upgrades => cases he
  | unserialized => cases he
  | requested => cases he
  | forced env id p executes outcome =>
    obtain ⟨rs, hrs, hrefund⟩ := posts_of_outcome outcome
    exact .credits _ _ env rs hq (factory_resume _ outcome ▸ hrs)
      (fun r hr => Or.inl (hrefund r hr))
      (sameTransfers_resume w)
  | continued e task time cycles p mem executes outcome =>
    obtain ⟨rs, hrs, hrefund⟩ := posts_of_outcome outcome
    have hf := factory_resume (w := { w with tasks := w.tasks.erase task }) task.spawned outcome
    exact .credits _ _ ⟨time, task.caller, cycles⟩ rs hq (hf ▸ hrs)
      (fun r hr => Or.inl (hrefund r hr))
      ⟨ledger_resume, transfers_resume, accepted_resume, deposits_resume, received_resume⟩

theorem ledgerAnswers_moves {t : Transfer} {answer : LedgerAnswer} (ht : t ∈ w.transfers)
    (ho : t.answer = none) (h : w.ledgerAnswers P L t answer = some w') :
    Moves P L w (.ledgerAnswers t answer) w' := by
  unfold ledgerAnswers at h
  split_ifs at h with ha
  · obtain ⟨l, hl, rfl⟩ := Option.map_eq_some_iff.1 h
    exact .accepts t answer l ht ho ha hl
  · obtain rfl := Option.some.inj h
    exact .refuses t answer ht ho (Bool.eq_false_iff.2 ha)

theorem depositIcp_issues {amount : ℕ} {args : TransferArgs}
    (h : Api.depositIcp P env amount = .ok args) :
    Issues P w (.depositIcp env amount) (.deposit env.caller amount) env.caller args := by
  unfold Api.depositIcp at h
  split_ifs at h with ha
  cases hp : Payment.processDeposit P env env.caller amount with
  | error e => simp [hp] at h
  | ok a =>
    simp only [hp] at h
    cases h
    obtain ⟨hmin, -, -, hto, hamount⟩ := Payment.processDeposit_eq_ok hp
    exact .deposit env amount args hto hamount hmin

theorem withdrawUserIcp_issues {amount : ℕ} {args : TransferArgs}
    (h : Api.withdrawUserIcp env w.factory amount = .ok args) :
    Issues P w (.withdrawUserIcp env amount) (.withdrawUser env.caller amount) env.caller args := by
  unfold Api.withdrawUserIcp at h
  split_ifs at h with ha
  cases hp : Payment.userWithdrawFunds env w.factory env.caller amount with
  | error e => simp [hp] at h
  | ok a =>
    simp only [hp] at h
    cases h
    obtain ⟨-, -, -, hb, hto, hamount⟩ := Payment.userWithdrawFunds_eq_ok hp
    exact .withdrawUser env amount args hto hamount hb

/-- Every step is of one of the eight kinds. -/
theorem next_moves (h : w.Sound) (hn : next P L w e = some w') : Moves P L w e w' := by
  cases e with
  | depositIcp env amount =>
    obtain rfl := Option.some.inj hn
    exact issue_moves trivial fun _ => depositIcp_issues
  | withdrawUserIcp env amount =>
    obtain rfl := Option.some.inj hn
    exact issue_moves trivial fun _ => withdrawUserIcp_issues
  | withdrawIcp env recipient amount =>
    obtain rfl := Option.some.inj hn
    exact issue_moves trivial fun args _ => .withdrawIcp env recipient amount args
  | requestStrategy env config =>
    obtain rfl := Option.some.inj hn
    exact .asks env config _ (requestStrategy_asks h env config)
  | adjustBalance env user amount reason =>
    obtain rfl := Option.some.inj hn
    refine .credits _ _ env _ trivial (adjustBalance_pays P env w.factory user amount reason).posts
      (fun r hr => ?_) (sameTransfers_withFactory _ _)
    split_ifs at hr <;> simp_all [adjustmentOf]
  | setDeploymentFee env fee =>
    obtain rfl := Option.some.inj hn
    exact .quiet _ _ env trivial (setDeploymentFee_pays P env w.factory fee).posts
      (sameTransfers_withFactory _ _)
  | addAdmin env principal =>
    obtain rfl := Option.some.inj hn
    exact .quiet _ _ env trivial (addAdmin_pays P env w.factory principal).posts
      (sameTransfers_withFactory _ _)
  | removeAdmin env principal =>
    obtain rfl := Option.some.inj hn
    exact .quiet _ _ env trivial (removeAdmin_pays P env w.factory principal).posts
      (sameTransfers_withFactory _ _)
  | cleanup time cycles =>
    obtain rfl := Option.some.inj hn
    exact .quiet _ _ ⟨time, P.id, cycles⟩ trivial (executeCleanupTasks_archives h.records).posts
      (sameTransfers_withFactory _ _)
  | upgrade =>
    simp only [next] at hn
    split_ifs at hn with hidle
    obtain rfl := Option.some.inj hn
    exact .quiet _ _ default trivial upgrade_posts (sameTransfers_withFactory _ _)
  | userTransfer sender args =>
    obtain ⟨l, hl, rfl⟩ := Option.map_eq_some_iff.1 hn
    exact .transfers sender args l hl
  | ledgerAnswers t answer =>
    simp only [next] at hn
    split_ifs at hn with ht
    exact ledgerAnswers_moves ht.1 ht.2 hn
  | transferReturns t time cycles =>
    obtain ⟨answer, ht, hans, rfl⟩ := next_transferReturns hn
    exact .returns t answer time cycles ht hans
  | forceExecuteDeployment env deploymentId =>
    rcases next_forceExecuteDeployment hn with ⟨-, rfl⟩ | ⟨ha, -⟩
    · exact .credits _ _ env [] trivial (.refl _) (by simp) (sameTransfers_withFactory _ _)
    · exact (next_deploys h hn).moves (if_pos ha) trivial
  | canisterCreated task time cycles result => exact (next_deploys h hn).moves rfl trivial
  | codeInstalled task time cycles result => exact (next_deploys h hn).moves rfl trivial
  | strategyInitialized task time cycles result => exact (next_deploys h hn).moves rfl trivial

theorem step_moves (h : w.Sound) (hs : step P L w e = some w') :
    Moves P L w e w' ∧ e.sender ≠ some P.id := by
  unfold step at hs
  split_ifs at hs with hsender
  exact ⟨next_moves h hs, hsender⟩

/-! ## Calls in flight -/

theorem Asks.transfers_eq {config : Config} (h : Asks P w env config w') :
    w'.transfers = w.transfers := by
  cases h with
  | refused => rfl
  | unserialized => rfl
  | waits w' task r passes cycles posts tasks record feeAmount same => exact same.transfers
  | failed w' configData passes encode cycles posts tasks same => exact same.transfers

/-- Where a call comes from that is in flight after a step. -/
inductive InFlight (P : Platform) (L : LedgerRule) (w : World) (e : Event) : Transfer → Prop
  | waits (t : Transfer) (mem : t ∈ w.transfers) : InFlight P L w e t
  | issued (purpose : Purpose) (caller : Principal) (args : TransferArgs)
    (issues : Issues P w e purpose caller args) : InFlight P L w e (.issued purpose caller args)
  | answered (t : Transfer) (answer : LedgerAnswer) (l : Ledger) (mem : t ∈ w.transfers)
    (rule : answer.accepted = true → L P.id t.args w.ledger = some l) :
    InFlight P L w e (answered P t answer w.ledger l)
  | again (t : Transfer) (recipient : Principal) (amount retries : ℕ) (mem : t ∈ w.transfers) :
    InFlight P L w e (.issued (.withdrawIcp recipient amount retries) t.caller t.args)

theorem transferReturns_inFlight {t : Transfer} {result : CallResult ℕ} {time cycles : ℕ}
    (ht : t ∈ w.transfers) :
    ∀ x ∈ (w.transferReturns P t result time cycles).transfers, InFlight P L w e x := by
  have hrest : ∀ x ∈ w.transfers.erase t, InFlight P L w e x :=
    fun x hx => .waits x (List.mem_of_mem_erase hx)
  unfold transferReturns
  cases t.purpose with
  | deposit user amount => exact hrest
  | withdrawUser user amount => exact hrest
  | withdrawIcp recipient amount retries =>
    dsimp only
    cases Payment.withdrawFundsAnswer paymentConfig.maxWithdrawalRetries retries result with
    | again retries => exact List.forall_mem_cons.2 ⟨.again t recipient amount retries ht, hrest⟩
    | done result => exact hrest

theorem Moves.inFlight (hm : Moves P L w e w') : ∀ t ∈ w'.transfers, InFlight P L w e t := by
  cases hm with
  | quiet e w' env he posts same => exact fun t ht => .waits t (same.transfers ▸ ht)
  | credits e w' env rs he posts credits same => exact fun t ht => .waits t (same.transfers ▸ ht)
  | asks env config w' asks => exact fun t ht => .waits t (asks.transfers_eq ▸ ht)
  | issues e purpose caller args issues =>
    exact List.forall_mem_cons.2 ⟨.issued purpose caller args issues, InFlight.waits⟩
  | transfers sender args l rule => exact fun t ht => .waits t ht
  | refuses t answer mem open_ refused =>
    refine List.forall_mem_cons.2 ⟨.answered t answer w.ledger mem fun h => ?_,
      fun x hx => .waits x (List.mem_of_mem_erase hx)⟩
    rw [refused] at h
    cases h
  | accepts t answer l mem open_ accepted rule =>
    exact List.forall_mem_cons.2 ⟨.answered t answer l mem fun _ => rule,
      fun x hx => .waits x (List.mem_of_mem_erase hx)⟩
  | returns t answer time cycles mem ans => exact transferReturns_inFlight mem

end World

end HunterFi
