import HunterFi.BuyBack
import HunterFi.Ownership
import HunterFi.Unfold

/-!
# Start and execution in parts

`start` is an inquiry, an approval, and the two writes that make the strategy run
(`start_eq`). `execute_once` is an admission, and then trades whose volume is recorded, with
the flag held from the one to the end of the other (`executeOnce_eq`). The parts that await
calls change nothing but the stored balances (`Rebalanced`), or pause the strategy.

`start_resumes` and `executeOnce_resumes` say what each handler does when replies come in.
-/

set_option linter.unusedSectionVars false

namespace HunterFi

open Icpswap

/-! ## Balances -/

/-- The second memory is the first one but for the stored balances. -/
def Rebalanced (m m' : Memory) : Prop :=
  ∃ b q t, m' = m.withState fun s =>
    { s with
      baseTokenUnusedBalance := b
      quoteTokenUnusedBalance := q
      lastBalanceCheck := t }

namespace Rebalanced

variable {m m' m'' : Memory}

theorem refl (m : Memory) : Rebalanced m m :=
  ⟨_, _, _, rfl⟩

theorem trans (h : Rebalanced m m') (h' : Rebalanced m' m'') : Rebalanced m m'' := by
  obtain ⟨b, q, t, rfl⟩ := h
  obtain ⟨b', q', t', rfl⟩ := h'
  exact ⟨b', q', t', rfl⟩

theorem updateUnusedBalance (b q : ℕ) (env : Env) (m : Memory) :
    Rebalanced m (SelfHedging.updateUnusedBalance b q env m) :=
  ⟨_, _, _, rfl⟩

end Rebalanced

/-! ## Approvals -/

/-- The reply approves the spender of the call. -/
def Call.approves : Call → Reply → Bool
  | .approveDip20 _ _ _, .approved (.ok _) => true
  | .approveExt _ _ _ _, .approved (.ok _) => true
  | .icrc2Approve _ _ _, .icrc2Approved (.ok _) => true
  | _, _ => false

/-- The call asks for an approval. -/
def Call.isApproval : Call → Bool
  | .approveDip20 _ _ _ => true
  | .approveExt _ _ _ _ => true
  | .icrc2Approve _ _ _ => true
  | _ => false

/-- One of the calls is approved. -/
def approved (calls : List Call) (replies : List Reply) : Bool :=
  (List.zipWith Call.approves calls replies).any id

/-- Only an approval is given. -/
theorem Call.isApproval_of_approves {c : Call} {r : Reply} (h : c.approves r) :
    c.isApproval = true := by
  unfold approves at h
  split at h <;> first | rfl | cases h

/-- Calls that are no approvals approve nothing. -/
theorem approved_eq_false {calls : List Call} (h : ∀ c ∈ calls, c.isApproval = false)
    (replies : List Reply) : approved calls replies = false := by
  induction calls generalizing replies with
  | nil => rfl
  | cons c calls ih =>
    obtain ⟨hc, hcalls⟩ := List.forall_mem_cons.1 h
    cases replies with
    | nil => rfl
    | cons r replies =>
      have hno : c.approves r = false := by
        by_contra hyes
        have := Call.isApproval_of_approves (Bool.not_eq_false _ ▸ hyes)
        simp_all
      have := ih hcalls replies
      simp_all [approved]

namespace SelfHedging

/-- A token that supports approvals is approved by one call, if the reply says so. -/
theorem approveToken_cases (token : TokenInfo) (spender : Principal) (amount : ℕ) :
    (∃ e, (approveToken token spender amount : Async Env Memory Call Reply ExchangeError Unit) =
      .fail e) ∨
    ∃ j : Async.Job Call Reply ExchangeError Unit,
      (approveToken token spender amount : Async Env Memory Call Reply ExchangeError Unit) =
        j.run ∧ j.call.isApproval = true ∧
        ∀ r, (j.call.approves r = true → j.outcome r = .ok ()) ∧
          (j.call.approves r = false → ∃ e, j.outcome r = .error e) := by
  unfold approveToken
  split <;> first
    | exact Or.inl ⟨_, rfl⟩
    | refine Or.inr ⟨_, rfl, rfl, fun r => ?_⟩
  all_goals
    cases r with
    | approved result | icrc2Approved result =>
      cases result <;> simp [approveCall, Call.approves, Reply.decode, Reply.approved?,
        Reply.icrc2Approved?]
    | _ => simp [approveCall, Call.approves, Reply.decode, Reply.approved?, Reply.icrc2Approved?]

/-- An approval that awaits its reply goes on if it is given, and fails otherwise. -/
theorem unfolds_approval {α : Type} {token : TokenInfo} {spender : Principal} {amount : ℕ}
    {g : ExchangeError → String} {q : Unit → Handler α} {xs : List (Async.Exchange Call Reply)}
    {calls : List Call} {k : List Reply → Handler α}
    (h : Async.Unfolds (((approveToken token spender amount).mapError g).bind q) xs
      (.call calls k)) :
    (xs = [] ∧ (∀ c ∈ calls, c.isApproval = true) ∧
      ∀ rs : List Reply, rs.length = calls.length → (approved calls rs = true ∧ k rs = q ()) ∨
        (approved calls rs = false ∧ ∃ e, k rs = .fail e)) ∨
      ∃ x ys, xs = x :: ys ∧ Async.Unfolds (q ()) ys (.call calls k) := by
  rcases approveToken_cases token spender amount with ⟨e, he⟩ | ⟨j, hj, hcall, hout⟩
  · rw [he] at h
    cases (Async.unfolds_fail.1 h).2
  rw [hj] at h
  rcases Async.unfolds_run_mapError_bind h with ⟨rfl, heq⟩ | ⟨reply, ys, rfl, hrest⟩
  · rw [Async.run_mapError_bind] at heq
    cases heq
    refine Or.inl ⟨rfl, List.forall_mem_singleton.2 hcall, fun rs hlen => ?_⟩
    obtain ⟨r, rfl⟩ := List.length_eq_one_iff.1 hlen
    obtain ⟨hyes, hno⟩ := hout r
    have happ : approved [j.call] [r] = j.call.approves r := by simp [approved]
    rw [happ]
    simp only [List.headD_cons]
    cases hr : j.call.approves r with
    | false =>
      obtain ⟨e, he⟩ := hno hr
      exact Or.inr ⟨rfl, g e, by rw [he]⟩
    | true => exact Or.inl ⟨rfl, by rw [hyes hr]⟩
  · rcases hrest with ⟨e, -, -, he⟩ | ⟨_, -, hq⟩
    · cases he
    · exact Or.inr ⟨_, ys, rfl, hq⟩

/-! ## Start -/

/-- The memory of a strategy that `start` has set running. -/
def running (secs : ℕ) (m : Memory) : Memory :=
  { m with
    timers := m.timers.setTimer executionTimerId secs
    state := { m.state with status := .running } }

/-- The inquiry changes the balances at most. -/
theorem rebalances_startInquiry (host : Host) :
    (startInquiry host).Changes fun _ => Rebalanced :=
  changes_startInquiry (fun _ => .refl) (fun env m b q => .updateUnusedBalance b q env m) host

/-! ## The calls of the inquiries -/

/-- The calls that ask the exchange for a pool or a balance. -/
def Asks : Call → Prop
  | .getPool _ _ => True
  | .getUserUnusedBalance _ _ => True
  | _ => False

theorem submits_getPoolCanister (base quote : TokenInfo) :
    ((getPoolCanister base quote).run :
      Async Env Memory Call Reply ExchangeError IcpSwapPoolData).Submits Asks := by
  refine Async.submits_run ?_
  unfold getPoolCanister
  split
  trivial

/-- The pool and its information are asked for. -/
theorem submits_getPoolInfo (host : Host) (base quote : TokenInfo) :
    ((getPoolInfo host base quote).run :
      Async Env Memory Call Reply ExchangeError PoolInfo).Submits Asks := by
  refine Async.submits_run ?_
  rw [getPoolInfo, Async.Job.call_andThen]
  unfold getPoolCanister
  split
  trivial

/-- So is the balance. -/
theorem submits_checkIcpswapBalance (host : Host) : (checkIcpswapBalance host).Submits Asks :=
  .bind Async.submits_get fun _ => .bind
    (.mapError _ (.bind (submits_getPoolCanister _ _) fun _ =>
      .bind (Async.submits_run trivial) fun _ => Async.submits_ret _)) fun _ =>
    .bind (Async.submits_modify _) fun _ => Async.submits_ret _

/-- The inquiry of a start asks and no more. -/
theorem submits_startInquiry (host : Host) : (startInquiry host).Submits Asks := by
  refine .bind (Async.submits_check _) fun _ => .bind (Async.submits_check _) fun _ =>
    .bind Async.submits_get fun m =>
      .bind (.mapError _ (submits_getPoolInfo host _ _)) fun pool =>
        .bind (.mapError _ (submits_checkIcpswapBalance host)) fun x => ?_
  dsimp only
  split_ifs
  · exact Async.submits_fail _
  all_goals exact Async.submits_ret _

theorem isApproval_of_asks {c : Call} (h : Asks c) : c.isApproval = false := by
  cases c <;> first | rfl | exact h.elim

theorem isSwap_of_asks {c : Call} (h : Asks c) : c.isSwap = false := by
  cases c <;> first | rfl | exact h.elim

/-! ## How a start goes on -/

/-- The segment leaves the memory as it is but for the balances, and is not the last one of a
`start` that succeeds. -/
def Inquires (m : Memory) (r : Memory × Async.Await Env Memory Call Reply String Unit) : Prop :=
  Rebalanced m r.1 ∧ ∀ u, r.2 ≠ .done u

/-- After its inquiry a start awaits its approval, or fails. -/
theorem startConclusion_segment (plan : StartPlan) (env : Env) (m : Memory) :
    Inquires m ((startConclusion plan).segment env m) := by
  rcases approveToken_cases plan.token plan.pool u128Max with ⟨e, he⟩ | ⟨j, hj, -⟩
  · simp only [startConclusion, startApproval, he]
    exact ⟨.refl m, nofun⟩
  · simp only [startConclusion, startApproval, hj]
    exact ⟨.refl m, nofun⟩

/-- A segment of the inquiry is not the last one of a start that succeeds. -/
theorem inquiry_segment {p : Handler StartPlan} (hp : p.Changes fun _ => Rebalanced) (env : Env)
    (m : Memory) : Inquires m ((p.bind startConclusion).segment env m) := by
  obtain ⟨hm, -⟩ := hp.segment (i := env) .refl (fun _ _ _ => .trans) m
  rw [Async.segment_bind]
  generalize p.segment env m = r at hm
  obtain ⟨m', ⟨plan⟩ | ⟨e⟩ | ⟨calls, k⟩⟩ := r
  · obtain ⟨hm', hdone⟩ := startConclusion_segment plan env m'
    exact ⟨hm.trans hm', hdone⟩
  · exact ⟨hm, nofun⟩
  · exact ⟨hm, nofun⟩

/-- The first segment of `start` inquires. -/
theorem start_segment (host : Host) (env : Env) (m : Memory) :
    Inquires m ((start host).segment env m) := by
  rw [start_eq]
  exact inquiry_segment (rebalances_startInquiry host) env m

/-- With replies, `start` sets the strategy running if they approve the spender, and inquires
otherwise. -/
theorem start_resumes {host : Host} {xs : List (Async.Exchange Call Reply)} {calls : List Call}
    {k : List Reply → Handler Unit} (h : Async.Unfolds (start host) xs (.call calls k))
    {rs : List Reply} (hlen : rs.length = calls.length) (env : Env) (m : Memory) :
    (approved calls rs = false ∧ Inquires m ((k rs).segment env m)) ∨
      approved calls rs = true ∧ ∃ secs, (k rs).segment env m = (running secs m, .done ()) := by
  rw [start_eq] at h
  rcases Async.unfolds_bind_call h with ⟨k', hk, rfl⟩ | ⟨plan, ys, zs, -, -, hk⟩
  · refine Or.inl ⟨approved_eq_false (fun c hc => ?_) rs, ?_⟩
    · exact isApproval_of_asks (submits_startInquiry host _ _ _ hk c hc)
    · cases (rebalances_startInquiry host).unfolds hk with
      | call _ hr => exact inquiry_segment (hr rs) env m
  · rcases unfolds_approval hk with ⟨-, -, hgoes⟩ | ⟨x, ys', -, hrest⟩
    · rcases hgoes rs hlen with ⟨hyes, heq⟩ | ⟨hno, e, heq⟩
      · exact Or.inr ⟨hyes, plan.secs, by rw [heq]; rfl⟩
      · exact Or.inl ⟨hno, by rw [heq]; exact ⟨.refl m, nofun⟩⟩
    · -- after the approval there is no other call
      obtain ⟨_, _, hrest⟩ := Async.unfolds_access hrest trivial
      obtain ⟨_, _, hrest⟩ := Async.unfolds_access hrest trivial
      cases (Async.unfolds_ret.1 hrest).2

/-! ## Execution -/

/-- The tests at the entry of `execute_once`. -/
def admission : Handler Unit := do
  .check fun _ => verifyStatus [.running]
  let m ← .get
  if m.executionInProgress then .fail "Previous execution still in progress" else .ret ()

/-- The memory once the trades of a cycle have been recorded. -/
def recordIn (volume : Option ℕ) (env : Env) (m : Memory) : Memory :=
  match volume with
  | none => m
  | some v => updateStateAfterExecution v env m

/-- The memory with the flag that an execution is in progress. -/
def withFlag (flag : Bool) (m : Memory) : Memory :=
  { m with executionInProgress := flag }

/-- A part of `execute_once` that holds the flag, and gives it back. -/
def guarded (p : Handler Unit) : Handler Unit :=
  p.attempt.bind fun result =>
    (Async.modify fun _ => withFlag false).bind fun _ => .ofExcept result

/-- An execution is admitted, takes the flag, trades, records the volume and gives the flag back. -/
theorem executeOnce_eq (host : Host) : executeOnce host = admission.bind fun _ =>
    (Async.modify fun _ => withFlag true).bind fun _ =>
      guarded ((executionTrades host).bind record) := by
  rw [← executionCycle_eq]
  simp only [executeOnce, admission, Async.bind_eq, Async.bind_assoc]
  refine congrArg _ (funext fun _ => congrArg _ (funext fun m => ?_))
  split_ifs <;> rfl

/-- `execute_once` up to the call of `update_state_after_execution`. -/
def executionVolume (host : Host) : Handler (Option ℕ) := do
  admission
  .modify fun _ => withFlag true
  executionTrades host

/-! ## What an execution changes -/

theorem verifyStatus_eq_ok {statuses : List StrategyStatus} {m : Memory} :
    verifyStatus statuses m = .ok () ↔ m.state.status ∈ statuses := by
  unfold verifyStatus
  split_ifs with h <;> simp [h]

/-- A pause is for the owner of a running strategy. -/
theorem pause_eq_ok {host : Host} {env : Env} {m m' : Memory} : pause host env m = .ok m' ↔
    verifyOwner host env m = .ok () ∧ m.state.status = .running ∧ m' = halt .paused m := by
  unfold pause
  cases hv : verifyOwner host env m <;> cases hs : verifyStatus [.running] m
  · exact iff_of_false nofun fun h => nomatch h.1
  · exact iff_of_false nofun fun h => nomatch h.1
  · refine iff_of_false nofun fun h => ?_
    have hrunning := verifyStatus_eq_ok.2 (List.mem_singleton.2 h.2.1)
    rw [hs] at hrunning
    cases hrunning
  · have hrunning := List.mem_singleton.1 (verifyStatus_eq_ok.1 hs)
    rw [and_iff_right rfl, and_iff_right hrunning]
    show Except.ok (halt .paused m) = .ok m' ↔ _
    rw [Except.ok.injEq, eq_comm]

/-- A stop is for the owner, in any status. -/
theorem stop_eq_ok {host : Host} {env : Env} {m m' : Memory} : stop host env m = .ok m' ↔
    verifyOwner host env m = .ok () ∧ m' = halt .terminated m := by
  unfold stop
  cases hv : verifyOwner host env m with
  | error e => exact iff_of_false nofun fun h => nomatch h.1
  | ok _ =>
    rw [and_iff_right rfl]
    show Except.ok (halt .terminated m) = .ok m' ↔ _
    rw [Except.ok.injEq, eq_comm]

/-- The strategy ran, and the segment pauses it. -/
def Pauses (host : Host) (env : Env) (m m' : Memory) : Prop :=
  verifyOwner host env m = .ok () ∧ m.state.status = .running ∧ Rebalanced (halt .paused m) m'

/-- What the trades of an execution may do to the memory. -/
def Trades (host : Host) (env : Env) (m m' : Memory) : Prop :=
  Rebalanced m m' ∨ Pauses host env m m'

theorem Trades.refl (host : Host) (env : Env) (m : Memory) : Trades host env m m :=
  Or.inl (.refl m)

/-- What trades may do is closed under composition, as they pause once at most. -/
theorem Trades.trans {host : Host} {env : Env} {m m' m'' : Memory} (h : Trades host env m m')
    (h' : Trades host env m' m'') : Trades host env m m'' := by
  rcases h with h | ⟨howner, hrunning, h⟩
  · refine h'.imp h.trans ?_
    rintro ⟨howner, hrunning, hm⟩
    obtain ⟨b, q, t, rfl⟩ := h
    exact ⟨howner, hrunning, .trans ⟨b, q, t, rfl⟩ hm⟩
  · rcases h' with h' | ⟨-, hrunning', -⟩
    · exact Or.inr ⟨howner, hrunning, h.trans h'⟩
    · -- it is paused now, and does not pause again
      obtain ⟨b, q, t, rfl⟩ := h
      cases hrunning'

/-- All that the trades of an execution do. -/
theorem changes_trades (host : Host) : (executionTrades host).Changes (Trades host) := by
  refine changes_executionTrades (Trades.refl host) (fun env m b q => ?_) host fun env m m' h => ?_
  · exact Or.inl (.updateUnusedBalance b q env m)
  · obtain ⟨howner, hrunning, rfl⟩ := pause_eq_ok.1 h
    exact Or.inr ⟨howner, hrunning, .refl _⟩

/-- Unless they fail they change the balances alone. -/
theorem commits_trades (host : Host) : (executionTrades host).Commits fun _ => Rebalanced :=
  commits_executionTrades (fun _ => .refl)
    (fun env m b q => .updateUnusedBalance b q env m) host

/-! ## How an execution goes on -/

/-- How an execution that holds the flag goes on, given how its trades do. -/
inductive Guards (env : Env) (r : Memory × Async.Await Env Memory Call Reply String (Option ℕ)) :
    Memory × Async.Await Env Memory Call Reply String Unit → Prop
  | done (volume : Option ℕ) (h : r.2 = .done volume) :
    Guards env r (withFlag false (recordIn volume env r.1), .done ())
  | failed (e : String) (h : r.2 = .failed e) : Guards env r (withFlag false r.1, .failed e)
  | calls (calls : List Call) (k : List Reply → Handler (Option ℕ)) (h : r.2 = .calls calls k) :
    Guards env r (r.1, .calls calls fun rs => guarded ((k rs).bind record))

/-- A segment that holds the flag goes on as its trades do. -/
theorem guarded_segment (p : Handler (Option ℕ)) (env : Env) (m : Memory) :
    Guards env (p.segment env m) ((guarded (p.bind record)).segment env m) := by
  induction p generalizing m with
  | ret volume =>
    cases volume with
    | none => exact .done none rfl
    | some v => exact .done (some v) rfl
  | fail e => exact .failed e rfl
  | access f k ih => exact ih env m _
  | call calls k ih => exact .calls calls k rfl

/-- With its first segment, `execute_once` is refused or admitted. -/
theorem executeOnce_segment (host : Host) (env : Env) (m : Memory) :
    (¬(m.state.status = .running ∧ m.executionInProgress = false) ∧
      ∃ e, (executeOnce host).segment env m = (m, .failed e) ∧
        (executionVolume host).segment env m = (m, .failed e)) ∨
    (m.state.status = .running ∧ m.executionInProgress = false) ∧
      (executionVolume host).segment env m =
        (executionTrades host).segment env (withFlag true m) ∧
      Guards env ((executionTrades host).segment env (withFlag true m))
        ((executeOnce host).segment env m) := by
  cases hs : verifyStatus [.running] m with
  | error e =>
    have hstatus : ¬m.state.status = .running := fun hr => by
      have hok := verifyStatus_eq_ok.2 (List.mem_singleton.2 hr)
      rw [hs] at hok
      cases hok
    refine Or.inl ⟨fun h => hstatus h.1, e, ?_, ?_⟩
    · show (((Async.ofExcept (verifyStatus [.running] m)).bind _ : Handler Unit)).segment env m = _
      rw [hs]
      rfl
    · show (((Async.ofExcept (verifyStatus [.running] m)).bind _).bind _ :
        Handler (Option ℕ)).segment env m = _
      rw [hs]
      rfl
  | ok _ =>
    have hrunning := List.mem_singleton.1 (verifyStatus_eq_ok.1 hs)
    have hexecute : (executeOnce host).segment env m =
        ((if m.executionInProgress then .fail "Previous execution still in progress" else
          .ret () : Handler Unit).bind fun _ => (Async.modify fun _ => withFlag true).bind fun _ =>
            guarded ((executionTrades host).bind record)).segment env m := by
      rw [executeOnce_eq]
      show (((Async.ofExcept (verifyStatus [.running] m)).bind _).bind _ :
        Handler Unit).segment env m = _
      rw [hs]
      rfl
    have hvolume : (executionVolume host).segment env m =
        ((if m.executionInProgress then .fail "Previous execution still in progress" else
          .ret () : Handler Unit).bind fun _ => (Async.modify fun _ => withFlag true).bind fun _ =>
            executionTrades host).segment env m := by
      show (((Async.ofExcept (verifyStatus [.running] m)).bind _).bind _ :
        Handler (Option ℕ)).segment env m = _
      rw [hs]
      rfl
    rw [hexecute, hvolume]
    cases m.executionInProgress with
    | true => exact Or.inl ⟨fun h => (nomatch h.2), _, rfl, rfl⟩
    | false => exact Or.inr ⟨⟨hrunning, rfl⟩, rfl, guarded_segment _ _ _⟩

/-- The admission awaits nothing. -/
theorem unfolds_admission {xs : List (Async.Exchange Call Reply)} {r : Handler Unit}
    (h : Async.Unfolds admission xs r) (hr : r.Stops) :
    xs = [] ∧ (r = .ret () ∨ ∃ e, r = .fail e) := by
  rcases Async.unfolds_check_bind h hr with ⟨e, rfl, rfl⟩ | h'
  · exact ⟨rfl, Or.inr ⟨e, rfl⟩⟩
  obtain ⟨m, hm⟩ := Async.unfolds_get_bind h' hr
  split_ifs at hm
  · obtain ⟨rfl, rfl⟩ := Async.unfolds_fail.1 hm
    exact ⟨rfl, Or.inr ⟨_, rfl⟩⟩
  · obtain ⟨rfl, rfl⟩ := Async.unfolds_ret.1 hm
    exact ⟨rfl, Or.inl rfl⟩

/-- With replies, `execute_once` goes on as its trades do. -/
theorem executeOnce_resumes {host : Host} {xs : List (Async.Exchange Call Reply)}
    {calls : List Call} {k : List Reply → Handler Unit}
    (h : Async.Unfolds (executeOnce host) xs (.call calls k)) :
    ∃ k', Async.Unfolds (executionTrades host) xs (.call calls k') ∧
      k = fun rs => guarded ((k' rs).bind record) := by
  rw [executeOnce_eq] at h
  rcases Async.unfolds_bind_call h with ⟨k', hk, -⟩ | ⟨_, ys, zs, rfl, hys, hzs⟩
  · obtain ⟨-, hk | ⟨e, hk⟩⟩ := unfolds_admission hk trivial <;> cases hk
  obtain ⟨rfl, -⟩ := unfolds_admission hys trivial
  rcases Async.unfolds_bind_call (Async.unfolds_modify_bind hzs trivial) with
    ⟨k', hk, rfl⟩ | ⟨result, ys', zs', -, -, hlast⟩
  · obtain ⟨k'', hk'', rfl⟩ := Async.unfolds_attempt_call hk
    rcases Async.unfolds_bind_call hk'' with ⟨k₃, htrades, rfl⟩ | ⟨volume, ys', zs', -, -, hlast⟩
    · exact ⟨k₃, htrades, rfl⟩
    · cases volume with
      | none => cases (Async.unfolds_ret.1 hlast).2
      | some v =>
        obtain ⟨_, _, hlast⟩ := Async.unfolds_access hlast trivial
        cases (Async.unfolds_ret.1 hlast).2
  · obtain ⟨_, _, hlast⟩ := Async.unfolds_access hlast trivial
    cases result with
    | ok _ => cases (Async.unfolds_ret.1 hlast).2
    | error e => cases (Async.unfolds_fail.1 hlast).2

end SelfHedging

end HunterFi
