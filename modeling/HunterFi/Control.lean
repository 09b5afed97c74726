import HunterFi.Moves

/-!
# Who controls a strategy

A stranger is a caller who is neither the owner nor the strategy itself. `Effect.control` says
that a segment of a stranger leaves the owner, the status and the settings, but for a `start` that
is given its approval. `verify_owner` refuses a stranger at the entry, and not after the calls :
`init_self_hedging` takes the anonymous principal for an owner, and what that one has begun goes
on when the strategy is initialised a second time.

`controlled_iff` : after an initialisation nothing that the owner controls changes in a segment of a
stranger, and no tokens move, if and only if all that strangers have begun before it comes to
nothing.
-/

set_option linter.unusedSectionVars false

namespace HunterFi

open Icpswap SelfHedging

/-! ## What the owner controls -/

/-- The owner, the status and the settings are the same. -/
structure SameControl (m m' : Memory) : Prop where
  owner : m'.state.owner = m.state.owner
  status : m'.state.status = m.state.status
  config : m'.state.config = m.state.config
  size : m'.state.transactionSize = m.state.transactionSize
  split : m'.state.orderSplitType = m.state.orderSplitType

instance (m m' : Memory) : Decidable (SameControl m m') :=
  decidable_of_iff (m'.state.owner = m.state.owner ∧ m'.state.status = m.state.status ∧
      m'.state.config = m.state.config ∧ m'.state.transactionSize = m.state.transactionSize ∧
      m'.state.orderSplitType = m.state.orderSplitType)
    ⟨fun ⟨h₁, h₂, h₃, h₄, h₅⟩ => ⟨h₁, h₂, h₃, h₄, h₅⟩,
      fun ⟨h₁, h₂, h₃, h₄, h₅⟩ => ⟨h₁, h₂, h₃, h₄, h₅⟩⟩

theorem SameControl.refl (m : Memory) : SameControl m m :=
  ⟨rfl, rfl, rfl, rfl, rfl⟩

/-- The balances are not for the owner to control. -/
theorem Rebalanced.sameControl {m m' : Memory} (h : Rebalanced m m') : SameControl m m' := by
  obtain ⟨b, q, t, rfl⟩ := h
  exact ⟨rfl, rfl, rfl, rfl, rfl⟩

variable {host : Host}

/-- A segment of a stranger leaves what the owner controls, unless it sets the strategy running. -/
theorem Effect.control {f : Flight} {m : Memory}
    {r : Memory × Async.Await Env Memory Call Reply String Unit} (h : Effect host f m r)
    (howned : m.state.owner ≠ .anonymous) (hstranger : verifyOwner host f.env m ≠ .ok ()) :
    SameControl m r.1 ↔
      (f.message = .start → f.approved = true → m.state.status = .running) := by
  cases h with
  | refused e message => exact iff_of_true (.refl m) fun h => absurd h message
  | rebalances r message memory =>
    exact iff_of_true memory.sameControl fun h => absurd h message.ne.1
  | inquires r message refused inquires =>
    exact iff_of_true inquires.1.sameControl fun _ h => (nomatch refused.symm.trans h)
  | runs secs message approved =>
    exact ⟨fun h _ _ => h.status.symm, fun h => ⟨rfl, (h message approved).symm, rfl, rfl, rfl⟩⟩
  | pauses message owner ran => exact absurd owner hstranger
  | stops message owner => exact absurd owner hstranger
  | initialises owner config message blank valid => exact absurd blank howned
  | updatesVolume size splitType message verified pos =>
    exact absurd (verifyOwner_of_verifyUpdate verified) hstranger
  | updatesConfig size splitType interval slippage holdToken message verified valid =>
    exact absurd (verifyOwner_of_verifyUpdate verified) hstranger
  | executes r m' volume flag message trades memory =>
    refine iff_of_true ?_ fun h => (nomatch message.symm.trans h)
    rcases trades with hm | ⟨howner, -, -⟩
    · obtain ⟨h₁, h₂, h₃, h₄, h₅⟩ := hm.sameControl
      rw [memory]
      cases volume <;> exact ⟨h₁, h₂, h₃, h₄, h₅⟩
    · exact absurd howner hstranger

/-- A strategy that has an owner keeps it. -/
theorem Effect.owner {f : Flight} {m : Memory}
    {r : Memory × Async.Await Env Memory Call Reply String Unit} (h : Effect host f m r)
    (howned : m.state.owner ≠ .anonymous) : r.1.state.owner = m.state.owner := by
  cases h with
  | rebalances r message memory => exact memory.sameControl.owner
  | inquires r message refused inquires => exact inquires.1.sameControl.owner
  | initialises owner config message blank valid => exact absurd blank howned
  | executes r m' volume flag message trades memory =>
    have howner := trades.sameTally.owner
    rw [memory]
    cases volume <;> exact howner
  | _ => rfl

/-! ## Strangers at the entry -/

/-- The owner or the strategy itself calls. -/
def Admits (host : Host) (o : Principal) (env : Env) : Prop :=
  env.caller = o ∨ env.caller = host.id

instance (host : Host) (o : Principal) (env : Env) : Decidable (Admits host o env) :=
  inferInstanceAs (Decidable (_ ∨ _))

/-- A stranger does not pass the test. -/
theorem verifyOwner_ne_ok {m : Memory} {env : Env} (h : ¬Admits host m.state.owner env) :
    verifyOwner host env m ≠ .ok () :=
  fun hok => h (verifyOwner_eq_ok.1 hok)

/-- What begins with the test of the owner refuses a stranger. -/
theorem refuses_stranger {env : Env} {m : Memory} (h : verifyOwner host env m ≠ .ok ())
    (q : Unit → Handler Unit) : ∃ e,
      ((Async.check (verifyOwner host)).bind q).segment env m = (m, .failed e) := by
  cases hv : verifyOwner host env m with
  | ok _ => exact absurd hv h
  | error e => exact ⟨e, Async.segment_check_bind_error hv⟩

/-- The message awaits calls and is for the owner alone. -/
def Message.isReserved (message : Message) : Bool :=
  match message with
  | start => true
  | message => message.moves

/-- A message for the owner alone is refused to a stranger at its entry. -/
theorem Message.segment_of_isReserved {message : Message} (hm : message.isReserved = true)
    {env : Env} {m : Memory} (h : verifyOwner host env m ≠ .ok ()) :
    ∃ e, (message.handler host).segment env m = (m, .failed e) := by
  cases message with
  | start => exact refuses_stranger h _
  | depositToExchange tokenType amount => exact refuses_stranger h _
  | withdrawFromExchange tokenType amount => exact refuses_stranger h _
  | _ => cases hm

/-- The last replies let the flight move tokens. -/
def Flight.Moves (f : Flight) : Prop :=
  match f.message with
  | .depositToExchange _ _ => f.approved = true
  | .withdrawFromExchange _ _ => WithdrawalPool f.exchanges
  | _ => False

/-- Only a deposit or a withdrawal moves tokens. -/
theorem Flight.Moves.moves {f : Flight} (h : f.Moves) : f.message.moves = true := by
  unfold Moves at h
  split at h <;> simp_all [Message.moves]

/-! ## Segments of a stranger -/

namespace Log

variable {l l' : Log} {e : CanisterEvent} {s : Segment} {o : Principal} {n : ℕ}

/-- The strategy has an owner, and what strangers have begun that is for the owner alone came
before the event `n`. -/
structure Guarded (host : Host) (o : Principal) (n : ℕ) (l : Log) : Prop where
  sound : l.Sound host
  owner : l.memory.state.owner = o
  clock : n ≤ l.clock
  earlier : ∀ x ∈ l.pending, ¬Admits host o x.flight.env → x.flight.message.isReserved = true →
    x.flight.received < n

/-- The calls that end a segment, as those of a handler that goes on. -/
theorem staysNext_submitted {p : Handler Unit} (hp : StaysNext p) (hs : s.handler = p) :
    ∀ c ∈ s.submitted, c.isMove = false := by
  unfold Segment.submitted Segment.result
  rw [hs]
  cases hr : (p.segment s.flight.env s.flight.memory).2 with
  | done u => exact fun c hc => nomatch hc
  | failed e => exact fun c hc => nomatch hc
  | calls calls k => exact fun c hc => hp calls k (Async.unfolds_segment hr) c hc

/-- A message that is for the owner alone ends at its entry. -/
theorem Guarded.refused (hl : l.Guarded host o n) (he : l.Enters host e s)
    (hstranger : ¬Admits host o s.flight.env) (hm : s.flight.message.isReserved = true)
    (hfirst : s.flight.rounds = []) : ∃ e, s.result = (l.memory, .failed e) := by
  have hentry : verifyOwner host s.flight.env l.memory ≠ .ok () :=
    verifyOwner_ne_ok (hl.owner ▸ hstranger)
  cases he with
  | message env message hself => exact Message.segment_of_isReserved hm hentry
  | timer time cycles hlive => cases hm
  | replies i time cycles replies x hx hlen => simp [Flight.resumed] at hfirst

/-- A segment whose handler submits a call that moves tokens. -/
theorem not_stays_submitted {c : Call} {k : List Reply → Handler Unit}
    (hs : s.handler = .call [c] k) (hc : c.isMove = true) :
    ¬∀ c ∈ s.submitted, c.isMove = false := by
  unfold Segment.submitted Segment.result
  rw [hs]
  intro h
  have hno := h c (List.mem_singleton.2 rfl)
  rw [hc] at hno
  cases hno

/-- With replies, a deposit or a withdrawal moves tokens exactly if they let it. -/
theorem moves_iff_of_replies {i time cycles : ℕ} {replies : List Reply}
    (he : l.Enters host (.replies i time cycles replies) s)
    (hl : ∀ x ∈ l.pending, Traced host x) (hm : s.flight.message.moves = true) :
    (∀ c ∈ s.submitted, c.isMove = false) ↔ ¬s.flight.Moves := by
  cases he with
  | replies i time cycles replies x hx hlen =>
    have htraced := (hl x (List.mem_of_getElem? hx)).unfolds
    unfold Flight.Moves
    simp only [Flight.message_resumed] at hm ⊢
    cases hmessage : x.flight.message with
    | depositToExchange tokenType amount =>
      rw [hmessage] at htraced
      simp only [Flight.approved_resumed]
      rcases deposit_resumes htraced hlen with ⟨hyes, c, k, hk, hc⟩ | ⟨hno, hstays⟩
      · exact iff_of_false (not_stays_submitted hk hc) (by simp [hyes])
      · exact iff_of_true (staysNext_submitted hstays rfl) (by simp [hno])
    | withdrawFromExchange tokenType amount =>
      rw [hmessage] at htraced
      simp only [Flight.exchanges_resumed]
      rcases withdraw_resumes htraced hlen with ⟨hyes, c, k, hk, hc⟩ | ⟨hno, hstays⟩
      · exact iff_of_false (not_stays_submitted hk hc) (not_not_intro hyes)
      · exact iff_of_true (staysNext_submitted hstays rfl) hno
    | _ =>
      rw [hmessage] at hm
      cases hm

/-- They are for the owner alone. -/
theorem isReserved_of_moves {message : Message} (h : message.moves = true) :
    message.isReserved = true := by
  cases message <;> first | rfl | cases h

/-- A segment of a stranger moves tokens exactly if the last replies let it. -/
theorem Guarded.moves_iff (hl : l.Guarded host o n) (he : l.Enters host e s)
    (hstranger : ¬Admits host o s.flight.env) :
    (∀ c ∈ s.submitted, c.isMove = false) ↔ ¬s.flight.Moves := by
  cases hm : s.flight.message.moves with
  | false =>
    refine iff_of_true ?_ fun h => (nomatch hm.symm.trans h.moves)
    refine staysNext_submitted (fun calls k hk => ?_) rfl
    have hall := (he.unfolds hl.sound.traced).trans hk
    exact submits_of_not_moves host hm _ calls k hall
  | true =>
    have hfirst : s.flight.rounds = [] → _ := hl.refused he hstranger (isReserved_of_moves hm)
    cases he with
    | message env message hself =>
      obtain ⟨e, hresult⟩ := hfirst rfl
      refine iff_of_true ?_ fun h => ?_
      · unfold Segment.submitted
        rw [hresult]
        exact fun c hc => nomatch hc
      · cases message <;> first | exact h | exact nomatch h
    | timer time cycles hlive => cases hm
    | replies i time cycles replies x hx hlen =>
      exact moves_iff_of_replies (.replies i time cycles replies x hx hlen) hl.sound.traced hm

/-- What a stranger has begun that is for the owner alone goes on only if it came before `n`. -/
theorem Guarded.received_lt (hl : l.Guarded host o n) (he : l.Enters host e s)
    (hstranger : ¬Admits host o s.flight.env) (hm : s.flight.message.isReserved = true)
    (hrounds : s.flight.rounds ≠ []) : s.flight.received < n := by
  cases he with
  | message env message hself => exact absurd rfl hrounds
  | timer time cycles hlive => exact absurd rfl hrounds
  | replies i time cycles replies x hx hlen =>
    have htraced := hl.sound.traced x (List.mem_of_getElem? hx)
    refine hl.earlier x (List.mem_of_getElem? hx) (fun h => hstranger ?_) hm
    unfold Admits at h ⊢
    rwa [← htraced.caller] at h

theorem Enters.guarded (he : l.Enters host e s) (hl : l.Guarded host o n)
    (ho : o ≠ .anonymous) : (l.land s).Guarded host o n := by
  have howned : l.memory.state.owner ≠ .anonymous := hl.owner ▸ ho
  refine ⟨he.sound hl.sound, ?_, ?_, fun x hx hstranger hm => ?_⟩
  · rw [memory_land, (he.effect hl.sound.traced).owner howned]
    exact hl.owner
  · rw [clock_land]
    exact hl.clock.trans (Nat.le_succ _)
  · rcases mem_pending_land hx with hx | ⟨calls, k, hcalls, rfl⟩
    · exact hl.earlier x (he.others x hx) hstranger hm
    · by_cases hrounds : s.flight.rounds = []
      · obtain ⟨e, hresult⟩ := hl.refused he hstranger hm hrounds
        rw [hresult] at hcalls
        cases hcalls
      · exact hl.received_lt he hstranger hm hrounds

theorem step_guarded (hl : l.Guarded host o n) (ho : o ≠ .anonymous)
    (hs : l.step host e = some l') : l'.Guarded host o n := by
  rcases step_cases hs with ⟨-, rfl⟩ | ⟨s, he, rfl⟩
  · exact ⟨sound_upgraded l, hl.owner, hl.clock.trans (Nat.le_succ _), fun _ hx => (nomatch hx)⟩
  · exact he.guarded hl ho

/-! ## Control -/

/-- The event runs a segment of the owner or of the strategy itself, or it leaves what the owner
controls, moves no tokens and begins no deposit and no withdrawal. -/
def Controlled (host : Host) (o : Principal) (l : Log) (e : CanisterEvent) : Prop :=
  ∀ l' ∈ l.step host e, (∃ s ∈ l.segment host e, Admits host o s.flight.env) ∨
    SameControl l.memory l'.memory ∧ ∀ s ∈ l.segment host e,
      (∀ c ∈ s.submitted, c.isMove = false) ∧
        (s.flight.rounds = [] → s.flight.message.moves = true → s.submitted = [])

instance (host : Host) (o : Principal) (l : Log) (e : CanisterEvent) :
    Decidable (Controlled host o l e) :=
  inferInstanceAs (Decidable (∀ l' ∈ l.step host e, _ ∨ _))

/-- What a stranger has begun before the event `n` neither sets the strategy running nor moves
tokens. -/
def Lapses (host : Host) (o : Principal) (n : ℕ) (l : Log) (e : CanisterEvent) : Prop :=
  ∀ s ∈ l.segment host e, ¬Admits host o s.flight.env → s.flight.received < n →
    (s.flight.message = .start → s.flight.approved = true → l.memory.state.status = .running) ∧
      ¬s.flight.Moves

/-- An approval takes a round. -/
theorem rounds_ne_nil_of_approved {f : Flight} (h : f.approved = true) : f.rounds ≠ [] := by
  intro hnil
  rw [Flight.approved, hnil] at h
  cases h

/-- Tokens move after the first round. -/
theorem rounds_ne_nil_of_moves {f : Flight} (h : f.Moves) : f.rounds ≠ [] := by
  unfold Flight.Moves at h
  split at h
  · exact rounds_ne_nil_of_approved h
  · intro hnil
    rw [Flight.exchanges, hnil] at h
    cases h.1
  · exact h.elim

/-- An event is under control exactly if what a stranger has begun before comes to nothing. -/
theorem Guarded.controlled_iff_lapses (hl : l.Guarded host o n) (ho : o ≠ .anonymous)
    (hs : l.step host e = some l') : Controlled host o l e ↔ Lapses host o n l e := by
  rcases step_cases hs with ⟨rfl, rfl⟩ | ⟨s, he, rfl⟩
  · refine iff_of_true (fun l' hl' => ?_) fun s h => (nomatch h)
    obtain rfl := Option.some.inj hl'
    exact Or.inr ⟨⟨rfl, rfl, rfl, rfl, rfl⟩, fun s h => (nomatch h)⟩
  have hsegment := he.segment_eq
  by_cases hstranger : Admits host o s.flight.env
  · refine iff_of_true (fun l' _ => Or.inl ⟨s, hsegment, hstranger⟩) fun s' hs' hno => ?_
    obtain rfl := Option.some.inj (hsegment.symm.trans hs')
    exact absurd hstranger hno
  have hcontrol := (he.effect hl.sound.traced).control (hl.owner ▸ ho)
    (verifyOwner_ne_ok (hl.owner ▸ hstranger))
  have hmoves := hl.moves_iff he hstranger
  constructor
  · intro h s' hs' _ _
    obtain rfl := Option.some.inj (hsegment.symm.trans hs')
    rcases h _ hs with ⟨s', hs', hyes⟩ | ⟨hsame, hstays⟩
    · obtain rfl := Option.some.inj (hsegment.symm.trans hs')
      exact absurd hyes hstranger
    · rw [memory_land] at hsame
      exact ⟨hcontrol.1 hsame, hmoves.1 (hstays s hsegment).1⟩
  · intro h l' hl'
    obtain rfl := Option.some.inj (hs.symm.trans hl')
    have hlapses := h s hsegment hstranger
    right
    rw [memory_land]
    refine ⟨hcontrol.2 fun hm happroved => ?_, fun s' hs' => ?_⟩
    · have hm' : s.flight.message.isReserved = true := by rw [hm]; rfl
      exact (hlapses (hl.received_lt he hstranger hm'
        (rounds_ne_nil_of_approved happroved))).1 hm happroved
    · obtain rfl := Option.some.inj (hsegment.symm.trans hs')
      refine ⟨hmoves.2 fun hmove => ?_, fun hfirst hm => ?_⟩
      · exact (hlapses (hl.received_lt he hstranger (isReserved_of_moves hmove.moves)
          (rounds_ne_nil_of_moves hmove))).2 hmove
      · obtain ⟨e, hresult⟩ := hl.refused he hstranger (isReserved_of_moves hm) hfirst
        unfold Segment.submitted
        rw [hresult]

/-- The flights that wait came before. -/
def Dated (l : Log) : Prop :=
  ∀ x ∈ l.pending, x.flight.received < l.clock

theorem dated_start (m : Memory) : (start m).Dated :=
  fun _ hx => absurd hx List.not_mem_nil

/-- A message came before its present segment. -/
theorem Enters.received_le (he : l.Enters host e s) (hl : l.Dated) :
    s.flight.received ≤ l.clock := by
  cases he with
  | replies i time cycles replies x hx hlen => exact (hl x (List.mem_of_getElem? hx)).le
  | _ => exact le_rfl

theorem step_dated (hl : l.Dated) (hs : l.step host e = some l') : l'.Dated := by
  rcases step_cases hs with ⟨-, rfl⟩ | ⟨s, he, rfl⟩
  · exact fun _ hx => (nomatch hx)
  · intro x hx
    rw [clock_land]
    rcases mem_pending_land hx with hx | ⟨calls, k, -, rfl⟩
    · exact (hl x (he.others x hx)).trans (Nat.lt_succ_self _)
    · exact Nat.lt_succ_of_le (he.received_le hl)

end Log

/-! ## A stranger before the initialisation -/

namespace Sample

/-- A message of nobody. -/
def anonymously (time : ℕ) (message : Message) : CanisterEvent :=
  .message ⟨time, .anonymous, 0⟩ message

/-- The strategy is initialised for nobody, who starts it up to its approval. -/
def startsAnonymously : List CanisterEvent :=
  [asks 0 (.initSelfHedging .anonymous hedgeConfig), anonymously 1 .start, answers 0 2 poolFound,
    answers 0 3 poolFound, answers 0 4 balanceFound]

end Sample

namespace Log

end Log

end HunterFi
