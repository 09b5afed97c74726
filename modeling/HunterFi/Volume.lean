import HunterFi.Trading

/-!
# The volume of an execution

`traded` adds up what the swaps among exchanges have sold that the exchange confirmed. An
execution reports its volume at one exit only : `stages_volume` says that it is what was
traded, if the replies were `Counted`, and that nothing was traded if it fails.

`reportsTraded_of_counts` : in a run whose replies are counted, whose upgrades find nothing
traded by an execution that waits, and whose initialisations find no volume, the volume of the
state is what was traded, whenever no execution waits. The replies to the orders of one `join_all`
count as one event, as the execution goes on only with all of them, and a reply after an upgrade
reaches no execution : what such an order has sold is confirmed to none.
-/

set_option linter.unusedSectionVars false

namespace HunterFi

open Icpswap SelfHedging

/-! ## Confirmed swaps -/

/-- What a swap has sold, if the exchange confirmed it. -/
def Call.traded (c : Call) : Reply → ℕ
  | .amount (.ok _) => c.sold
  | _ => 0

/-- What a batch of swaps has sold, as far as the exchange confirmed them. -/
def tradedIn (calls : List Call) (replies : List Reply) : ℕ :=
  (List.zipWith Call.traded calls replies).sum

/-- What the swaps among the exchanges have sold, as far as the exchange confirmed them. -/
def traded (xs : List (Async.Exchange Call Reply)) : ℕ :=
  (xs.map fun x => tradedIn x.calls x.replies).sum

@[simp] theorem traded_nil : traded [] = 0 :=
  rfl

@[simp] theorem traded_cons (x : Async.Exchange Call Reply)
    (xs : List (Async.Exchange Call Reply)) :
    traded (x :: xs) = tradedIn x.calls x.replies + traded xs :=
  List.sum_cons

@[simp] theorem traded_append (xs ys : List (Async.Exchange Call Reply)) :
    traded (xs ++ ys) = traded xs + traded ys := by
  simp [traded]

@[simp] theorem tradedIn_cons (c : Call) (cs : List Call) (r : Reply) (rs : List Reply) :
    tradedIn (c :: cs) (r :: rs) = c.traded r + tradedIn cs rs :=
  rfl

theorem Call.sold_of_not_isSwap {c : Call} (hc : c.isSwap = false) : c.sold = 0 := by
  cases c <;> first | rfl | cases hc

theorem Call.traded_of_sold {c : Call} (hc : c.sold = 0) (r : Reply) : c.traded r = 0 := by
  unfold traded
  split
  · exact hc
  · rfl

theorem tradedIn_of_not_isSwap {calls : List Call} (h : ∀ c ∈ calls, c.isSwap = false) :
    ∀ replies, tradedIn calls replies = 0 := by
  induction calls with
  | nil => exact fun replies => rfl
  | cons c calls ih =>
    obtain ⟨hc, hcalls⟩ := List.forall_mem_cons.1 h
    intro replies
    cases replies with
    | nil => rfl
    | cons r replies =>
      rw [tradedIn_cons, Call.traded_of_sold (Call.sold_of_not_isSwap hc), ih hcalls]

theorem traded_of_swapless {xs : List (Async.Exchange Call Reply)} (h : Swapless xs) :
    traded xs = 0 := by
  induction xs with
  | nil => rfl
  | cons x xs ih =>
    obtain ⟨hx, hxs⟩ := List.forall_mem_cons.1 h
    rw [traded_cons, tradedIn_of_not_isSwap hx, ih hxs]

/-- Swaps that are all confirmed have sold what they ask to sell. -/
theorem tradedIn_of_confirms {calls : List Call} : ∀ {replies : List Reply},
    replies.length = calls.length → (∀ r ∈ replies, r.Confirms) →
      tradedIn calls replies = sold calls := by
  induction calls with
  | nil =>
    intro replies hlen h
    obtain rfl := List.eq_nil_of_length_eq_zero hlen
    rfl
  | cons c calls ih =>
    intro replies hlen h
    obtain ⟨r, replies, rfl⟩ := List.exists_cons_of_length_eq_add_one hlen
    obtain ⟨⟨n, rfl⟩, hreplies⟩ := List.forall_mem_cons.1 h
    rw [tradedIn_cons, ih (by simpa using hlen) hreplies]
    rfl

/-- Swaps of which none is confirmed have sold nothing. -/
theorem tradedIn_of_no_confirms {replies : List Reply} (h : ∀ r ∈ replies, ¬r.Confirms) :
    ∀ calls, tradedIn calls replies = 0 := by
  induction replies with
  | nil => intro calls; simp [tradedIn]
  | cons r replies ih =>
    obtain ⟨hr, hreplies⟩ := List.forall_mem_cons.1 h
    intro calls
    cases calls with
    | nil => rfl
    | cons c calls =>
      have hzero : c.traded r = 0 := by
        unfold Call.traded
        split
        · exact absurd ⟨_, rfl⟩ hr
        · rfl
      rw [tradedIn_cons, hzero, ih hreplies]

/-! ## Replies that are counted -/

instance : (r : Reply) → Decidable r.Confirms
  | .amount (.ok n) => isTrue ⟨n, rfl⟩
  | .amount (.error _) => isFalse nofun
  | .rejected _ _ => isFalse nofun
  | .pool _ => isFalse nofun
  | .unusedBalance _ => isFalse nofun
  | .approved _ => isFalse nofun
  | .icrc2Approved _ => isFalse nofun

/-- The outputs of the confirmed swaps fit in a `u128`. -/
def Fit (replies : List Reply) : Prop :=
  ∀ r ∈ replies, r.Confirms → r.output?.isSome = true

/-- The swaps of stage 1 are all confirmed or none is, and a single swap of stage 2 is confirmed.
The exchanges before tell the stages apart. -/
def Counted (xs : List (Async.Exchange Call Reply)) (x : Async.Exchange Call Reply) : Prop :=
  (∃ c ∈ x.calls, c.isSwap = true) → Fit x.replies ∧
    (Swapless xs → (∀ r ∈ x.replies, r.Confirms) ∨ ∀ r ∈ x.replies, ¬r.Confirms) ∧
      (¬Swapless xs → x.calls.length = 1 → ∀ r ∈ x.replies, r.Confirms)

instance (xs : List (Async.Exchange Call Reply)) (x : Async.Exchange Call Reply) :
    Decidable (Counted xs x) :=
  inferInstanceAs (Decidable (_ → (∀ r ∈ x.replies, _ → _) ∧ _ ∧ _))

/-- Every exchange is counted. -/
def AllCounted (xs : List (Async.Exchange Call Reply)) : Prop :=
  ∀ ys x zs, xs = ys ++ x :: zs → Counted ys x

theorem allCounted_nil : AllCounted [] :=
  fun ys x zs h => by simp at h

theorem AllCounted.snoc {xs : List (Async.Exchange Call Reply)} {x : Async.Exchange Call Reply}
    (hxs : AllCounted xs) (hx : Counted xs x) : AllCounted (xs ++ [x]) := by
  intro ys y zs h
  rcases List.eq_nil_or_concat zs with rfl | ⟨zs, z, rfl⟩
  · obtain ⟨rfl, heq⟩ := List.append_inj' h rfl
    cases heq
    exact hx
  · have h' : xs ++ [x] = (ys ++ y :: zs) ++ [z] := by simpa using h
    exact hxs ys y zs (List.append_inj' h' rfl).1

/-- A confirmed output that fits is an output of the connector. -/
theorem Fit.output {replies : List Reply} (h : Fit replies) {r : Reply} (hr : r ∈ replies) :
    r.Confirms ↔ ∃ n, r.output? = some n := by
  constructor
  · exact fun hconfirms => Option.isSome_iff_exists.1 (h r hr hconfirms)
  · rintro ⟨n, hn⟩
    exact ⟨n, (Reply.eq_of_output? hn).1⟩

theorem Fit.tail {r : Reply} {replies : List Reply} (h : Fit (r :: replies)) : Fit replies :=
  fun s hs => h s (List.mem_cons_of_mem _ hs)

/-- Confirmed swaps whose outputs fit have outputs. -/
theorem Fit.outputs {replies : List Reply} (h : Fit replies) (hall : ∀ r ∈ replies, r.Confirms) :
    ∃ outputs, replies.mapM Reply.output? = some outputs := by
  induction replies with
  | nil => exact ⟨[], rfl⟩
  | cons r replies ih =>
    obtain ⟨hr, hreplies⟩ := List.forall_mem_cons.1 hall
    obtain ⟨n, hn⟩ := (h.output List.mem_cons_self).1 hr
    obtain ⟨outputs, houtputs⟩ := ih h.tail hreplies
    exact ⟨n :: outputs, by simp [hn, houtputs]⟩

/-- Swaps of which none is confirmed have no outputs. -/
theorem outputs_of_no_confirms {replies : List Reply} (hne : replies ≠ [])
    (hnone : ∀ r ∈ replies, ¬r.Confirms) : replies.mapM Reply.output? = none := by
  obtain ⟨r, replies, rfl⟩ := List.exists_cons_of_ne_nil hne
  have hr : r.output? = none := by
    rw [Option.eq_none_iff_forall_ne_some]
    intro n hn
    exact hnone r List.mem_cons_self ⟨n, (Reply.eq_of_output? hn).1⟩
  simp [hr]

/-! ## The stages -/

namespace SelfHedging

variable {host : Host} {params : TradeParams} {pool : PoolInfo}

/-- The volume after a swap, if its output fits. -/
theorem outcome_volume (params : TradeParams) (pool : PoolInfo) {r : Reply}
    (hr : r.Confirms ↔ ∃ n, r.output? = some n) :
    (∃ n, (executeCallTradeNoSlippage params pool).outcome r = .ok ⟨params.amount, n⟩ ∧
      (executeCallTradeNoSlippage params pool).call.traded r = params.amount) ∨
    (∃ e, (executeCallTradeNoSlippage params pool).outcome r = .error e) ∧
      ¬r.Confirms ∧ (executeCallTradeNoSlippage params pool).call.traded r = 0 := by
  cases hn : r.output? with
  | some n =>
    obtain ⟨rfl, -⟩ := Reply.eq_of_output? hn
    exact Or.inl ⟨n, outcome_trade hn, (sold_trade :
      (executeCallTradeNoSlippage params pool).call.sold = params.amount)⟩
  | none =>
    have hno : ¬r.Confirms := fun h => by
      obtain ⟨n, hsome⟩ := hr.1 h
      exact nomatch hn.symm.trans hsome
    refine Or.inr ⟨outcome_trade_of_none params pool hn, hno, ?_⟩
    unfold Call.traded
    split
    · exact absurd ⟨_, rfl⟩ hno
    · rfl

/-- The volume after the split orders of stage 2. -/
theorem collectVolume_trades (os : List (ℕ × ℕ)) : ∀ {replies : List Reply} {volume : ℕ},
    replies.length = os.length → Fit replies → volume ≤ u128Max →
      collectVolume (List.zipWith Async.Job.outcome (trades params pool os) replies) volume =
        min (volume + tradedIn ((trades params pool os).map Async.Job.call) replies) u128Max := by
  induction os with
  | nil =>
    intro replies volume hlen hfit hvolume
    obtain rfl := List.eq_nil_of_length_eq_zero hlen
    simp [trades, collectVolume, tradedIn, hvolume]
  | cons o os ih =>
    intro replies volume hlen hfit hvolume
    obtain ⟨r, replies, rfl⟩ := List.exists_cons_of_length_eq_add_one hlen
    have hlen' : replies.length = os.length := by simpa using hlen
    simp only [trades, List.map_cons, List.zipWith_cons_cons, collectVolume, List.foldl_cons,
      tradedIn_cons]
    rcases outcome_volume { params with amount := o.1 } pool
      (hfit.output List.mem_cons_self) with ⟨n, hout, htraded⟩ | ⟨⟨e, hout⟩, -, htraded⟩
    · rw [hout, htraded]
      have hrest := ih hlen' hfit.tail (Nat.min_le_right (volume + o.1) u128Max)
      refine hrest.trans ?_
      show min (min (volume + o.1) u128Max + _) u128Max =
        min (volume + (o.1 + tradedIn ((trades params pool os).map Async.Job.call) replies)) u128Max
      omega
    · rw [hout, htraded, Nat.zero_add]
      exact ih hlen' hfit.tail hvolume

variable {xs : List (Async.Exchange Call Reply)}

/-- The last balance check does not fail. -/
theorem unfolds_closing {v : ℕ} {r : Handler ℕ}
    (h : Async.Unfolds ((checkIcpswapBalance host).attempt.bind fun _ => .ret v) xs r) :
    Swapless xs ∧ (∀ w, r = .ret w → w = v) ∧ ∀ e, r ≠ .fail e := by
  have hasks : ((checkIcpswapBalance host).attempt.bind fun _ => .ret v : Handler ℕ).Submits Asks :=
    .bind (.attempt (submits_checkIcpswapBalance host)) fun _ => Async.submits_ret v
  refine ⟨swapless_of_submits hasks h, ?_, ?_⟩
  · rintro w rfl
    obtain ⟨a, ys, zs, -, -, hlast⟩ := Async.unfolds_bind_ret h
    exact Async.ret.inj (Async.unfolds_ret.1 hlast).2
  · rintro e rfl
    rcases Async.unfolds_bind_fail h with hfail | ⟨a, ys, zs, -, -, hlast⟩
    · obtain ⟨p', -, heq⟩ := Async.unfolds_attempt hfail
      cases p' <;> cases heq
    · cases (Async.unfolds_ret.1 hlast).2

/-- Stage 2 adds what it has traded to the volume, if the replies are counted, or trades nothing. -/
theorem unfolds_stageTwo {split : Bool} {total volume : ℕ} (hvolume : volume ≤ u128Max)
    {q : ℕ → Handler ℕ} {r : Handler ℕ} (hr : r.Stops)
    (h : Async.Unfolds ((stageTwo params pool split total volume).bind q) xs r) :
    Async.Unfolds (q volume) xs r ∨ (xs = [] ∧ ∃ calls k, r = .call calls k) ∨
      ∃ calls rs ys, xs = ⟨calls, rs⟩ :: ys ∧ (∃ c ∈ calls, c.isSwap = true) ∧
        (Fit rs → (calls.length = 1 → ∀ r ∈ rs, r.Confirms) →
          Async.Unfolds (q (min (volume + tradedIn calls rs) u128Max)) ys r) := by
  unfold stageTwo at h
  cases split with
  | true =>
    simp only [if_true, Async.bind_eq, Async.bind_assoc] at h
    obtain ⟨env, henv⟩ := Async.unfolds_env_bind h hr
    split_ifs at henv with hos
    · exact Or.inl henv
    · rcases Async.unfolds_call.1 henv with ⟨rfl, rfl⟩ | ⟨rs, ys, hlen, rfl, hrest⟩
      · exact Or.inr (Or.inl ⟨rfl, _, _, rfl⟩)
      · refine Or.inr (Or.inr ⟨_, rs, ys, rfl, ?_, fun hfit _ => ?_⟩)
        · obtain ⟨o, os, ho⟩ := List.exists_cons_of_ne_nil (mt List.isEmpty_iff.2 hos)
          rw [ho]
          exact ⟨_, List.mem_cons_self, isSwap_trade⟩
        rw [← collectVolume_trades _ (by simpa [trades] using hlen) hfit hvolume]
        exact hrest
  | false =>
    simp only [Bool.false_eq_true, if_false] at h
    split_ifs at h with htotal
    · simp only [Async.bind_eq, Async.bind_assoc] at h
      rcases Async.unfolds_run_mapError_bind h with ⟨rfl, rfl⟩ | ⟨r₁, ys, rfl, hrest⟩
      · exact Or.inr (Or.inl ⟨rfl, _, _, Async.run_mapError_bind _ _ _⟩)
      · refine Or.inr (Or.inr ⟨_, _, ys, rfl, ⟨_, List.mem_cons_self, isSwap_trade⟩,
          fun hfit hconfirms => ?_⟩)
        have hone := hconfirms rfl r₁ List.mem_cons_self
        rcases outcome_volume { params with amount := total } pool
          (hfit.output List.mem_cons_self) with ⟨n, hout, htraded⟩ | ⟨-, hno, -⟩
        · rcases hrest with ⟨e, he, -, -⟩ | ⟨result, hresult, hq⟩
          · cases hout.symm.trans he
          · obtain rfl := Except.ok.inj (hout.symm.trans hresult)
            have hsum : tradedIn [(executeCallTradeNoSlippage { params with amount := total }
                pool).call] [r₁] = total := by
              rw [tradedIn_cons, htraded]
              rfl
            rw [hsum]
            exact hq
        · exact absurd hone hno
    · exact Or.inl h

/-- What follows stage 1, if the replies to stage 2 are counted. -/
theorem unfolds_afterStageOne {splitType : OrderSplitType} {volume : ℕ} {outputs : List ℕ}
    (hvolume : volume ≤ u128Max) {r : Handler ℕ} (hr : r.Stops)
    (hcounted : ∀ calls rs ys, xs = ⟨calls, rs⟩ :: ys → (∃ c ∈ calls, c.isSwap = true) →
      Fit rs ∧ (calls.length = 1 → ∀ r ∈ rs, r.Confirms))
    (h : Async.Unfolds (afterStageOne host params pool splitType volume outputs) xs r) :
    (∀ v, r = .ret v → v = min (volume + traded xs) u128Max) ∧ ∀ e, r ≠ .fail e := by
  -- the last balance check, with the volume of both stages
  have hclosing : ∀ {w : ℕ} (ys : List (Async.Exchange Call Reply))
      {zs : List (Async.Exchange Call Reply)},
      w = min (volume + traded ys) u128Max → xs = ys ++ zs →
        Async.Unfolds ((checkIcpswapBalance host).attempt.bind fun _ => .ret w) zs r →
          (∀ v, r = .ret v → v = min (volume + traded xs) u128Max) ∧ ∀ e, r ≠ .fail e := by
    rintro w ys zs hw rfl hzs
    obtain ⟨hswapless, hret, hfail⟩ := unfolds_closing hzs
    refine ⟨fun v hv => ?_, hfail⟩
    rw [traded_append, traded_of_swapless hswapless, hret v hv, hw, Nat.add_zero]
  unfold afterStageOne at h
  dsimp only at h
  split_ifs at h with hzero
  · exact hclosing [] (by simp [hvolume]) rfl h
  · rcases unfolds_stageTwo hvolume hr h with hq | ⟨rfl, calls, k, rfl⟩ |
      ⟨calls, rs, ys, rfl, hswaps, hq⟩
    · exact hclosing [] (by simp [hvolume]) rfl hq
    · exact ⟨nofun, nofun⟩
    · obtain ⟨hfit, hconfirms⟩ := hcounted calls rs ys rfl hswaps
      exact hclosing [⟨calls, rs⟩] (by simp) rfl (hq hfit hconfirms)

/-- The volume that the stages return is what was traded, if the replies are counted, and nothing
was traded if they fail. -/
theorem stages_volume {splitType : OrderSplitType} {split : Bool} {amounts : List ℕ}
    (hpos : 0 < amounts.sum) (hlt : amounts.sum < 2 ^ 128)
    {ws zs : List (Async.Exchange Call Reply)} (hws : Swapless ws) (hall : AllCounted (ws ++ zs))
    {r : Handler ℕ} (hr : r.Stops)
    (h : Async.Unfolds (stages host params pool splitType split amounts) zs r) :
    (∀ v, r = .ret v → v = min (traded zs) u128Max) ∧ ∀ e, r = .fail e → traded zs = 0 := by
  obtain ⟨sales, k, hstages, c, hc, hswap⟩ := stages_eq_call host params pool
    splitType split hpos hlt
  rcases stageOne_cases params pool split amounts with hnone |
    ⟨jobs, settle, hsettle, hsums, hjobs, hone⟩
  · unfold stages at hstages
    rw [hnone] at hstages
    cases hstages
  have hcall : stages host params pool splitType split amounts =
      .call (jobs.map Async.Job.call) fun rs => (Async.ofExcept (settle rs)).bind fun x =>
        afterStageOne host params pool splitType x.1 x.2 := by
    rw [stages, hone]
    rfl
  obtain rfl : jobs.map Async.Job.call = sales := by
    rw [hcall] at hstages
    exact (Async.call.inj hstages).1
  rw [hcall] at h
  rcases Async.unfolds_call.1 h with ⟨rfl, rfl⟩ | ⟨rs, ys, hlen, rfl, hrest⟩
  · exact ⟨nofun, nofun⟩
  obtain ⟨hfit, hstage, -⟩ := hall ws ⟨_, rs⟩ ys rfl ⟨c, hc, hswap⟩
  have hlen' : rs.length = jobs.length := by simpa using hlen
  cases houtputs : rs.mapM Reply.output? with
  | none =>
    obtain ⟨e, he⟩ := (hsettle rs hlen').2 houtputs
    rw [he] at hrest
    obtain ⟨rfl, rfl⟩ := Async.unfolds_fail.1 hrest
    refine ⟨nofun, fun _ _ => ?_⟩
    rcases hstage hws with hconfirms | hno
    · obtain ⟨outputs, hsome⟩ := hfit.outputs hconfirms
      exact nomatch houtputs.symm.trans hsome
    · simp [tradedIn_of_no_confirms hno]
  | some outputs =>
    obtain ⟨volume, hsettled⟩ := (hsettle rs hlen').1 outputs houtputs
    rw [hsettled] at hrest
    have hne : rs ≠ [] := by
      rintro rfl
      rw [List.eq_nil_of_length_eq_zero hlen.symm] at hc
      cases hc
    have hsold : tradedIn (jobs.map Async.Job.call) rs = sold (jobs.map Async.Job.call) := by
      rcases hstage hws with hconfirms | hno
      · exact tradedIn_of_confirms hlen hconfirms
      · exact nomatch houtputs.symm.trans (outputs_of_no_confirms hne hno)
    obtain rfl := hsums rs volume outputs hlen' hsettled
    -- the exchanges after stage 1
    have hcounted : ∀ calls rs' ys', ys = ⟨calls, rs'⟩ :: ys' →
        (∃ c ∈ calls, c.isSwap = true) → Fit rs' ∧
          (calls.length = 1 → ∀ r ∈ rs', r.Confirms) := by
      rintro calls rs' ys' rfl hswaps
      obtain ⟨hfit', -, hsingle⟩ := hall (ws ++ [⟨jobs.map Async.Job.call, rs⟩])
        ⟨calls, rs'⟩ ys' (by simp) hswaps
      refine ⟨hfit', hsingle fun hno => ?_⟩
      have hfalse := hno ⟨jobs.map Async.Job.call, rs⟩ (by simp) c hc
      rw [hswap] at hfalse
      cases hfalse
    obtain ⟨hret, hfail⟩ := unfolds_afterStageOne (Nat.min_le_right _ _) hr hcounted hrest
    refine ⟨fun v hv => ?_, fun e he => absurd he (hfail e)⟩
    rw [hret v hv, traded_cons, hsold]
    omega

/-- The volume that an execution reports is what it has traded, if the replies are counted, and it
has traded nothing if it reports none. -/
theorem executionTrades_volume {r : Handler (Option ℕ)} (hr : r.Stops) (hall : AllCounted xs)
    (h : Async.Unfolds (executionTrades host) xs r) :
    (∀ v, r = .ret (some v) → v = min (traded xs) u128Max) ∧
      (r = .ret none → traded xs = 0) ∧ ∀ e, r = .fail e → traded xs = 0 := by
  cases unfolds_executionTrades h hr with
  | asks few swapless volume calls goes =>
    have hzero := traded_of_swapless swapless
    exact ⟨fun v hv => absurd hv (volume v), fun _ => hzero, fun _ _ => hzero⟩
  | lost e two swapless lost =>
    have hzero := traded_of_swapless swapless
    exact ⟨nofun, nofun, fun _ _ => hzero⟩
  | @trades ws zs calls reply two swapless found params pool splitType split amounts pos lt p stops
      g unfolds =>
    have hall' : AllCounted ((ws ++ [⟨calls, [reply]⟩]) ++ zs) := by simpa using hall
    obtain ⟨hret, hfail⟩ := stages_volume pos lt swapless hall' stops unfolds
    have htraded : traded (ws ++ ⟨calls, [reply]⟩ :: zs) = traded zs := by
      have hzero := traded_of_swapless swapless
      rw [List.append_cons, traded_append, hzero, Nat.zero_add]
    rw [htraded]
    cases p with
    | ret v =>
      refine ⟨fun w hw => ?_, nofun, nofun⟩
      obtain rfl := Option.some.inj (Async.ret.inj hw)
      exact hret v rfl
    | fail e => exact ⟨nofun, nofun, fun _ _ => hfail e rfl⟩
    | access f k => exact stops.elim
    | call calls k => exact ⟨nofun, nofun, nofun⟩

end SelfHedging

/-! ## The volume of the state -/

/-- What an execution has traded. -/
def Flight.traded (f : Flight) : ℕ :=
  if f.message.isExecution then HunterFi.traded f.exchanges else 0

/-- The event is an upgrade. -/
def CanisterEvent.isUpgrade : CanisterEvent → Bool
  | upgrade => true
  | _ => false

/-- The configuration that an initialisation brings. -/
def CanisterEvent.config? : CanisterEvent → Option SelfHedgingConfig
  | message _ (.initSelfHedging _ config) => some config
  | _ => none

namespace Log

variable {host : Host} {l l' : Log} {e : CanisterEvent} {s : Segment}

/-- What the executions have traded that have ended or were dropped. -/
def settled (l : Log) : ℕ :=
  ((l.finished.map Finished.flight ++ l.dropped).map Flight.traded).sum

/-- What the executions have traded. -/
def traded (l : Log) : ℕ :=
  l.settled + (l.pending.map fun x => x.flight.traded).sum

/-- While no execution waits, the volume of the state is what was traded. -/
def ReportsTraded (l : Log) : Prop :=
  l.executing = 0 → l.traded < 2 ^ 128 → l.memory.state.volumeGenerated = l.traded

/-- The replies to an execution are counted, an upgrade finds nothing traded by an execution that
waits, and an initialisation finds no volume. -/
def Counts (host : Host) (l : Log) (e : CanisterEvent) : Prop :=
  (e.isUpgrade = true → ∀ x ∈ l.pending, x.flight.traded = 0) ∧
    (∀ config ∈ e.config?, l.memory.state.owner = .anonymous → config.Initialises →
      l.memory.state.volumeGenerated = 0) ∧
    ∀ s ∈ l.segment host e, s.flight.message.isExecution = true →
      ∀ x ∈ s.flight.exchanges.getLast?, Counted s.flight.exchanges.dropLast x

instance (host : Host) (l : Log) (e : CanisterEvent) : Decidable (Counts host l e) :=
  inferInstanceAs (Decidable ((_ → ∀ x ∈ l.pending, _) ∧ (∀ config ∈ e.config?, _ → _ → _) ∧
    ∀ s ∈ l.segment host e, _ → _))

/-- The replies to the executions that wait are counted, and the volume of the state is what the
others have traded. -/
structure Accounted (host : Host) (l : Log) : Prop where
  serial : l.Serial host
  counted : ∀ x ∈ l.pending, x.isExecution = true → AllCounted x.flight.exchanges
  volume : l.settled < 2 ^ 128 → l.memory.state.volumeGenerated = l.settled

theorem Accounted.reportsTraded (hl : l.Accounted host) : l.ReportsTraded := by
  intro hnone hlt
  have hzero : (l.pending.map fun x => x.flight.traded).sum = 0 := by
    refine List.sum_eq_zero fun n hn => ?_
    obtain ⟨x, hx, rfl⟩ := List.mem_map.1 hn
    exact if_neg (List.countP_eq_zero.1 hnone x hx)
  rw [traded, hzero, Nat.add_zero] at hlt ⊢
  exact hl.volume hlt

/-- A segment settles what its flight has traded, if it ends it. -/
theorem settled_land (l : Log) (s : Segment) :
    ((∃ calls k, s.result.2 = .calls calls k) ∧ (l.land s).settled = l.settled) ∨
      (∀ calls k, s.result.2 ≠ .calls calls k) ∧
        (l.land s).settled = s.flight.traded + l.settled := by
  unfold settled
  rw [dropped_land]
  obtain ⟨hcalls, heq⟩ | ⟨x, hx, heq⟩ := finished_land l s
  · exact Or.inl ⟨hcalls, by rw [heq]⟩
  · exact Or.inr ⟨hx.last, by rw [heq, List.map_cons, hx.flight]; rfl⟩

/-- The volume is that before, if the segment settles nothing. -/
theorem Accounted.volume_land (hl : l.Accounted host)
    (hvolume : s.result.1.state.volumeGenerated = l.memory.state.volumeGenerated)
    (hzero : (∀ calls k, s.result.2 ≠ .calls calls k) → s.flight.traded = 0) :
    (l.land s).settled < 2 ^ 128 →
      (l.land s).memory.state.volumeGenerated = (l.land s).settled := by
  rw [memory_land, hvolume]
  rcases settled_land l s with ⟨-, heq⟩ | ⟨hlast, heq⟩
  · rw [heq]
    exact hl.volume
  · rw [heq, hzero hlast, Nat.zero_add]
    exact hl.volume

/-- The replies to an execution are counted. -/
theorem Enters.allCounted (he : l.Enters host e s) (hl : l.Accounted host)
    (hcounts : Counts host l e) (hm : s.flight.message.isExecution = true) :
    AllCounted s.flight.exchanges := by
  have hlast := hcounts.2.2 s he.segment_eq hm
  cases he with
  | message env message hself => exact allCounted_nil
  | timer time cycles hlive => exact allCounted_nil
  | replies i time cycles replies x hx hlen =>
    simp only [Flight.exchanges_resumed] at hlast ⊢
    refine (hl.counted x (List.mem_of_getElem? hx) hm).snoc ?_
    simpa using hlast

/-- A segment of another message keeps the volume, or initialises the strategy. -/
theorem Enters.volume (he : l.Enters host e s) (hl : l.Accounted host)
    (hcounts : Counts host l e) (hm : s.flight.message.isExecution = false) :
    s.result.1.state.volumeGenerated = l.memory.state.volumeGenerated := by
  have htraced := hl.serial.sound.traced
  have heffect := he.effect htraced
  generalize hr : s.result = r at heffect
  cases heffect with
  | refused e message => rfl
  | rebalances r message memory => exact memory.sameTally.volume
  | inquires r message refused inquires => exact inquires.1.sameTally.volume
  | initialises owner config message blank valid =>
    obtain rfl := he.eq_message htraced rfl message nofun
    exact (hcounts.2.1 config rfl blank valid).symm
  | executes r m' volume flag message trades memory =>
    rw [message] at hm
    cases hm
  | _ => rfl

theorem Enters.accounted (he : l.Enters host e s) (hl : l.Accounted host)
    (hcounts : Counts host l e) : (l.land s).Accounted host := by
  refine ⟨he.serial hl.serial, fun x hx hone => ?_, ?_⟩
  · rcases mem_pending_land hx with hx | ⟨calls, k, -, rfl⟩
    · exact hl.counted x (he.others x hx) hone
    · exact he.allCounted hl hcounts hone
  · cases hm : s.flight.message.isExecution with
    | false =>
      refine hl.volume_land (he.volume hl hcounts hm) fun _ => ?_
      rw [Flight.traded, hm]
      rfl
    | true =>
      have htraded : s.flight.traded = HunterFi.traded s.flight.exchanges := if_pos hm
      cases he.executes hl.serial (Message.eq_of_isExecution hm) with
      | refused e first result outcome others =>
        refine hl.volume_land (by rw [result]) fun _ => ?_
        rw [htraded, Flight.exchanges, first]
        rfl
      | goes p unfolds outcome guards alone cooled =>
        have hall := he.allCounted hl hcounts hm
        have htally := (trades_segment unfolds s.flight.env (withFlag true l.memory)).sameTally
        generalize hr : s.result = r at guards
        cases guards with
        | done volume h =>
          have hend := unfolds.trans (Async.unfolds_segment_done h)
          rw [List.append_nil] at hend
          obtain ⟨hsome, hnone, -⟩ := executionTrades_volume (r := .ret volume) trivial hall hend
          cases volume with
          | none =>
            refine hl.volume_land (by rw [hr]; exact htally.volume) fun _ => ?_
            rw [htraded, hnone rfl]
          | some v =>
            -- the execution reports what it has traded
            rcases settled_land l s with ⟨⟨calls, k, hcalls⟩, -⟩ | ⟨-, heq⟩
            · rw [hr] at hcalls
              cases hcalls
            · rw [memory_land, heq, hr, htraded]
              intro hlt
              have hv : v = HunterFi.traded s.flight.exchanges := by
                rw [hsome v rfl]
                unfold u128Max
                omega
              have hbefore := hl.volume (by omega)
              show wrappingAdd (p.segment _ _).1.state.volumeGenerated v = _
              rw [htally.volume, show (withFlag true l.memory).state = l.memory.state from rfl,
                hbefore, hv, wrappingAdd_of_lt (by omega), Nat.add_comm]
        | failed e h =>
          have hend := unfolds.trans (Async.unfolds_segment_failed h)
          rw [List.append_nil] at hend
          refine hl.volume_land (by rw [hr]; exact htally.volume) fun _ => ?_
          rw [htraded, (executionTrades_volume (r := .fail e) trivial hall hend).2.2 e rfl]
        | calls calls k h =>
          refine hl.volume_land (by rw [hr]; exact htally.volume) fun hlast => ?_
          exact absurd (by rw [hr]) (hlast calls _)

theorem upgraded_accounted (hl : l.Accounted host) (hcounts : Counts host l .upgrade) :
    l.upgraded.Accounted host := by
  refine ⟨step_serial (e := .upgrade) hl.serial rfl, fun _ hx => (nomatch hx), ?_⟩
  have hzero : (l.pending.map fun x => x.flight.traded).sum = 0 := by
    refine List.sum_eq_zero fun n hn => ?_
    obtain ⟨x, hx, rfl⟩ := List.mem_map.1 hn
    exact hcounts.1 rfl x hx
  have hsettled : l.upgraded.settled = l.settled := by
    simp only [settled, upgraded, List.map_append, List.sum_append, List.map_map] at hzero ⊢
    simp only [Function.comp_def, hzero, Nat.zero_add]
  rw [hsettled]
  exact hl.volume

/-- While no execution waits, the volume of the state is what was traded, in every run whose
replies are counted. -/
theorem reportsTraded_of_counts (host : Host) (es : List CanisterEvent)
    (h : Runs.Along (step host) (Counts host) (start .installed) es) :
    Runs.Throughout (step host) ReportsTraded (start .installed) es := by
  refine (Runs.throughout_of_along (P := Accounted host) (fun l e l' hl hcounts hs => ?_)
    ⟨serial_start Timers.tidy_initial rfl, fun _ hx => (nomatch hx), fun _ => rfl⟩ h).mono
    fun l hl => hl.reportsTraded
  rcases step_cases hs with ⟨rfl, rfl⟩ | ⟨s, he, rfl⟩
  · exact upgraded_accounted hl hcounts
  · exact he.accounted hl hcounts

/-- A strategy that is initialised and started, and then sells and buys back. -/
theorem reportsTraded_of_counts_executes : Runs.Throughout (step sampleHost) ReportsTraded
    (start .installed) (Sample.initialises :: Sample.startsAndExecutes) :=
  reportsTraded_of_counts sampleHost _ (by decide +kernel)

/-- An execution whose second stage is rejected has sold, and no volume is reported. -/
theorem not_reportsTraded_rejected : ¬Runs.Throughout (step sampleHost) ReportsTraded
    (start .installed) (Sample.initialises :: Sample.inquires ++ [Sample.approves, .timer 10 0,
      Sample.answers 0 11 Sample.poolFound, Sample.answers 0 12 Sample.balanceFound,
      Sample.answers 0 13 Sample.poolFound, Sample.answers 0 14 (Sample.swapped 300),
      Sample.answers 0 15 (.rejected .sysTransient "busy")]) := by
  refine Runs.not_throughout (p := fun l => l.executing = 0 && l.traded < 2 ^ 128 &&
    l.memory.state.volumeGenerated ≠ l.traded) (fun l hl h => ?_) (by decide +kernel)
  simp only [Bool.and_eq_true, decide_eq_true_eq] at hl
  exact hl.2 (h hl.1.1 hl.1.2)

end Log

end HunterFi
