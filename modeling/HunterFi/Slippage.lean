import HunterFi.Binary64
import HunterFi.Custody

/-!
# What a slippage tolerance is worth

`minimumOut` computes in `f64` what a tolerance leaves of a quote. `minimumOut_asks` says what it is
in numbers : a tolerance that passes the validation is a percentage `t` between 0 and 100, and the
least output is the quote less `t` percent but for an error of `quoted / 2 ^ 49` and the truncation.
It is not above the quote if that has at most 53 bits. The comparisons that validate a tolerance let
a NaN pass, and then nothing is asked of the swap.

`Remembers` ties the stage of a trade to what was said before it, and `executeTrade_slippage`
follows from it for whole conversations : with pools that honour what a swap asks for, a trade that
succeeds has brought its quote less the tolerance.
-/

set_option linter.unusedSectionVars false

namespace HunterFi

open Binary64 Float.Model Float.Model.UnpackedFloat

namespace F64

/-- The value of a number that is finite. -/
def value? (x : F64) : Option ℚ :=
  Binary64.value? x.toModel

/-- A number between 0 and 100 by the order of the patterns is one by its value. -/
theorem value?_of_percent {x : F64} (hnan : x.isNaN = false) (h0 : x.lt .zero = false)
    (h100 : hundred.lt x = false) : ∃ t, x.value? = some t ∧ 0 ≤ t ∧ t ≤ 100 := by
  have hlower : 0 ≤ x.order := by
    simpa [lt, hnan, show zero.isNaN = false from rfl, show zero.order = 0 from rfl] using h0
  have hupper : x.order ≤ 0x4059000000000000 := by
    simpa [lt, hnan, show hundred.isNaN = false from rfl,
      show hundred.order = 0x4059000000000000 from rfl] using h100
  have hmagnitude : x.magnitude ≤ 0x4059000000000000 ∧
      (x.bits.toNat < 2 ^ 63 ∨ x.magnitude = 0) := by
    unfold order at hlower hupper
    split_ifs at hlower hupper with hsign
    · exact ⟨by omega, Or.inl hsign⟩
    · exact ⟨by omega, Or.inr (by omega)⟩
  have hfinite : x.bits.toNat % 2 ^ 63 < 0x7FF0000000000000 :=
    hmagnitude.1.trans_lt (by norm_num)
  have hvalue : x.value? = some ((units x.magnitude : ℚ) * 2 ^ (-1074 : ℤ)) := by
    refine (congrArg toRat? (unpack_ofBits _)).trans ((toRat?_unpack hfinite).trans ?_)
    refine congrArg (fun z : ℤ => some ((z : ℚ) * 2 ^ (-1074 : ℤ))) ?_
    show (Sign.ofBitVec (@unpackSign .binary64 x.bits)).apply (units x.magnitude) = _
    rcases hmagnitude.2 with hsign | hzero
    · have hpositive : @unpackSign .binary64 x.bits = 0#1 := BitVec.eq_of_toNat_eq (by
        rw [toNat_unpackSign]
        simp
        omega)
      rw [hpositive]
      rfl
    · rw [hzero]
      cases Sign.ofBitVec (@unpackSign .binary64 x.bits) <;> rfl
  refine ⟨_, hvalue, mul_nonneg (Nat.cast_nonneg _) (zpow_nonneg two_pos.le _), ?_⟩
  refine (units_mul_le (k := 1028) (m := 0x9000000000000) (by norm_num)
    hmagnitude.1).trans ?_
  norm_num

end F64

namespace Icpswap

variable {quoted : ℕ} {slippage : F64} {t : ℚ}

/-- What the tolerance leaves of an amount, as it is computed. -/
theorem remainder_near (ht : slippage.value? = some t) (h0 : 0 ≤ t) (h100 : t ≤ 100) :
    ∃ b, Binary64.value? (.ofNat 1 - slippage.toModel / .ofNat 100) = some b ∧ 0 ≤ b ∧ b ≤ 1 ∧
      |b - (1 - t / 100)| ≤ 1 / 2 ^ 51 := by
  have hone : Representable 1 := by
    simpa using representable_natCast (n := 1) (by norm_num)
  have hquotient : t / 100 ≤ 1 := (div_le_one (by norm_num)).2 h100
  obtain ⟨a, ha, hnear⟩ := div_near ht (value?_ofNat (n := 100) (by norm_num)) h0 (by norm_num)
    (moderate_of_le_one (by exact_mod_cast hquotient))
  rw [Nat.cast_ofNat] at hnear
  have ha0 := hnear.nonneg (by positivity)
  have ha1 := hnear.le_of_le hone hquotient
  obtain ⟨b, hb, hnear'⟩ := sub_near (value?_ofNat (n := 1) (by norm_num)) ha ha0
    (by exact_mod_cast ha1) (moderate_of_le_one (by rw [Nat.cast_one]; linarith))
  rw [Nat.cast_one] at hnear'
  have herror := hnear.abs_sub_le (k := -52) (by norm_num) (by positivity)
    (by simpa using hquotient)
  have herror' := hnear'.abs_sub_le (k := -52) (by norm_num) (by linarith)
    (by simpa using ha0)
  refine ⟨b, hb, hnear'.nonneg (by linarith), hnear'.le_of_le hone (by linarith), ?_⟩
  calc |b - (1 - t / 100)| = |(b - (1 - a)) - (a - t / 100)| := by
        congr 1
        ring
    _ ≤ |b - (1 - a)| + |a - t / 100| := abs_sub _ _
    _ ≤ 2 ^ (-52 : ℤ) + 2 ^ (-52 : ℤ) := add_le_add herror' herror
    _ = 1 / 2 ^ 51 := by norm_num

/-- The product of a quote and what the tolerance leaves of it, before it is truncated. -/
theorem minimumOut_eq (hq : quoted ≤ u128Max) (ht : slippage.value? = some t) (h0 : 0 ≤ t)
    (h100 : t ≤ 100) : ∃ v : ℚ, minimumOut quoted slippage = min u128Max ⌊v⌋₊ ∧ 0 ≤ v ∧
      (quoted ≤ 2 ^ 53 → v ≤ quoted) ∧ |v - quoted * (1 - t / 100)| ≤ quoted / 2 ^ 49 := by
  obtain ⟨b, hb, hb0, hb1, hremainder⟩ := remainder_near ht h0 h100
  have hlarge : (quoted : ℚ) ≤ 2 ^ 128 := by
    exact_mod_cast hq.trans (Nat.sub_le _ _)
  obtain ⟨a, ha, hnear⟩ := ofNat_near (moderate_of_le hlarge)
  have ha0 := hnear.nonneg (Nat.cast_nonneg quoted)
  have ha128 : a ≤ 2 ^ 128 := by
    have := hnear.le_of_le (representable_zpow (k := 128) (by norm_num)) (by exact_mod_cast hlarge)
    exact_mod_cast this
  have hle : a * b ≤ a := mul_le_of_le_one_right ha0 hb1
  obtain ⟨v, hv, hnear'⟩ := mul_near ha hb ha0 hb0 (moderate_of_le (hle.trans ha128))
  have hv0 := hnear'.nonneg (mul_nonneg ha0 hb0)
  refine ⟨v, ?_, hv0, fun hsmall => ?_, ?_⟩
  · unfold minimumOut asU128
    rw [toInt_eq_floor (canonical_of_value? hv) hv hv0]
    rfl
  · have hexact := hnear.eq_self (representable_natCast hsmall)
    exact hnear'.le_of_le (representable_natCast hsmall) (hexact ▸ hle)
  · rcases Nat.eq_zero_or_pos quoted with rfl | hpos
    · have hzero : a = 0 := by
        simpa using hnear.eq_self (representable_natCast (n := 0) (by norm_num))
      have hv1 : v = 0 := by
        rw [hzero, zero_mul] at hnear'
        simpa using hnear'.eq_self (by simpa using representable_natCast (n := 0) (by norm_num))
      simp [hv1]
    · have hlog : (quoted : ℚ) ≤ 2 ^ (quoted.log2 + 1) := by
        exact_mod_cast Nat.lt_log2_self.le
      have hatop : a ≤ 2 ^ (quoted.log2 + 1) := by
        rw [← zpow_natCast] at hlog ⊢
        exact hnear.le_of_le (representable_zpow (by omega)) hlog
      have ha1 := hnear.abs_sub_le_div hpos.ne' (Nat.cast_nonneg _) hlog
      have hv1 := hnear'.abs_sub_le_div hpos.ne' (mul_nonneg ha0 hb0) (hle.trans hatop)
      have hq0 : (0 : ℚ) ≤ quoted := Nat.cast_nonneg quoted
      calc |v - quoted * (1 - t / 100)|
          = |(v - a * b) + (a - quoted) * b + quoted * (b - (1 - t / 100))| := by
            congr 1
            ring
        _ ≤ |v - a * b| + |(a - quoted) * b| + |quoted * (b - (1 - t / 100))| :=
            abs_add_three _ _ _
        _ = |v - a * b| + |a - quoted| * b + quoted * |b - (1 - t / 100)| := by
            rw [abs_mul, abs_mul, abs_of_nonneg hb0, abs_of_nonneg hq0]
        _ ≤ quoted / 2 ^ 51 + quoted / 2 ^ 51 * 1 + quoted * (1 / 2 ^ 51) := by
            gcongr
        _ ≤ quoted / 2 ^ 49 := by
            norm_num
            linarith

theorem minimumOut_of_isNaN (h : slippage.isNaN = true) : minimumOut quoted slippage = 0 := by
  have hpattern : UnpackedFloat.unpack .binary64 slippage.bits = .notANumber :=
    unpack_notANumber (of_decide_eq_true h)
  have hmodel : slippage.toModel.unpack = .notANumber := (unpack_ofBits _).trans hpattern
  have hproduct := mul_of_notANumber (f := .ofNat quoted)
    (sub_of_notANumber (f := .ofNat 1) (div_of_notANumber (g := .ofNat 100) hmodel))
  unfold minimumOut asU128
  rw [hproduct]
  rfl

/-- The output is at least the quote less `t` percent, up to the rounding of `f64` and one unit. -/
def Tolerates (t : ℚ) (quoted output : ℕ) : Prop :=
  quoted * (1 - t / 100) - quoted / 2 ^ 49 - 1 < output

/-- What a tolerance asks of a swap : nothing if it is not a number, and otherwise what its
percentage leaves of the quote. -/
inductive Asks (slippage : F64) (quoted least : ℕ) : Prop
  | nothing (nan : slippage.isNaN = true) (least_eq : least = 0)
  | most (t : ℚ) (value : slippage.value? = some t) (nonneg : 0 ≤ t) (le : t ≤ 100)
    (tolerates : Tolerates t quoted least)
    (least_le : (least : ℚ) ≤ quoted * (1 - t / 100) + quoted / 2 ^ 49)
    (le_quoted : quoted ≤ 2 ^ 53 → least ≤ quoted)

theorem validateTradeParams_slippage {env : Env} {params : TradeRequest}
    (h : validateTradeParams env params = .ok ()) :
    params.slippageTolerance.lt .zero = false ∧
      F64.hundred.lt params.slippageTolerance = false := by
  rw [← Bool.or_eq_false_iff]
  by_contra hrange
  rw [Bool.not_eq_false] at hrange
  unfold validateTradeParams at h
  simp only [hrange, if_true] at h
  by_cases hamount : params.amount = 0 <;> simp [hamount] at h <;> cases h

/-- What a validated trade asks of its swap. -/
theorem minimumOut_asks {env : Env} {params : TradeRequest}
    (h : validateTradeParams env params = .ok ()) (hq : quoted ≤ u128Max) :
    Asks params.slippageTolerance quoted (minimumOut quoted params.slippageTolerance) := by
  cases hnan : params.slippageTolerance.isNaN with
  | true => exact .nothing hnan (minimumOut_of_isNaN hnan)
  | false =>
    obtain ⟨h0, h100⟩ := validateTradeParams_slippage h
    obtain ⟨t, ht, ht0, ht100⟩ := F64.value?_of_percent hnan h0 h100
    obtain ⟨v, hleast, hv0, hv, herror⟩ := minimumOut_eq hq ht ht0 ht100
    have herror' := abs_le.1 herror
    have hfloor : (minimumOut quoted params.slippageTolerance : ℚ) ≤ v := by
      rw [hleast]
      exact (Nat.cast_le.2 (min_le_right _ _)).trans (Nat.floor_le hv0)
    refine .most t ht ht0 ht100 ?_ (by linarith) fun hsmall => ?_
    · unfold Tolerates
      rw [hleast, Nat.cast_min, lt_min_iff]
      have hq0 : (0 : ℚ) ≤ quoted := Nat.cast_nonneg quoted
      have hpart : (quoted : ℚ) * (1 - t / 100) ≤ quoted :=
        mul_le_of_le_one_right hq0 (by linarith)
      have hmax : (quoted : ℚ) ≤ u128Max := by exact_mod_cast hq
      have hnext := Nat.lt_floor_add_one v
      constructor <;> linarith [div_nonneg hq0 (by norm_num : (0 : ℚ) ≤ 2 ^ 49)]
    · exact_mod_cast hfloor.trans (hv hsmall)

/-- Sells 100000 of one token for another with a tolerance of 0.5 percent. -/
def halfPercent : TradeRequest where
  baseToken := ⟨Sample.icp, "ICP", 8, .icrc1⟩
  quoteToken := ⟨Sample.ckUsdc, "ckUSDC", 6, .icrc2⟩
  direction := .sell
  amount := 100000
  slippageTolerance := ⟨0x3FE0000000000000⟩
  deadlineSecs := none

theorem minimumOut_asks_halfPercent :
    Asks halfPercent.slippageTolerance 1000 (minimumOut 1000 halfPercent.slippageTolerance) :=
  minimumOut_asks (show validateTradeParams default halfPercent = .ok () from rfl) (by decide)

example : minimumOut 1000 halfPercent.slippageTolerance = 995 := by decide +kernel

/-- Past 53 bits a quote may be rounded up, and without a tolerance the swap asks for more. -/
example : minimumOut (2 ^ 53 + 3) .zero = 2 ^ 53 + 4 := by decide +kernel

/-! ## In a trade -/

variable {params : TradeRequest}

/-- The pool has quoted `q`, which fits in a `u128`. -/
def Quoted (params : TradeRequest) (said : List (TradeCall × TradeReply)) (pool : Principal)
    (q : ℕ) : Prop :=
  q ≤ u128Max ∧ ∃ r, (.quote pool (quoteArgs params), r) ∈ said ∧ r.confirmed? = some q

/-- The pool has swapped for `n`, when it was asked for what the tolerance leaves of `q`. -/
def Swapped (params : TradeRequest) (said : List (TradeCall × TradeReply)) (pool : Principal)
    (q n : ℕ) : Prop :=
  ∃ r, (.connector (.swap pool (swapArgs params q)), r) ∈ said ∧ r.confirmed? = some n

/-- What a stage remembers of what was said. -/
def Remembers (params : TradeRequest) (said : List (TradeCall × TradeReply)) : TradeStage → Prop
  | .start | .found _ => True
  | .quoted pool q | .sent pool q | .approved pool q | .deposited pool q =>
    Quoted params said pool q
  | .swapped pool n => ∃ q, Quoted params said pool q ∧ Swapped params said pool q n
  | .withdrawn n => ∃ pool q, Quoted params said pool q ∧ Swapped params said pool q n

variable {said said' : List (TradeCall × TradeReply)} {stage : TradeStage}

theorem Quoted.mono {pool : Principal} {q : ℕ} (h : Quoted params said pool q)
    (hsub : said ⊆ said') : Quoted params said' pool q :=
  ⟨h.1, h.2.imp fun _ hr => ⟨hsub hr.1, hr.2⟩⟩

theorem Swapped.mono {pool : Principal} {q n : ℕ} (h : Swapped params said pool q n)
    (hsub : said ⊆ said') : Swapped params said' pool q n :=
  h.imp fun _ hr => ⟨hsub hr.1, hr.2⟩

theorem Remembers.mono (h : Remembers params said stage) (hsub : said ⊆ said') :
    Remembers params said' stage := by
  cases stage with
  | start | found => exact h
  | quoted | sent | approved | deposited => exact Quoted.mono h hsub
  | swapped => exact h.imp fun _ hq => ⟨hq.1.mono hsub, hq.2.mono hsub⟩
  | withdrawn => exact h.imp fun _ => .imp fun _ hq => ⟨hq.1.mono hsub, hq.2.mono hsub⟩

theorem remembers_reach {call : TradeCall} {r : TradeReply} {next : TradeStage}
    (h : Remembers params said stage)
    (hnext : Ticket.reach params stage call r = some (some next)) :
    Remembers params (said ++ [(call, r)]) next := by
  have hmono := h.mono (List.subset_append_left said [(call, r)])
  have hmem : (call, r) ∈ said ++ [(call, r)] := by simp
  unfold Ticket.reach at hnext
  split at hnext
  case h_9 => cases hnext
  all_goals
    obtain ⟨hcall, hv⟩ := Option.ite_none_right_eq_some.1 hnext
    replace hv := Option.some.inj hv
  case h_2 =>
    obtain ⟨q, hq, rfl⟩ := Option.map_eq_some_iff.1 hv
    obtain ⟨hq, hle⟩ := Option.filter_eq_some_iff.1 hq
    exact ⟨of_decide_eq_true hle, r, hcall ▸ hmem, hq⟩
  case h_7 q =>
    obtain ⟨n, hn, rfl⟩ := Option.map_eq_some_iff.1 hv
    exact ⟨q, hmono, r, hcall ▸ hmem, hn⟩
  case h_3 | h_4 =>
    obtain ⟨-, hs⟩ := Option.ite_none_right_eq_some.1 hv
    cases hs
    exact hmono
  case h_5 | h_6 =>
    obtain ⟨_, -, rfl⟩ := Option.map_eq_some_iff.1 hv
    exact hmono
  case h_8 pool _ =>
    obtain ⟨_, -, rfl⟩ := Option.map_eq_some_iff.1 hv
    exact ⟨pool, hmono⟩
  case h_1 =>
    obtain ⟨_, -, rfl⟩ := Option.map_eq_some_iff.1 hv
    trivial

theorem remembers_run (xs : List (TradeCall × TradeReply)) : ∀ {said} {t t' : Ticket},
    Remembers params said t.stage → Runs.run (Ticket.step params) t xs = some t' →
      Remembers params (said ++ xs) t'.stage := by
  induction xs with
  | nil =>
    rintro said t t' h hr
    obtain rfl : t = t' := by simpa using hr
    simpa using h
  | cons x xs ih =>
    intro said t t' h hr
    obtain ⟨u, hu, hr⟩ := Runs.run_cons_eq_some.1 hr
    rw [List.append_cons]
    refine ih ?_ hr
    unfold Ticket.step Ticket.stepBy at hu
    split_ifs at hu
    obtain ⟨v, hv, rfl⟩ := Option.map_eq_some_iff.1 hu
    cases v with
    | none => exact h.mono (List.subset_append_left said [x])
    | some next => exact remembers_reach h hv

variable (peer : Async.Peer Env Unit TradeCall TradeReply) (log : List (TradeCall × TradeReply))

/-- No swap brings less than it was asked to. -/
def Honours (peer : Async.Peer Env Unit TradeCall TradeReply) : Prop :=
  ∀ log pool args least n, args.amountOutMinimum = toString least →
    (peer.answer log (.connector (.swap pool args))).confirmed? = some n → least ≤ n

/-- A trade that has succeeded was validated. -/
theorem validated_of_executeTrade {receipt : TradeReceipt}
    (h : (session peer log params).result = .ok receipt) :
    validateTradeParams (peer.env log) params = .ok () := by
  obtain ⟨k, hk⟩ : ∃ k : Unit → Trade TradeReceipt,
      Async.talkTo peer log (executeTrade params) = Async.talkTo peer log
        ((Async.ofExcept (validateTradeParams (peer.env log) params)).bind k) := ⟨_, rfl⟩
  cases hvalid : validateTradeParams (peer.env log) params with
  | ok _ => rfl
  | error e =>
    rw [hvalid] at hk
    have hresult : (session peer log params).result = .error e := congrArg Prod.snd hk
    exact nomatch hresult.symm.trans h

/-- An output that is as much as a validated trade asks for. -/
theorem tolerates_of_minimumOut_le {env : Env} {n : ℕ}
    (h : validateTradeParams env params = .ok ()) (hq : quoted ≤ u128Max)
    (hle : minimumOut quoted params.slippageTolerance ≤ n) :
    params.slippageTolerance.isNaN = true ∨ ∃ t, params.slippageTolerance.value? = some t ∧
      0 ≤ t ∧ t ≤ 100 ∧ Tolerates t quoted n := by
  cases minimumOut_asks h hq with
  | nothing nan => exact Or.inl nan
  | most t value nonneg le tolerates =>
    exact Or.inr ⟨t, value, nonneg, le, tolerates.trans_le (by exact_mod_cast hle)⟩

/-- `execute_trade` against pools that honour what a swap asks for : a trade that succeeds has
brought its quote but for the tolerance, unless the tolerance is not a number. -/
theorem executeTrade_slippage (hpeer : Honours peer) {receipt : TradeReceipt}
    (h : (session peer log params).result = .ok receipt) :
    ∃ pool q, Quoted params (session peer log params).said pool q ∧
      Swapped params (session peer log params).said pool q receipt.outputAmount ∧
      (params.slippageTolerance.isNaN = true ∨ ∃ t, params.slippageTolerance.value? = some t ∧
        0 ≤ t ∧ t ≤ 100 ∧ Tolerates t q receipt.outputAmount) := by
  obtain ⟨t, hrun, hok, -⟩ := session_sound peer log params
  have hstart : Remembers params [] Ticket.start.stage := trivial
  have hremembers := remembers_run _ hstart hrun
  rw [(hok receipt h).1] at hremembers
  obtain ⟨pool, q, hquoted, r, hmem, hr⟩ := hremembers
  obtain ⟨log', hanswer⟩ := Async.answered_talkTo peer _ log _ hmem
  have hleast : minimumOut q params.slippageTolerance ≤ receipt.outputAmount :=
    hpeer log' pool (swapArgs params q) _ _ rfl (hanswer ▸ hr)
  exact ⟨pool, q, hquoted, ⟨r, hmem, hr⟩,
    tolerates_of_minimumOut_le (validated_of_executeTrade peer log h) hquoted.1 hleast⟩

/-- A pool that quotes 1000 and brings 996 if it is asked for 995. -/
def exchange : Async.Peer Env Unit TradeCall TradeReply where
  env := fun _ => default
  state := fun _ => ()
  answer := fun _ call => match call with
    | .connector (.getPool _ _) =>
      .connector (.pool (.ok ⟨3000, default, default, SelfHedging.samplePool⟩))
    | .quote _ _ => .connector (.amount (.ok 1000))
    | .icrc1Transfer _ _ => .transferred (.ok 1)
    | .connector (.swap _ args) =>
      .connector (.amount (if args.amountOutMinimum = "995" then .ok 996 else .error .commonError))
    | _ => .connector (.amount (.ok 0))

theorem exchange_honours : Honours exchange := by
  intro log pool args least n hleast h
  unfold exchange TradeReply.confirmed? TradeReply.toReply at h
  dsimp only at h
  split_ifs at h with hargs
  · obtain rfl : 996 = n := Option.some.inj h
    have hleast' : least = 995 := toString_nat_injective (hleast.symm.trans hargs)
    omega

theorem executeTrade_slippage_halfPercent :
    ∃ pool q, Quoted halfPercent (session exchange [] halfPercent).said pool q ∧
      Swapped halfPercent (session exchange [] halfPercent).said pool q 996 ∧
      (halfPercent.slippageTolerance.isNaN = true ∨
        ∃ t, halfPercent.slippageTolerance.value? = some t ∧ 0 ≤ t ∧ t ≤ 100 ∧
          Tolerates t q 996) := by
  have hok : (session exchange [] halfPercent).result =
      .ok (receipt default halfPercent SelfHedging.samplePool 3000 996) := by
    decide +kernel
  exact executeTrade_slippage exchange [] exchange_honours hok

end Icpswap

end HunterFi
