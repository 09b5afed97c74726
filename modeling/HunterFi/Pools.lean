import HunterFi.TokenOrder

/-!
# The tokens of a pool

`get_pool_canister` asks for the pool of two tokens in the order of their texts, and the pool tells
of its tokens in that order. `get_pool_info` takes their canister ids from the pool, but their
symbols and decimals from its own arguments in the order that these are in : `labelled_iff` says
when they fit.
-/

set_option linter.unusedSectionVars false

namespace HunterFi

namespace Icpswap

open SelfHedging

variable {host : Host} {a b : TokenInfo} {data : IcpSwapPoolData} {pool : PoolInfo}

/-! ## Labels -/

/-- A pool with the symbols and the decimals of two tokens. -/
def relabel (base quote : TokenInfo) (pool : PoolInfo) : PoolInfo :=
  { pool with
    token0 := { pool.token0 with symbol := base.symbol, decimals := base.decimals }
    token1 := { pool.token1 with symbol := quote.symbol, decimals := quote.decimals } }

/-- What `get_pool_info` reads of a pool, or the error, does not depend on the two tokens. Only the
labels do. -/
theorem poolInfo_cases (host : Host) (data : IcpSwapPoolData) :
    (∃ e, ∀ a b, poolInfo host a b data = .error e) ∨
      ∃ pool, host.principalFromText data.token0.address = .ok pool.token0.canisterId ∧
        host.principalFromText data.token1.address = .ok pool.token1.canisterId ∧
        ∀ a b, poolInfo host a b data = .ok (relabel a b pool) := by
  unfold poolInfo
  simp only [bind, Except.bind, pure, Except.pure]
  cases h0 : parseToken host "token0" data.token0.address with
  | error e => exact Or.inl ⟨e, fun _ _ => rfl⟩
  | ok token0 =>
    cases h1 : parseToken host "token1" data.token1.address with
    | error e => exact Or.inl ⟨e, fun _ _ => rfl⟩
    | ok token1 =>
      cases stringToTokenStandard data.token0.standard with
      | error e => exact Or.inl ⟨e, fun _ _ => rfl⟩
      | ok standard0 =>
        cases stringToTokenStandard data.token1.standard with
        | error e => exact Or.inl ⟨e, fun _ _ => rfl⟩
        | ok standard1 =>
          cases toU64 "pool fee" data.fee with
          | error e => exact Or.inl ⟨e, fun _ _ => rfl⟩
          | ok fee =>
            refine Or.inr ⟨⟨data.canisterId, ⟨token0, "", 0, standard0⟩,
              ⟨token1, "", 0, standard1⟩, fee⟩, ?_, ?_, fun _ _ => rfl⟩
            · exact (parseToken_eq_ok "token0").1 h0
            · exact (parseToken_eq_ok "token1").1 h1

/-- The pool's addresses are the ids of two tokens, in the order of their texts. -/
structure SortedAddresses (a b : TokenInfo) (data : IcpSwapPoolData) : Prop where
  lt : data.token0.address < data.token1.address
  ids : (data.token0.address = a.canisterId.toText ∧ data.token1.address = b.canisterId.toText) ∨
    data.token0.address = b.canisterId.toText ∧ data.token1.address = a.canisterId.toText

/-- The token `t` carries the symbol and the decimals of the one of `a` and `b` that has its
canister id. -/
def Labelled (a b t : TokenInfo) : Prop :=
  ∃ c, (c = a ∨ c = b) ∧ t.canisterId = c.canisterId ∧ t.symbol = c.symbol ∧
    t.decimals = c.decimals

/-- Both orders of `a` and `b` have the same outcome, and if it is a pool its tokens carry the
labels of those that they are. -/
structure DescribesTokens (host : Host) (a b : TokenInfo) (r : Reply) : Prop where
  same : (getPoolInfo host a b).outcome r = (getPoolInfo host b a).outcome r
  labelled : ∀ pool, (getPoolInfo host a b).outcome r = .ok pool →
    Labelled a b pool.token0 ∧ Labelled a b pool.token1

theorem outcome_getPoolInfo (host : Host) (a b : TokenInfo) (data : IcpSwapPoolData) :
    (getPoolInfo host a b).outcome (.pool (.ok data)) = poolInfo host a b data := by
  rw [getPoolInfo]
  simp only [Async.Job.outcome_andThen]
  rw [outcome_getPoolCanister.2 rfl]
  rfl

/-- The labels are right exactly if `a` comes first, or if they are the same anyway. -/
theorem labelled_iff (hsorted : SortedAddresses a b data)
    (ha : host.principalFromText a.canisterId.toText = .ok a.canisterId)
    (hb : host.principalFromText b.canisterId.toText = .ok b.canisterId)
    (h0 : host.principalFromText data.token0.address = .ok pool.token0.canisterId)
    (h1 : host.principalFromText data.token1.address = .ok pool.token1.canisterId) :
    Labelled a b (relabel a b pool).token0 ∧ Labelled a b (relabel a b pool).token1 ↔
      isZeroForOne a b = true ∨ (a.symbol = b.symbol ∧ a.decimals = b.decimals) := by
  have hlt := hsorted.lt
  rcases hsorted.ids with ⟨heq0, heq1⟩ | ⟨heq0, heq1⟩
  · rw [heq0, ha] at h0
    rw [heq1, hb] at h1
    rw [heq0, heq1] at hlt
    refine iff_of_true ⟨⟨a, Or.inl rfl, ?_, rfl, rfl⟩, ⟨b, Or.inr rfl, ?_, rfl, rfl⟩⟩
      (Or.inl (decide_eq_true hlt))
    · exact (Except.ok.inj h0).symm
    · exact (Except.ok.inj h1).symm
  · rw [heq0, hb] at h0
    rw [heq1, ha] at h1
    rw [heq0, heq1] at hlt
    have hlast : isZeroForOne a b = false := decide_eq_false hlt.not_gt
    have hne : b.canisterId ≠ a.canisterId := fun heq => hlt.ne (congrArg Principal.toText heq)
    rw [hlast]
    constructor
    · rintro ⟨⟨c, rfl | rfl, hid, hsymbol, hdecimals⟩, -⟩
      · exact absurd ((Except.ok.inj h0).trans hid) hne
      · exact Or.inr ⟨hsymbol, hdecimals⟩
    · rintro (hfirst | ⟨hsymbol, hdecimals⟩)
      · cases hfirst
      · refine ⟨⟨b, Or.inr rfl, ?_, hsymbol, hdecimals⟩,
          ⟨a, Or.inl rfl, ?_, hsymbol.symm, hdecimals.symm⟩⟩
        · exact (Except.ok.inj h0).symm
        · exact (Except.ok.inj h1).symm

/-- Where the pool can be read, its tokens are described right exactly if the two have the same
symbol and decimals. Where it cannot, both orders fail with one error. -/
theorem describesTokens_iff (host : Host) {a b : TokenInfo} {data : IcpSwapPoolData}
    (hsorted : SortedAddresses a b data)
    (ha : host.principalFromText a.canisterId.toText = .ok a.canisterId)
    (hb : host.principalFromText b.canisterId.toText = .ok b.canisterId) :
    DescribesTokens host a b (.pool (.ok data)) ↔
      ¬Readable host data ∨ (a.symbol = b.symbol ∧ a.decimals = b.decimals) := by
  rw [← poolInfo_ok_iff a b]
  rcases poolInfo_cases host data with ⟨e, herror⟩ | ⟨pool, h0, h1, hpool⟩
  · refine iff_of_true ⟨?_, fun pool hok => ?_⟩ (Or.inl ?_)
    · rw [outcome_getPoolInfo, outcome_getPoolInfo, herror, herror]
    · rw [outcome_getPoolInfo, herror] at hok
      cases hok
    · rintro ⟨pool, hok⟩
      rw [herror] at hok
      cases hok
  · have hread : ∃ pool, poolInfo host a b data = .ok pool := ⟨_, hpool a b⟩
    rw [or_iff_right (not_not_intro hread)]
    constructor
    · intro h
      have hsame := h.same
      rw [outcome_getPoolInfo, outcome_getPoolInfo, hpool, hpool] at hsame
      have hpools := Except.ok.inj hsame
      exact ⟨congrArg (fun pool => pool.token0.symbol) hpools,
        congrArg (fun pool => pool.token0.decimals) hpools⟩
    · intro hlabels
      have hsame : relabel a b pool = relabel b a pool := by
        unfold relabel
        rw [hlabels.1, hlabels.2]
      refine ⟨?_, fun pool' hok => ?_⟩
      · rw [outcome_getPoolInfo, outcome_getPoolInfo, hpool, hpool, hsame]
      · rw [outcome_getPoolInfo, hpool] at hok
        obtain rfl := Except.ok.inj hok
        exact (labelled_iff hsorted ha hb h0 h1).2 (Or.inr hlabels)

/-! ## Two pairs -/

/-- A token of eight decimals. -/
def sampleIcp : TokenInfo :=
  ⟨Sample.icp, "ICP", 8, .icrc1⟩

/-- A token of six. -/
def sampleCkUsdc : TokenInfo :=
  ⟨Sample.ckUsdc, "ckUSDC", 6, .icrc1⟩

/-- The pool of the two. -/
def sampleData : IcpSwapPoolData :=
  ⟨3000, ⟨Sample.icp.toText, "ICRC1"⟩, ⟨Sample.ckUsdc.toText, "ICRC1"⟩, samplePool⟩

theorem icp_lt_ckUsdc : Sample.icp.toText < Sample.ckUsdc.toText := by decide +kernel

theorem principalFromText_icp :
    sampleHost.principalFromText Sample.icp.toText = .ok Sample.icp := by
  decide +kernel

theorem principalFromText_ckUsdc :
    sampleHost.principalFromText Sample.ckUsdc.toText = .ok Sample.ckUsdc := by
  decide +kernel

/-- Two tokens of one name and with the same decimals. -/
theorem describesTokens_sample :
    DescribesTokens sampleHost sampleIcp { sampleIcp with canisterId := Sample.ckUsdc }
      (.pool (.ok sampleData)) := by
  have hsorted : SortedAddresses sampleIcp { sampleIcp with canisterId := Sample.ckUsdc }
      sampleData := ⟨icp_lt_ckUsdc, Or.inl ⟨rfl, rfl⟩⟩
  exact (describesTokens_iff sampleHost hsorted principalFromText_icp principalFromText_ckUsdc).2
    (Or.inr ⟨rfl, rfl⟩)

theorem poolInfo_sampleData (base quote : TokenInfo) :
    poolInfo sampleHost base quote sampleData = .ok ⟨samplePool,
      ⟨Sample.icp, base.symbol, base.decimals, .icrc1⟩,
      ⟨Sample.ckUsdc, quote.symbol, quote.decimals, .icrc1⟩, 3000⟩ := by
  have h0 := (parseToken_eq_ok "token0").2 principalFromText_icp
  have h1 := (parseToken_eq_ok "token1").2 principalFromText_ckUsdc
  unfold poolInfo sampleData
  simp only [h0, h1, bind, Except.bind]
  rfl

/-- Asked with the tokens the other way round, `get_pool_info` gives ICP the six decimals of
ckUSDC. -/
theorem not_describesTokens_sample : SortedAddresses sampleIcp sampleCkUsdc sampleData ∧
    (getPoolInfo sampleHost sampleCkUsdc sampleIcp).outcome (.pool (.ok sampleData)) =
      .ok ⟨samplePool, ⟨Sample.icp, "ckUSDC", 6, .icrc1⟩, ⟨Sample.ckUsdc, "ICP", 8, .icrc1⟩, 3000⟩ ∧
    ¬DescribesTokens sampleHost sampleIcp sampleCkUsdc (.pool (.ok sampleData)) := by
  refine ⟨⟨icp_lt_ckUsdc, Or.inl ⟨rfl, rfl⟩⟩, ?_, fun h => ?_⟩
  · rw [outcome_getPoolInfo, poolInfo_sampleData]
    rfl
  · have hsame := h.same
    rw [outcome_getPoolInfo, outcome_getPoolInfo, poolInfo_sampleData, poolInfo_sampleData] at hsame
    have hdecimals : 8 = 6 := congrArg (fun pool => pool.token0.decimals) (Except.ok.inj hsame)
    exact absurd hdecimals (by decide)

end Icpswap

end HunterFi
