import HunterFi.Sequences
import HunterFi.System

/-!
# What a user is told of their transactions

The cache holds the newest 1000 records (`transactionCache_recorded`), and the history of a user
is the first 100 of theirs among these, so the newest ones are not in it. `showsNewest_iff` :
they are, exactly if there are at most 100, or the records of the user repeat so that the first
100 read as the last 100. Without repetitions only the number matters
(`showsNewest_iff_of_nodup`).
-/

set_option linter.unusedSectionVars false

namespace HunterFi

namespace Factory

/-- The state once the records are stored, in this order. -/
def recorded (records : List TransactionRecord) : Factory :=
  records.foldl storeTransactionRecord initial

/-- The records of the user among the newest ones that fit into the cache. -/
def recentRecords (records : List TransactionRecord) (user : Principal) : List TransactionRecord :=
  (records.rtake initial.maxCacheSize).filter fun r => r.user = user

/-- The user is told the newest of their recent records, and so the one that was just stored. -/
structure ShowsNewest (records : List TransactionRecord) (user : Principal) : Prop where
  newest : Api.getTransactionHistory (recorded records) user =
    (recentRecords records user).rtake maxTransactionQueryLimit
  last : ∀ earlier r, records = earlier ++ [r] → r.user = user →
    r ∈ Api.getTransactionHistory (recorded records) user

/-! ## The cache -/

theorem foldl_storeTransactionRecord (records : List TransactionRecord) :
    ∀ f : Factory, (records.foldl storeTransactionRecord f).transactionCache =
      records.foldl (Sequences.enqueue f.maxCacheSize) f.transactionCache := by
  induction records with
  | nil => exact fun f => rfl
  | cons r records ih => exact fun f => ih (f.storeTransactionRecord r)

/-- The cache holds the newest records. -/
theorem transactionCache_recorded (records : List TransactionRecord) :
    (recorded records).transactionCache = records.rtake initial.maxCacheSize := by
  rw [recorded, foldl_storeTransactionRecord, Sequences.foldl_enqueue records (Nat.zero_le _)]
  rfl

theorem getUserTransactionRecords_recorded (records : List TransactionRecord) (user : Principal) :
    (recorded records).getUserTransactionRecords user = recentRecords records user := by
  rw [getUserTransactionRecords, transactionCache_recorded]
  rfl

/-! ## The history -/

/-- The history is the beginning of the cached records of the user. -/
theorem getTransactionHistory_eq_take (f : Factory) (user : Principal) :
    Api.getTransactionHistory f user =
      (f.getUserTransactionRecords user).take maxTransactionQueryLimit := by
  unfold Api.getTransactionHistory
  dsimp only
  split_ifs with h
  · rfl
  · exact (List.take_of_length_le (Nat.le_of_not_lt h)).symm

/-- A record of the user that was just stored is the last of their recent ones. -/
theorem recentRecords_append (earlier : List TransactionRecord) (r : TransactionRecord) :
    ∃ before, recentRecords (earlier ++ [r]) r.user = before ++ [r] := by
  have hsize : initial.maxCacheSize = 999 + 1 := rfl
  have hcache : (earlier ++ [r]).rtake initial.maxCacheSize = earlier.rtake 999 ++ [r] := by
    rw [hsize, List.rtake_concat_succ]
  refine ⟨(earlier.rtake 999).filter fun s => s.user = r.user, ?_⟩
  rw [recentRecords, hcache, List.filter_append, List.filter_cons_of_pos (by simp),
    List.filter_nil]

theorem mem_rtake_recentRecords {earlier : List TransactionRecord} {r : TransactionRecord} :
    r ∈ (recentRecords (earlier ++ [r]) r.user).rtake maxTransactionQueryLimit := by
  obtain ⟨before, h⟩ := recentRecords_append earlier r
  rw [h]
  exact Sequences.mem_rtake_append_singleton (by decide) before r

/-- The first 100 of the recent records of a user are the newest exactly if there are no more than
100, or if what comes 100 from the end on reads as the beginning. -/
theorem showsNewest_iff (records : List TransactionRecord) (user : Principal) :
    ShowsNewest records user ↔
      (recentRecords records user).length ≤ maxTransactionQueryLimit ∨
        ∀ i < maxTransactionQueryLimit, (recentRecords records user)[i]? =
          (recentRecords records user)[(recentRecords records user).length -
            maxTransactionQueryLimit + i]? := by
  have hhistory : Api.getTransactionHistory (recorded records) user =
      (recentRecords records user).take maxTransactionQueryLimit := by
    rw [getTransactionHistory_eq_take, getUserTransactionRecords_recorded]
  constructor
  · intro h
    exact Or.inr ((Sequences.take_eq_rtake_iff _ _).1 (hhistory.symm.trans h.newest))
  · intro h
    have hnewest : Api.getTransactionHistory (recorded records) user =
        (recentRecords records user).rtake maxTransactionQueryLimit := by
      rw [hhistory]
      rcases h with hfew | hrepeat
      · rw [List.take_of_length_le hfew, Sequences.rtake_eq_self hfew]
      · exact (Sequences.take_eq_rtake_iff _ _).2 hrepeat
    refine ⟨hnewest, ?_⟩
    rintro earlier r rfl rfl
    rw [hnewest]
    exact mem_rtake_recentRecords

/-- If no two records are the same, the newest are shown exactly as long as there are at most
100. -/
theorem showsNewest_iff_of_nodup {records : List TransactionRecord} (h : records.Nodup)
    (user : Principal) : ShowsNewest records user ↔
      (recentRecords records user).length ≤ maxTransactionQueryLimit := by
  rw [showsNewest_iff, or_iff_left_of_imp]
  intro hrepeat
  have hnodup : (recentRecords records user).Nodup := (h.sublist (List.drop_sublist _ _)).filter _
  by_contra hmany
  have h0 := hrepeat 0 (by decide)
  rw [List.getElem?_inj (by omega) hnodup] at h0
  omega

/-- A deposit. -/
def sampleDeposit (amount : ℕ) : TransactionRecord where
  transactionId := toString amount
  user := Sample.user
  amount := amount
  transactionType := .deposit
  timestamp := amount
  description := "deposit"

/-- The last of 101 deposits is not in the history. -/
theorem not_showsNewest_deposits :
    ¬ShowsNewest ((List.range 101).map sampleDeposit) Sample.user := by
  intro h
  have hlast := h.last ((List.range 100).map sampleDeposit) (sampleDeposit 100)
    (by rw [List.range_succ, List.map_append]; rfl) rfl
  revert hlast
  decide +kernel

end Factory

end HunterFi
