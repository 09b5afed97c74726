import HunterFi.Requests
import Mathlib.Tactic.Ring

/-!
# The audit trail

A transaction is stored under an id made from `time()`, `caller()` and the id of the factory.
Two recordings at one time for one caller have one id, and the later one replaces the
earlier. This happens in one message : a request whose deployment fails at once records the
fee and the refund.

`Filed` is the invariant : the transactions are those of the journal, inserted in turn, each
under the id of its stamp. So the trail is complete exactly if the stamps are pairwise
different (`auditTrail_iff`).
-/

set_option linter.unusedSectionVars false

namespace HunterFi

/-! ## The trail -/

/-- The amount of a record, negative for a fee and a withdrawal. -/
def TransactionRecord.signed (r : TransactionRecord) : ℤ :=
  match r.transactionType with
  | .deposit => r.amount
  | .refund => r.amount
  | .adminAdjustment => r.amount
  | .deploymentFee => -r.amount
  | .withdrawal => -r.amount
  | .transfer => 0

/-- The signed sum of the records of a user. -/
def signedSum (user : Principal) (rs : List TransactionRecord) : ℤ :=
  ((rs.filter fun r => r.user = user).map TransactionRecord.signed).sum

/-- Nothing that was recorded is lost, and the records add up to the balance of each user
whose credits never saturated. -/
def AuditTrail (f : Factory) : Prop :=
  f.transactions.vals.Perm f.records ∧
    ∀ user, Movement.Unsaturated u64Max (movements user f.records) →
      signedSum user f.transactions.vals = f.balance user

/-- The callers and times at which transactions were recorded. -/
def stamps (f : Factory) : List (Principal × ℕ) :=
  f.journal.map fun p => (p.caller, p.record.timestamp)

/-- The transactions are those of the journal inserted in turn, under the ids of their stamps. -/
structure Filed (P : Platform) (f : Factory) : Prop where
  transactions : ∀ id, f.transactions.get? id =
    (KeyedMap.ofVals f.records : KeyedMap TransactionRecord.transactionId).get? id
  stamped : ∀ p ∈ f.journal, p.record.transactionId =
    stampId p.record.timestamp p.caller (Factory.hexEncode P.id.bytes)

theorem signedSum_eq (user : Principal) (rs : List TransactionRecord) :
    signedSum user rs = (Movement.credits (movements user rs) : ℤ) -
      Movement.debits (movements user rs) := by
  induction rs with
  | nil => simp [signedSum]
  | cons r rs ih =>
    have hsplit : movements user (r :: rs) = movements user [r] ++ movements user rs :=
      movements_append user [r] rs
    have hsum : signedSum user (r :: rs) = signedSum user [r] + signedSum user rs := by
      by_cases h : r.user = user <;> simp [signedSum, h]
    have hone : signedSum user [r] = (Movement.credits (movements user [r]) : ℤ) -
        Movement.debits (movements user [r]) := by
      by_cases h : r.user = user
      · cases hty : r.transactionType <;>
          simp [signedSum, movements, h, hty, TransactionRecord.signed, TransactionRecord.movement,
            Movement.credited, Movement.debited]
      · simp [signedSum, movements, h]
    rw [hsplit, hsum, hone, ih, Movement.credits_append, Movement.debits_append]
    push_cast
    ring

theorem signedSum_perm {user : Principal} {rs ss : List TransactionRecord} (h : rs.Perm ss) :
    signedSum user rs = signedSum user ss :=
  ((h.filter _).map _).sum_eq

namespace Filed

variable {P : Platform} {env : Env} {f g : Factory} {rs : List TransactionRecord}

/-- Segments keep the transactions filed. -/
theorem posts (h : Filed P f) (hp : Posts P env f rs g) : Filed P g := by
  refine ⟨fun id => ?_, fun p hpm => ?_⟩
  · rw [hp.transactions_eq, hp.records_eq, KeyedMap.ofVals, List.foldl_append]
    exact KeyedMap.get?_foldl_congr _ h.transactions id
  · rw [hp.journal_eq] at hpm
    rcases List.mem_append.1 hpm with hpm | hpm
    · exact h.stamped p hpm
    · obtain ⟨r, hr, rfl⟩ := List.mem_map.1 hpm
      obtain ⟨ht, hid⟩ := hp.stamped r hr
      rw [hid, ht]
      rfl

/-- Two recordings have one id exactly if they have one stamp. -/
theorem nodup_iff (h : Filed P f) :
    (f.records.map TransactionRecord.transactionId).Nodup ↔ (stamps f).Nodup := by
  rw [Factory.records, List.map_map, stamps, List.Nodup, List.Nodup, List.pairwise_map,
    List.pairwise_map]
  refine List.Pairwise.iff_of_mem fun {p q} hp hq => not_congr ?_
  rw [Function.comp_apply, Function.comp_apply, h.stamped p hp, h.stamped q hq, Prod.mk.injEq]
  constructor
  · intro heq
    obtain ⟨ht, hc⟩ := stampId_inj heq
    exact ⟨hc, ht⟩
  · rintro ⟨hc, ht⟩
    rw [hc, ht]

/-- The trail is complete exactly if no two recordings were made at one time for one caller. -/
theorem complete_iff (h : Filed P f) (hk : Kept f) : AuditTrail f ↔ (stamps f).Nodup := by
  have hperm : f.transactions.vals.Perm f.records ↔ (stamps f).Nodup := by
    rw [← h.nodup_iff, ← KeyedMap.ofVals_vals_perm_iff]
    exact (KeyedMap.vals_perm_of_get?_eq h.transactions).congr_left f.records
  refine ⟨fun ht => hperm.1 ht.1, fun hn => ⟨hperm.2 hn, fun user hs => ?_⟩⟩
  have hbal := Movement.replay_add_debits (hk.covered user) hs
  rw [signedSum_perm (hperm.2 hn), signedSum_eq, hk.balance_eq]
  omega

end Filed

/-! ## Runs -/

namespace World

theorem filed_start (P : Platform) (env : Env) (ledger : Ledger) :
    Filed P (start env ledger).factory :=
  ⟨fun _ => rfl, fun _ hp => by cases hp⟩

/-- The audit trail is complete in every state of a run exactly if in the run no two
transactions are recorded at one `time()` for one `caller()`. -/
theorem auditTrail_iff (P : Platform) (L : LedgerRule) (env : Env) (ledger : Ledger)
    (es : List Event) :
    Runs.Throughout (step P L) (fun w => AuditTrail w.factory) (start env ledger) es ↔
      Runs.Throughout (step P L) (fun w => (stamps w.factory).Nodup) (start env ledger) es := by
  have hinv : Runs.Throughout (step P L)
      (fun w => w.Sound ∧ Filed P w.factory ∧ Kept w.factory) (start env ledger) es := by
    refine Runs.throughout_of_step ?_ es
      ⟨sound_start env ledger, filed_start P env ledger, kept_start env ledger⟩
    rintro w e w' ⟨hsound, hfiled, hkept⟩ hstep
    have hd := step_deploys hsound hstep
    obtain ⟨env', rs, hposts⟩ := hd.posts
    exact ⟨hd.sound hsound, hfiled.posts hposts, hposts.kept hkept⟩
  exact hinv.congr fun w h => h.2.1.complete_iff h.2.2

/-- The fee and the refund of a request that finds too few cycles. -/
def refundedAtOnce : List Event :=
  [.adjustBalance (Sample.message 1 Sample.admin) Sample.user 200000000 "initial balance",
    .requestStrategy ⟨2, Sample.user, 0⟩ (.selfHedging Sample.config)]

/-- Three transactions were recorded and two are stored. -/
theorem not_auditTrail_refundedAtOnce :
    ¬Runs.Throughout Sample.step (fun w => AuditTrail w.factory) Sample.world refundedAtOnce := by
  refine Runs.not_throughout (p := fun w => decide (w.factory.transactions.vals.length ≠
    w.factory.records.length)) (fun w h ht => ?_) (by decide +kernel)
  exact absurd ht.1.length_eq (of_decide_eq_true h)

end World

end HunterFi
