import HunterFi.Account
import HunterFi.Api
import HunterFi.Upgrade

/-!
# The books

Every change of a balance comes with a transaction record. `Posts P env f rs g` says that a
segment leads from `f` to `g` by crediting and debiting accounts, each time with a record,
and otherwise leaves accounts, transactions and journal alone ; `rs` are its records. Each
function that moves money is shown to be of this kind.

A record is a `Movement` on the account of its user, so an account has a history. `Kept` is
the invariant of the books : each balance is the replay of its history, in which every debit
was covered. `Posts.kept` says that segments preserve it.
-/

set_option linter.unusedSectionVars false

namespace HunterFi

/-! ## Records as movements -/

/-- What a record says of the balance of its user. -/
def TransactionRecord.movement (r : TransactionRecord) : Option Movement :=
  match r.transactionType with
  | .deposit => some (.credit r.amount)
  | .refund => some (.credit r.amount)
  | .adminAdjustment => some (.credit r.amount)
  | .deploymentFee => some (.debit r.amount)
  | .withdrawal => some (.debit r.amount)
  | .transfer => none

/-- The history of an account in a list of records. -/
def movements (user : Principal) (rs : List TransactionRecord) : List Movement :=
  (rs.filter fun r => r.user = user).filterMap TransactionRecord.movement

@[simp] theorem movements_nil (user : Principal) : movements user [] = [] :=
  rfl

@[simp] theorem movements_append (user : Principal) (rs ss : List TransactionRecord) :
    movements user (rs ++ ss) = movements user rs ++ movements user ss := by
  simp [movements]

theorem movements_singleton {user : Principal} {r : TransactionRecord} {m : Movement}
    (h : r.movement = some m) : movements user [r] = if r.user = user then [m] else [] := by
  unfold movements
  split_ifs with hu
  · simp [hu, h]
  · simp [hu]

/-- The records of the journal, oldest first. -/
def Factory.records (f : Factory) : List TransactionRecord :=
  f.journal.map Posting.record

/-! ## Segments that keep books -/

/-- A segment leads from `f` to `g` by movements that are all recorded, as `rs`. -/
inductive Posts (P : Platform) (env : Env) : Factory → List TransactionRecord → Factory → Prop
  | idle {f g : Factory} (accounts : ∀ u, g.userAccounts.get? u = f.userAccounts.get? u)
      (transactions : ∀ id, g.transactions.get? id = f.transactions.get? id)
      (journal : g.journal = f.journal) : Posts P env f [] g
  | credit (f : Factory) (user : Principal) (amount : ℕ) (ty : TransactionType)
      (description : String)
      (movement : (Factory.newTransaction P env user amount ty description).movement =
        some (.credit amount)) :
      Posts P env f [Factory.newTransaction P env user amount ty description]
        ((f.credit env user amount).post P env user amount ty description)
  | debit (f : Factory) (user : Principal) (amount : ℕ) (ty : TransactionType)
      (description : String) (covered : amount ≤ f.balance user)
      (movement : (Factory.newTransaction P env user amount ty description).movement =
        some (.debit amount)) :
      Posts P env f [Factory.newTransaction P env user amount ty description]
        ((f.debit user amount).post P env user amount ty description)
  | trans {f g h : Factory} {rs ss : List TransactionRecord} (hfg : Posts P env f rs g)
      (hgh : Posts P env g ss h) : Posts P env f (rs ++ ss) h

namespace Posts

variable {P : Platform} {env : Env} {f g h : Factory} {rs ss : List TransactionRecord}

theorem refl (f : Factory) : Posts P env f [] f :=
  idle (fun _ => rfl) (fun _ => rfl) rfl

/-- A segment that goes on without touching the books. -/
theorem then_idle (hfg : Posts P env f rs g)
    (accounts : ∀ u, h.userAccounts.get? u = g.userAccounts.get? u)
    (transactions : ∀ id, h.transactions.get? id = g.transactions.get? id)
    (journal : h.journal = g.journal) : Posts P env f rs h := by
  simpa using hfg.trans (idle accounts transactions journal)

theorem journal_eq (hp : Posts P env f rs g) :
    g.journal = f.journal ++ rs.map fun r => ⟨env.caller, r⟩ := by
  induction hp with
  | idle _ _ journal => simpa using journal
  | credit => rfl
  | debit => rfl
  | trans _ _ ihf ihg => rw [ihg, ihf, List.map_append, List.append_assoc]

theorem records_eq (hp : Posts P env f rs g) : g.records = f.records ++ rs := by
  rw [Factory.records, hp.journal_eq, List.map_append, List.map_map, Factory.records]
  simp [Function.comp_def]

/-- The records of a segment carry its time and the id made from its time and its caller. -/
theorem stamped (hp : Posts P env f rs g) :
    ∀ r ∈ rs, r.timestamp = env.time ∧ r.transactionId = Factory.generateTransactionId P env := by
  induction hp with
  | idle => simp
  | credit => simp [Factory.newTransaction]
  | debit => simp [Factory.newTransaction]
  | trans _ _ ihf ihg =>
    intro r hr
    rcases List.mem_append.1 hr with hr | hr
    · exact ihf r hr
    · exact ihg r hr

/-- The transactions of `g` are those of `f` with the records inserted in turn. -/
theorem transactions_eq (hp : Posts P env f rs g) :
    ∀ id, g.transactions.get? id = (rs.foldl KeyedMap.insert f.transactions).get? id := by
  induction hp with
  | idle _ transactions _ => exact transactions
  | credit => exact fun _ => rfl
  | debit => exact fun _ => rfl
  | trans _ _ ihf ihg =>
    intro id
    rw [ihg, List.foldl_append]
    exact KeyedMap.get?_foldl_congr _ ihf id

end Posts

/-! ## The invariant of the books -/

/-- Each balance is the replay of the recorded history, and every debit in it was covered. -/
structure Kept (f : Factory) : Prop where
  balance_eq : ∀ user, f.balance user = Movement.replay u64Max (movements user f.records)
  covered : ∀ user, Movement.Covered u64Max (movements user f.records)

theorem balance_eq_of_accounts {f g : Factory}
    (h : ∀ u, g.userAccounts.get? u = f.userAccounts.get? u) (user : Principal) :
    g.balance user = f.balance user := by
  rw [Factory.balance, Factory.getUserAccount, h]
  rfl

namespace Posts

variable {P : Platform} {env : Env} {f g : Factory} {rs : List TransactionRecord}

/-- A segment moves the balance of each user by the movements it records. -/
theorem balance_eq (hp : Posts P env f rs g) (user : Principal) :
    g.balance user = (movements user rs).foldl (Movement.apply u64Max) (f.balance user) := by
  induction hp with
  | idle accounts _ _ => exact balance_eq_of_accounts accounts user
  | credit f u amount ty description movement =>
    rw [Factory.balance_post, Factory.balance_credit, movements_singleton movement,
      Factory.user_newTransaction]
    by_cases h : u = user
    · subst h
      rw [if_pos rfl, if_pos rfl]
      rfl
    · rw [if_neg (Ne.symm h), if_neg h]
      rfl
  | debit f u amount ty description _ movement =>
    rw [Factory.balance_post, Factory.balance_debit, movements_singleton movement,
      Factory.user_newTransaction]
    by_cases h : u = user
    · subst h
      rw [if_pos rfl, if_pos rfl]
      rfl
    · rw [if_neg (Ne.symm h), if_neg h]
      rfl
  | trans _ _ ihf ihg => rw [ihg, ihf, movements_append, List.foldl_append]

/-- The account of a user without a movement is left as it is. -/
theorem account_eq (hp : Posts P env f rs g) {user : Principal} (h : movements user rs = []) :
    g.userAccounts.get? user = f.userAccounts.get? user := by
  induction hp with
  | idle accounts _ _ => exact accounts user
  | credit f u amount ty description movement =>
    rw [movements_singleton movement, Factory.user_newTransaction] at h
    split_ifs at h with hu
    exact f.get?_credit_of_ne env u amount (Ne.symm hu)
  | debit f u amount ty description _ movement =>
    rw [movements_singleton movement, Factory.user_newTransaction] at h
    split_ifs at h with hu
    exact f.get?_debit_of_ne u amount (Ne.symm hu)
  | trans _ _ ihf ihg =>
    rw [movements_append] at h
    obtain ⟨hf, hg⟩ := List.append_eq_nil_iff.1 h
    rw [ihg hg, ihf hf]

/-- The history of an account after one more record. -/
theorem covered_snoc {r : TransactionRecord} {m : Movement} (hk : Kept f) (hr : r.movement = some m)
    (hm : m.debited ≤ f.balance r.user) (user : Principal) :
    Movement.Covered u64Max (movements user (f.records ++ [r])) := by
  rw [movements_append, movements_singleton hr]
  split_ifs with h
  · subst h
    exact (hk.covered _).snoc (hk.balance_eq _ ▸ hm)
  · rw [List.append_nil]
    exact hk.covered user

/-- Segments keep the books. -/
theorem kept (hp : Posts P env f rs g) (hk : Kept f) : Kept g := by
  have hbal : ∀ {f g rs}, Posts P env f rs g → Kept f → ∀ user,
      g.balance user = Movement.replay u64Max (movements user g.records) := by
    intro f g rs hp hk user
    rw [hp.balance_eq, hp.records_eq, hk.balance_eq, movements_append, Movement.replay_append]
  induction hp with
  | @idle f g accounts transactions journal =>
    refine ⟨hbal (idle accounts transactions journal) hk, fun user => ?_⟩
    rw [Factory.records, journal]
    exact hk.covered user
  | credit f user amount ty description movement =>
    have hp := Posts.credit f user amount ty description movement
    refine ⟨hbal hp hk, fun u => ?_⟩
    rw [hp.records_eq]
    exact covered_snoc hk movement (Nat.zero_le _) u
  | debit f user amount ty description covered movement =>
    have hp := Posts.debit f user amount ty description covered movement
    refine ⟨hbal hp hk, fun u => ?_⟩
    rw [hp.records_eq]
    exact covered_snoc hk movement covered u
  | trans _ _ ihf ihg => exact ihg (ihf hk)

end Posts

end HunterFi
