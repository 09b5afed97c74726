import Mathlib.Algebra.BigOperators.Group.List.Basic
import Mathlib.Data.List.Infix
import Mathlib.Algebra.GroupWithZero.Nat

/-!
# Accounts with a capped balance

An account is replayed from its history of movements. A credit adds to the balance and
saturates at `cap`, a debit subtracts and is `Covered` if the balance it finds is enough.

`replay_add_debits_le` : with every debit covered, the balance and what was debited are at
most what was credited. `replay_add_debits` : with no prefix crediting past the cap they are
equal, so the balance is the signed sum of the history. `replay_add_debits_eq_gained` : the
balance and the debits are always what the credits did add.

An account with `Totals` also counts what it was credited and debited, and these saturate too.
`Totals.balance_add_consumed` : while the credits are at most the cap, the balance and the one
count are the other.
-/

/-- A movement on an account. -/
inductive Movement
  | credit (n : ℕ)
  | debit (n : ℕ)
  deriving DecidableEq

namespace Movement

/-- The balance after a movement, credits saturating at `cap`. -/
def apply (cap : ℕ) : ℕ → Movement → ℕ
  | b, credit n => min (b + n) cap
  | b, debit n => b - n

/-- What a movement credits. -/
def credited : Movement → ℕ
  | credit n => n
  | debit _ => 0

/-- What a movement debits. -/
def debited : Movement → ℕ
  | credit _ => 0
  | debit n => n

/-- The balance after a history of movements. -/
def replay (cap : ℕ) (ms : List Movement) : ℕ :=
  ms.foldl (apply cap) 0

/-- What a history credits. -/
def credits (ms : List Movement) : ℕ :=
  (ms.map credited).sum

/-- What the credits of a history add to the balance. -/
def gained (cap : ℕ) : List Movement → ℕ :=
  go 0
where
  /-- What they add from a balance on. -/
  go : ℕ → List Movement → ℕ
    | _, [] => 0
    | b, credit n :: ms => (min (b + n) cap - b) + go (min (b + n) cap) ms
    | b, debit n :: ms => go (b - n) ms

/-- What a history debits. -/
def debits (ms : List Movement) : ℕ :=
  (ms.map debited).sum

/-- Every debit of the history finds the balance it takes. -/
def Covered (cap : ℕ) (ms : List Movement) : Prop :=
  ∀ pre n post, ms = pre ++ debit n :: post → n ≤ replay cap pre

/-- No credit of the history saturates : the signed sum never passes the cap. -/
def Unsaturated (cap : ℕ) (ms : List Movement) : Prop :=
  ∀ pre, pre <+: ms → credits pre ≤ cap + debits pre

variable {cap : ℕ} {ms : List Movement}

@[simp] theorem replay_nil : replay cap [] = 0 :=
  rfl

@[simp] theorem credits_nil : credits [] = 0 :=
  rfl

@[simp] theorem debits_nil : debits [] = 0 :=
  rfl

theorem replay_append (ms ns : List Movement) :
    replay cap (ms ++ ns) = ns.foldl (apply cap) (replay cap ms) :=
  List.foldl_append

@[simp] theorem replay_snoc (m : Movement) :
    replay cap (ms ++ [m]) = apply cap (replay cap ms) m := by
  rw [replay_append, List.foldl_cons, List.foldl_nil]

@[simp] theorem credits_append (ms ns : List Movement) :
    credits (ms ++ ns) = credits ms + credits ns := by
  simp [credits]

@[simp] theorem debits_append (ms ns : List Movement) :
    debits (ms ++ ns) = debits ms + debits ns := by
  simp [debits]

@[simp] theorem credits_singleton (m : Movement) : credits [m] = m.credited := by
  simp [credits]

@[simp] theorem debits_singleton (m : Movement) : debits [m] = m.debited := by
  simp [debits]

theorem covered_nil : Covered cap [] := by
  intro pre n post h
  simp at h

theorem gained_go_append (ns : List Movement) (b : ℕ) :
    gained.go cap b (ms ++ ns) =
      gained.go cap b ms + gained.go cap (ms.foldl (apply cap) b) ns := by
  induction ms generalizing b with
  | nil => simp [gained.go]
  | cons m ms ih =>
    cases m with
    | credit n => simp only [List.cons_append, gained.go, ih, List.foldl_cons, apply]; omega
    | debit n => simp only [List.cons_append, gained.go, ih, List.foldl_cons, apply]

/-- The last movement is covered if it is a credit, or a debit of at most the balance. -/
theorem Covered.snoc {m : Movement} (h : Covered cap ms) (hm : m.debited ≤ replay cap ms) :
    Covered cap (ms ++ [m]) := by
  intro pre n post he
  rcases List.eq_nil_or_concat post with rfl | ⟨post', y, rfl⟩
  · obtain ⟨rfl, hmn⟩ := List.append_inj' he rfl
    obtain rfl := List.singleton_inj.1 hmn
    exact hm
  · have he' : ms ++ [m] = (pre ++ debit n :: post') ++ [y] := by simpa using he
    exact h pre n post' (List.append_inj' he' rfl).1

theorem Unsaturated.of_prefix {ns : List Movement} (h : Unsaturated cap ms) (hp : ns <+: ms) :
    Unsaturated cap ns :=
  fun pre hpre => h pre (hpre.trans hp)

theorem Covered.of_append {ns : List Movement} (h : Covered cap (ms ++ ns)) : Covered cap ms := by
  rintro pre n post rfl
  exact h pre n (post ++ ns) (by simp)

theorem Covered.last {n : ℕ} (h : Covered cap (ms ++ [debit n])) : n ≤ replay cap ms :=
  h ms n [] rfl

/-- The balance never passes the cap. -/
theorem replay_le_cap : replay cap ms ≤ cap := by
  induction ms using List.reverseRecOn with
  | nil => simp
  | append_singleton ms m ih =>
    cases m with
    | credit n => simp only [replay_snoc, apply]; omega
    | debit n => simp only [replay_snoc, apply]; omega

/-- With every debit covered, the balance is what the credits added less the debits. -/
theorem replay_add_debits_eq_gained (h : Covered cap ms) :
    replay cap ms + debits ms = gained cap ms := by
  induction ms using List.reverseRecOn with
  | nil => rfl
  | append_singleton ms m ih =>
    have ih := ih h.of_append
    have hgained : gained cap (ms ++ [m]) = gained cap ms + gained.go cap (replay cap ms) [m] :=
      gained_go_append [m] 0
    have hle : replay cap ms ≤ cap := replay_le_cap
    cases m with
    | credit n =>
      simp only [replay_snoc, apply, debits_append, debits_singleton, debited, hgained,
        gained.go]
      omega
    | debit n =>
      have hn := h.last
      simp only [replay_snoc, apply, debits_append, debits_singleton, debited, hgained,
        gained.go]
      omega

/-- Credits add no more than their amounts. -/
theorem gained_go_le (b : ℕ) : gained.go cap b ms ≤ credits ms := by
  induction ms generalizing b with
  | nil => exact le_rfl
  | cons m ms ih =>
    rw [← List.singleton_append, credits_append, credits_singleton]
    cases m with
    | credit n =>
      have hrest := ih (min (b + n) cap)
      simp only [List.singleton_append, gained.go, credited]
      omega
    | debit n =>
      have hrest := ih (b - n)
      simp only [List.singleton_append, gained.go, credited]
      omega

/-- With every debit covered, the balance is at most the credits less the debits. -/
theorem replay_add_debits_le (h : Covered cap ms) : replay cap ms + debits ms ≤ credits ms :=
  (replay_add_debits_eq_gained h).trans_le (gained_go_le 0)

/-- With no saturation besides, the balance is the credits less the debits. -/
theorem replay_add_debits (h : Covered cap ms) (hs : Unsaturated cap ms) :
    replay cap ms + debits ms = credits ms := by
  induction ms using List.reverseRecOn with
  | nil => simp
  | append_singleton ms m ih =>
    have ih := ih h.of_append (hs.of_prefix (List.prefix_append _ _))
    have hle := hs _ (List.prefix_refl _)
    cases m with
    | credit n =>
      simp only [replay_snoc, apply, credits_append, debits_append, credits_singleton,
        debits_singleton, credited, debited] at hle ⊢
      omega
    | debit n =>
      have hn := h.last
      simp only [replay_snoc, apply, credits_append, debits_append, credits_singleton,
        debits_singleton, credited, debited]
      omega

/-- A history whose credits are at most the cap does not saturate. -/
theorem unsaturated_of_credits_le (h : credits ms ≤ cap) : Unsaturated cap ms := by
  rintro pre ⟨post, rfl⟩
  rw [credits_append] at h
  omega

end Movement

/-! ## Accounts that count -/

/-- The balance of an account, with what was credited and what was debited. -/
structure Totals where
  balance : ℕ
  deposited : ℕ
  consumed : ℕ
  deriving DecidableEq

namespace Totals

open Movement

/-- The account after a movement, each of the three saturating at `cap`. -/
def apply (cap : ℕ) (t : Totals) : Movement → Totals
  | .credit n => ⟨min (t.balance + n) cap, min (t.deposited + n) cap, t.consumed⟩
  | .debit n => ⟨t.balance - n, t.deposited, min (t.consumed + n) cap⟩

/-- The account after a history of movements. -/
def replay (cap : ℕ) (ms : List Movement) : Totals :=
  ms.foldl (apply cap) ⟨0, 0, 0⟩

variable {cap : ℕ} {ms : List Movement}

@[simp] theorem replay_snoc (m : Movement) :
    replay cap (ms ++ [m]) = apply cap (replay cap ms) m := by
  rw [replay, List.foldl_append, List.foldl_cons, List.foldl_nil, replay]

/-- The balance goes its own way, and the counts are the sums as far as the cap. -/
theorem replay_eq : replay cap ms =
    ⟨Movement.replay cap ms, min (credits ms) cap, min (debits ms) cap⟩ := by
  induction ms using List.reverseRecOn with
  | nil => simp [replay]
  | append_singleton ms m ih =>
    cases m with
    | credit n =>
      simp only [replay_snoc, Movement.replay_snoc, ih, apply, Movement.apply, credits_append,
        debits_append, credits_singleton, debits_singleton, credited, debited, mk.injEq, true_and]
      omega
    | debit n =>
      simp only [replay_snoc, Movement.replay_snoc, ih, apply, Movement.apply, credits_append,
        debits_append, credits_singleton, debits_singleton, credited, debited, mk.injEq, true_and]
      omega

/-- The balance is at most what is counted as credited. -/
theorem balance_le_deposited (h : Covered cap ms) :
    (replay cap ms).balance ≤ (replay cap ms).deposited := by
  rw [replay_eq]
  have hle := replay_add_debits_le h
  have hcap : Movement.replay cap ms ≤ cap := replay_le_cap
  simp only
  omega

/-- While the credits are at most the cap, the balance is the credits less the debits. -/
theorem balance_add_debits (h : Covered cap ms) (hc : credits ms ≤ cap) :
    (replay cap ms).balance + debits ms = credits ms := by
  rw [replay_eq]
  exact replay_add_debits h (unsaturated_of_credits_le hc)

/-- While the credits are at most the cap, the balance and what is counted as debited are what is
counted as credited. -/
theorem balance_add_consumed (h : Covered cap ms) (hc : credits ms ≤ cap) :
    (replay cap ms).balance + (replay cap ms).consumed = (replay cap ms).deposited := by
  have hsum := balance_add_debits h hc
  rw [replay_eq] at hsum ⊢
  simp only at hsum ⊢
  omega

end Totals
