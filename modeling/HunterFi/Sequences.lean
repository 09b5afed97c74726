import Mathlib.Algebra.BigOperators.Group.List.Basic
import Mathlib.Algebra.GroupWithZero.Nat
import Mathlib.Data.List.DropRight
import Mathlib.Data.List.Nodup
import Mathlib.Order.Basic

/-!
# Beginnings and ends of sequences

A loop that tries again stops at the first outcome that is not to be tried again, or at its
last try : `outcome_stop_iff` says when it stops with a given kind of outcome.

A queue of bounded length drops its oldest entries. `foldl_enqueue` : it holds the newest ones
of all that came in.

A test that holds of everything before an entry of which it holds picks a beginning of the
list (`filter_eq_take`), and of two such tests the one that picks more decides (`countP_or`).
`filter_notMem_take` : without its beginning, a list with different keys is its end.

A loop that sets the entries of a list one by one writes another list over a part of it, and
leaves what is before and after that part (`write_eq`).

Times with a gap between any two of them are few in any span (`Spaced.length_filter_le`).

`sum_parts` : a sum over a list is the sum of the sums over its parts, where every entry is in
one of them.
-/

set_option linter.unusedSectionVars false

namespace Sequences

/-! ## Trying again -/

section Tries

variable {ω : Type*} (again : ω → Bool) (outcomes : ℕ → ω)

/-- Where a loop stops that makes the `i`-th try and may make `spare` more. -/
def stop : ℕ → ℕ → ℕ
  | 0, i => i
  | spare + 1, i => if again (outcomes i) then stop spare (i + 1) else i

theorem stop_le (spare : ℕ) : ∀ i, stop again outcomes spare i ≤ i + spare := by
  induction spare with
  | zero => exact fun i => le_rfl
  | succ spare ih =>
    intro i
    unfold stop
    split_ifs
    · have := ih (i + 1)
      omega
    · omega

/-- The last try is not to be tried again, or there is none left. -/
theorem stop_eq_or (spare : ℕ) : ∀ i, stop again outcomes spare i = i + spare ∨
    again (outcomes (stop again outcomes spare i)) = false := by
  induction spare with
  | zero => exact fun i => Or.inl rfl
  | succ spare ih =>
    intro i
    unfold stop
    split_ifs with h
    · rcases ih (i + 1) with heq | hno
      · exact Or.inl (heq.trans (by omega))
      · exact Or.inr hno
    · exact Or.inr (by simpa using h)

variable {again outcomes}

/-- All tries before the last one were to be tried again. -/
theorem again_of_lt_stop (spare : ℕ) : ∀ {i k}, i ≤ k → k < stop again outcomes spare i →
    again (outcomes k) = true := by
  induction spare with
  | zero => exact fun hik hk => absurd hik (Nat.not_le.2 hk)
  | succ spare ih =>
    intro i k hik hk
    unfold stop at hk
    split_ifs at hk with h
    · rcases Nat.eq_or_lt_of_le hik with rfl | hlt
      · exact h
      · exact ih hlt hk
    · omega

variable (outcomes)

/-- The loop stops with an outcome of a kind that is not tried again, if one of its tries has such
an outcome and all before it are tried again. -/
theorem outcome_stop_iff {Q : ω → Prop} (hQ : ∀ o, Q o → again o = false) (spare : ℕ) :
    Q (outcomes (stop again outcomes spare 0)) ↔
      ∃ k ≤ spare, Q (outcomes k) ∧ ∀ j < k, again (outcomes j) = true := by
  constructor
  · intro h
    refine ⟨_, ?_, h, fun j hj => again_of_lt_stop spare (Nat.zero_le j) hj⟩
    simpa using stop_le again outcomes spare 0
  · rintro ⟨k, hk, hQk, hbefore⟩
    have hstop : stop again outcomes spare 0 = k := by
      rcases Nat.lt_trichotomy (stop again outcomes spare 0) k with hlt | heq | hgt
      · rcases stop_eq_or again outcomes spare 0 with hend | hno
        · omega
        · rw [hbefore _ hlt] at hno
          cases hno
      · exact heq
      · have hyes := again_of_lt_stop spare (Nat.zero_le k) hgt
        rw [hQ _ hQk] at hyes
        cases hyes
    rwa [hstop]

end Tries

/-! ## Queues of bounded length -/

section Queues

variable {α : Type*}

/-- A queue of at most `n` entries with one more, without the oldest if there is no room. -/
def enqueue (n : ℕ) (q : List α) (a : α) : List α :=
  if n < (q ++ [a]).length then (q ++ [a]).drop 1 else q ++ [a]

theorem rtake_eq_self {n : ℕ} {q : List α} (h : q.length ≤ n) : q.rtake n = q := by
  rw [List.rtake, Nat.sub_eq_zero_of_le h, List.drop_zero]

theorem length_rtake (n : ℕ) (q : List α) : (q.rtake n).length = min n q.length := by
  rw [List.rtake, List.length_drop]
  omega

theorem mem_rtake_append_singleton {n : ℕ} (hn : 1 ≤ n) (q : List α) (a : α) :
    a ∈ (q ++ [a]).rtake n := by
  obtain ⟨n, rfl⟩ := Nat.exists_eq_add_of_le' hn
  rw [List.rtake_concat_succ]
  exact List.mem_append_right _ (List.mem_singleton_self a)

/-- The first `n` entries are the last `n` ones exactly if the list goes on after the others as it
begins. -/
theorem take_eq_rtake_iff (n : ℕ) (q : List α) :
    q.take n = q.rtake n ↔ ∀ i < n, q[i]? = q[q.length - n + i]? := by
  rw [List.rtake, List.ext_getElem?_iff]
  refine forall_congr' fun i => ?_
  rw [List.getElem?_take, List.getElem?_drop]
  by_cases hi : i < n
  · simp only [hi, if_true, true_imp_iff]
  · have hnone : q[q.length - n + i]? = none := List.getElem?_eq_none (by omega)
    simp only [hi, if_false, false_imp_iff, hnone]

theorem enqueue_eq {n : ℕ} {q : List α} (h : q.length ≤ n) (a : α) :
    enqueue n q a = (q ++ [a]).rtake n := by
  unfold enqueue List.rtake
  rw [List.length_append, List.length_singleton]
  split_ifs with hlt
  · congr 1
    omega
  · rw [Nat.sub_eq_zero_of_le (by omega), List.drop_zero]

theorem rtake_append_rtake (n : ℕ) (q as : List α) :
    (q.rtake n ++ as).rtake n = (q ++ as).rtake n := by
  simp only [List.rtake_eq_reverse_take_reverse, List.reverse_append, List.reverse_reverse,
    List.take_append, List.take_take]
  congr 3
  omega

/-- A queue holds the newest of its entries and all that came in after them. -/
theorem foldl_enqueue {n : ℕ} (as : List α) :
    ∀ {q : List α}, q.length ≤ n → as.foldl (enqueue n) q = (q ++ as).rtake n := by
  induction as with
  | nil =>
    intro q h
    rw [List.append_nil, rtake_eq_self h]
    rfl
  | cons a as ih =>
    intro q h
    rw [List.foldl_cons, enqueue_eq h, ih]
    · rw [rtake_append_rtake, List.append_assoc, List.singleton_append]
    · rw [length_rtake]
      exact Nat.min_le_left _ _

end Queues

/-! ## Tests that pick a beginning -/

section Beginnings

variable {α β : Type*}

/-- A test that holds of all entries before one of which it holds picks as many from the
beginning as it picks. -/
theorem filter_eq_take {p : α → Bool} {xs : List α}
    (h : xs.Pairwise fun a b => p b = true → p a = true) : xs.filter p = xs.take (xs.countP p) := by
  induction xs with
  | nil => rfl
  | cons x xs ih =>
    rw [List.pairwise_cons] at h
    by_cases hx : p x
    · rw [List.filter_cons_of_pos hx, List.countP_cons_of_pos hx, List.take_succ_cons, ih h.2]
    · have hnone : ∀ y ∈ xs, ¬p y = true := fun y hy hp => hx (h.1 y hy hp)
      rw [List.filter_cons_of_neg hx, List.countP_cons_of_neg hx, List.filter_eq_nil_iff.2 hnone,
        List.countP_eq_zero.2 hnone, List.take_zero]

/-- Of two tests that pick beginnings, either holds as often as the one that holds more often. -/
theorem countP_or {p q : α → Bool} {xs : List α}
    (hp : xs.Pairwise fun a b => p b = true → p a = true)
    (hq : xs.Pairwise fun a b => q b = true → q a = true) :
    xs.countP (fun x => p x || q x) = max (xs.countP p) (xs.countP q) := by
  induction xs with
  | nil => rfl
  | cons x xs ih =>
    rw [List.pairwise_cons] at hp hq
    have hih := ih hp.2 hq.2
    simp only [List.countP_cons]
    by_cases hpx : p x <;> by_cases hqx : q x
    · simp [hpx, hqx, hih]
    · have hnone : xs.countP q = 0 := List.countP_eq_zero.2 fun y hy h => hqx (hq.1 y hy h)
      simp [hpx, hqx, hih, hnone]
    · have hnone : xs.countP p = 0 := List.countP_eq_zero.2 fun y hy h => hpx (hp.1 y hy h)
      simp [hpx, hqx, hih, hnone]
    · simp [hpx, hqx, hih]

/-- The entries of a list whose place is below `k`. -/
theorem countP_zipIdx_lt (xs : List α) :
    ∀ n k, (xs.zipIdx n).countP (fun x => x.2 < n + k) = min k xs.length := by
  induction xs with
  | nil => simp
  | cons x xs ih =>
    intro n k
    rw [List.zipIdx_cons, List.countP_cons, List.length_cons]
    cases k with
    | zero =>
      have hnone : (xs.zipIdx (n + 1)).countP (fun x => x.2 < n + 0) = 0 := by
        refine List.countP_eq_zero.2 fun y hy => ?_
        have := List.le_snd_of_mem_zipIdx hy
        simpa using Nat.le_of_succ_le this
      rw [hnone]
      simp
    | succ k =>
      have hih := ih (n + 1) k
      rw [show n + 1 + k = n + (k + 1) by omega] at hih
      rw [hih]
      simp

/-- A test of the place and one that picks a beginning pick a beginning together. -/
theorem filter_zipIdx_eq_take {q : α → Bool} {xs : List α}
    (h : xs.Pairwise fun a b => q b = true → q a = true) (k : ℕ) :
    (xs.zipIdx.filter fun x => decide (x.2 < k) || q x.1).map Prod.fst =
      xs.take (max (min k xs.length) (xs.countP q)) := by
  have hplace : xs.zipIdx.Pairwise fun a b =>
      decide (b.2 < k) = true → decide (a.2 < k) = true := by
    have hlt : (xs.zipIdx.map Prod.snd).Pairwise (· < ·) := by
      rw [List.zipIdx_map_snd]
      exact List.pairwise_lt_range'
    refine (List.pairwise_map.1 hlt).imp fun hab hb => ?_
    simp only [decide_eq_true_eq] at hb ⊢
    omega
  have htest : xs.zipIdx.Pairwise fun a b => q b.1 = true → q a.1 = true := by
    rw [← List.zipIdx_map_fst 0 xs] at h
    exact List.pairwise_map.1 h
  have hcount : xs.zipIdx.countP (fun x => q x.1) = xs.countP q := by
    conv_rhs => rw [← List.zipIdx_map_fst 0 xs, List.countP_map]
    rfl
  have hbelow := countP_zipIdx_lt xs 0 k
  simp only [Nat.zero_add] at hbelow
  rw [filter_eq_take (hplace.and htest |>.imp fun hab hb => ?_), countP_or hplace htest, hbelow,
    hcount, List.map_take, List.zipIdx_map_fst]
  rw [Bool.or_eq_true] at hb ⊢
  exact hb.imp hab.1 hab.2

/-- What holds between each entry and those after it holds between a beginning and the rest. -/
theorem pairwise_take_drop {R : α → α → Prop} {xs : List α} (h : xs.Pairwise R) (m : ℕ) :
    ∀ a ∈ xs.take m, ∀ b ∈ xs.drop m, R a b := by
  rw [← List.take_append_drop m xs] at h
  exact (List.pairwise_append.1 h).2.2

/-- A list without the entries that share a key with its beginning. -/
theorem filter_notMem_take [DecidableEq β] {key : α → β} {xs : List α} (h : (xs.map key).Nodup)
    (m : ℕ) : xs.filter (fun x => key x ∉ (xs.take m).map key) = xs.drop m := by
  have hdisjoint := pairwise_take_drop (List.pairwise_map.1 h) m
  have htake : (xs.take m).filter (fun x => key x ∉ (xs.take m).map key) = [] := by
    refine List.filter_eq_nil_iff.2 fun x hx hn => ?_
    exact of_decide_eq_true hn (List.mem_map_of_mem hx)
  have hdrop : (xs.drop m).filter (fun x => key x ∉ (xs.take m).map key) = xs.drop m := by
    refine List.filter_eq_self.2 fun x hx => decide_eq_true fun hmem => ?_
    obtain ⟨y, hy, heq⟩ := List.mem_map.1 hmem
    exact hdisjoint y hy x hx heq
  conv_lhs => rw [← List.take_append_drop m xs]
  rw [List.filter_append, List.take_append_drop, htake, hdrop, List.nil_append]

end Beginnings

/-! ## Writing over a part -/

section Writing

variable {α : Type*}

/-- A list with `xs` written over it from the place `k` on, entry by entry. -/
def write (k : ℕ) (xs ys : List α) : List α :=
  (xs.zipIdx k).foldl (fun ys x => ys.set x.2 x.1) ys

theorem write_cons (k : ℕ) (x : α) (xs ys : List α) :
    write k (x :: xs) ys = write (k + 1) xs (ys.set k x) :=
  rfl

theorem write_eq (xs : List α) : ∀ {k : ℕ} {ys : List α}, k + xs.length ≤ ys.length →
    write k xs ys = ys.take k ++ xs ++ ys.drop (k + xs.length) := by
  induction xs with
  | nil =>
    intro k ys _
    rw [List.append_nil, List.length_nil, Nat.add_zero, List.take_append_drop]
    rfl
  | cons x xs ih =>
    intro k ys h
    rw [List.length_cons] at h
    have hset : k + 1 + xs.length ≤ (ys.set k x).length := by
      rw [List.length_set]
      omega
    have htake : (ys.set k x).take (k + 1) = ys.take k ++ [x] := by
      rw [List.take_add_one, List.take_set_of_le (le_refl k), List.getElem?_set_self (by omega)]
      rfl
    rw [write_cons, ih hset, htake, List.drop_set_of_lt (by omega), List.length_cons,
      List.append_assoc, List.append_assoc, List.append_assoc, List.singleton_append,
      List.cons_append, Nat.add_right_comm, Nat.add_assoc]

end Writing

/-! ## Times with a gap between them -/

section Spaced

/-- Times, the latest first, each at least `gap` after the ones before it. -/
def Spaced (gap : ℕ) (ts : List ℕ) : Prop :=
  ts.Pairwise fun later earlier => earlier + gap ≤ later

variable {gap a b : ℕ} {ts : List ℕ}

theorem Spaced.length_mul_le (h : Spaced gap ts) : ∀ {b : ℕ}, (∀ t ∈ ts, a ≤ t ∧ t ≤ b) →
    ts.length * gap ≤ b - a + gap := by
  induction ts with
  | nil => simp
  | cons t ts ih =>
    intro b hmem
    obtain ⟨hlater, hrest⟩ := List.pairwise_cons.1 h
    obtain ⟨⟨hat, htb⟩, hmem⟩ := List.forall_mem_cons.1 hmem
    rw [List.length_cons, Nat.succ_mul]
    cases ts with
    | nil => simp
    | cons u us =>
      -- the earlier times are in the span that ends a gap before the latest
      have hle := ih hrest (b := t - gap) fun x hx => ⟨(hmem x hx).1, by have := hlater x hx; omega⟩
      have hu := hlater u List.mem_cons_self
      have hau := (hmem u List.mem_cons_self).1
      omega

/-- The times in a span are at most one more than the gaps that fit into it. -/
theorem Spaced.length_filter_le (h : Spaced gap ts) (hgap : 0 < gap) (a b : ℕ) :
    (ts.filter fun t => a ≤ t ∧ t ≤ b).length ≤ (b - a) / gap + 1 := by
  have hsub : Spaced gap (ts.filter fun t => a ≤ t ∧ t ≤ b) := h.sublist List.filter_sublist
  have hle := hsub.length_mul_le fun t ht => of_decide_eq_true (List.mem_filter.1 ht).2
  rw [← Nat.add_div_right _ hgap]
  exact (Nat.le_div_iff_mul_le hgap).2 hle

end Spaced

/-! ## Sums over parts -/

section Parts

variable {α β : Type*} {r : α → β → Prop} [∀ a b, Decidable (r a b)]

/-- The one entry that `a` belongs to. -/
theorem sum_ite_eq {bs : List β} {a : α} {b : β} (hnodup : bs.Nodup) (hb : b ∈ bs) (hab : r a b)
    (hunique : ∀ b', r a b' → b' = b) (n : ℕ) :
    (bs.map fun b' => if r a b' then n else 0).sum = n := by
  obtain ⟨before, after, rfl⟩ := List.append_of_mem hb
  have hnot := (List.nodup_cons.1 (List.nodup_middle.1 hnodup)).1
  have hzero : ∀ cs : List β, b ∉ cs → (cs.map fun b' => if r a b' then n else 0).sum = 0 := by
    refine fun cs hcs => List.sum_eq_zero fun x hx => ?_
    obtain ⟨b', hb', rfl⟩ := List.mem_map.1 hx
    exact if_neg fun h => hcs (hunique b' h ▸ hb')
  rw [List.map_append, List.map_cons, List.sum_append, List.sum_cons, if_pos hab,
    hzero before fun h => hnot (List.mem_append_left _ h),
    hzero after fun h => hnot (List.mem_append_right _ h), Nat.zero_add, Nat.add_zero]

theorem sum_parts {bs : List β} (hnodup : bs.Nodup) (hunique : ∀ a b b', r a b → r a b' → b' = b)
    (f : α → ℕ) {as : List α} (h : ∀ a ∈ as, ∃ b ∈ bs, r a b) :
    (bs.map fun b => ((as.filter fun a => r a b).map f).sum).sum = (as.map f).sum := by
  induction as with
  | nil => simp
  | cons a as ih =>
    obtain ⟨⟨b, hb, hab⟩, has⟩ := List.forall_mem_cons.1 h
    have hcons : ∀ b, (((a :: as).filter fun a => r a b).map f).sum =
        (if r a b then f a else 0) + ((as.filter fun a => r a b).map f).sum := by
      intro b
      by_cases hr : r a b <;> simp [hr]
    simp only [hcons, List.sum_map_add, ih has, List.map_cons, List.sum_cons]
    rw [sum_ite_eq hnodup hb hab fun b' h => hunique a b b' hab h]

end Parts

end Sequences
