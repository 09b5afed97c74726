import Mathlib.Data.List.Induction
import Mathlib.Data.List.Nodup
import Mathlib.Algebra.BigOperators.Group.List.Basic
import Mathlib.Algebra.Order.BigOperators.Group.List
import Mathlib.Algebra.GroupWithZero.Nat

/-!
# Finite maps whose values carry their key

`KeyedMap key` is a finite map over `V` in which the value stored under `k` has
`key v = k`. It is the list of its values with pairwise different keys, so a map that
files a value under a wrong key cannot be built, and `insert` takes the value alone.

`get?_insert`, `get?_erase` and `mem_vals` are the laws of the map. `sumBy_insert` is the
law of a total over the values : an insertion moves it by the difference between the new
value and the one it replaces. `ofVals_vals` rebuilds a map from its values.

`Indexes owner m index` : the second map lists each key of the first one once, under the owner of
its value. `Indexes.insert` keeps the two in step, and by `Indexes.lookup_perm` looking up what is
listed under an owner finds what a scan for the owner finds.
-/

set_option linter.unusedSectionVars false

variable {K V : Type*}

/-- A list of values with pairwise different keys. -/
structure KeyedMap (key : V → K) where
  vals : List V
  nodup : (vals.map key).Nodup

namespace KeyedMap

variable {key : V → K}

/-- The map with no value. -/
def empty : KeyedMap key :=
  ⟨[], by simp⟩

instance : EmptyCollection (KeyedMap key) :=
  ⟨empty⟩

instance : Inhabited (KeyedMap key) :=
  ⟨empty⟩

@[simp] theorem vals_empty : (∅ : KeyedMap key).vals = [] :=
  rfl

variable [DecidableEq K]

/-- The value stored under `k`. -/
def get? (m : KeyedMap key) (k : K) : Option V :=
  m.vals.find? fun v => key v = k

/-- The map without the value under `k`. -/
def erase (m : KeyedMap key) (k : K) : KeyedMap key :=
  ⟨m.vals.filter fun v => key v ≠ k, m.nodup.sublist (List.filter_sublist.map key)⟩

/-- The map with `v` stored under its key, in place of what was there. -/
def insert (m : KeyedMap key) (v : V) : KeyedMap key :=
  ⟨v :: (m.erase (key v)).vals, by
    rw [List.map_cons, List.nodup_cons]
    refine ⟨?_, (m.erase (key v)).nodup⟩
    simp [erase]⟩

/-- The map of a list of values, each inserted in turn. -/
def ofVals (vs : List V) : KeyedMap key :=
  vs.foldl insert ∅

@[simp] theorem vals_erase (m : KeyedMap key) (k : K) :
    (m.erase k).vals = m.vals.filter fun v => key v ≠ k :=
  rfl

@[simp] theorem vals_insert (m : KeyedMap key) (v : V) :
    (m.insert v).vals = v :: m.vals.filter fun w => key w ≠ key v :=
  rfl

@[simp] theorem get?_empty (k : K) : (∅ : KeyedMap key).get? k = none :=
  rfl

/-- A value is filed under its key. -/
theorem key_of_get? {m : KeyedMap key} {k : K} {v : V} (h : m.get? k = some v) : key v = k := by
  simpa using List.find?_some h

theorem mem_of_get? {m : KeyedMap key} {k : K} {v : V} (h : m.get? k = some v) : v ∈ m.vals :=
  List.mem_of_find?_eq_some h

theorem get?_of_mem {m : KeyedMap key} {v : V} (h : v ∈ m.vals) : m.get? (key v) = some v := by
  obtain ⟨vals, nodup⟩ := m
  simp only [get?] at h ⊢
  induction vals with
  | nil => simp at h
  | cons w ws ih =>
    rw [List.map_cons, List.nodup_cons] at nodup
    by_cases hw : key w = key v
    · rcases List.mem_cons.mp h with rfl | hv
      · simp
      · exact absurd (hw ▸ List.mem_map_of_mem hv) nodup.1
    · rcases List.mem_cons.mp h with rfl | hv
      · exact absurd rfl hw
      · simpa [List.find?_cons, hw] using ih nodup.2 hv

/-- The values are those that are found under their keys. -/
theorem mem_vals {m : KeyedMap key} {v : V} : v ∈ m.vals ↔ m.get? (key v) = some v :=
  ⟨get?_of_mem, mem_of_get?⟩

theorem get?_eq_none {m : KeyedMap key} {k : K} : m.get? k = none ↔ ∀ v ∈ m.vals, key v ≠ k := by
  simp [get?]

/-- What is left after an erasure. -/
theorem get?_erase (m : KeyedMap key) (k k' : K) :
    (m.erase k).get? k' = if k' = k then none else m.get? k' := by
  split_ifs with h
  · subst h
    simp [get?]
  · simp only [get?, vals_erase, List.find?_filter]
    congr 1
    funext v
    by_cases hv : key v = k'
    · simp [hv, h]
    · simp [hv]

/-- What is found after an insertion. -/
theorem get?_insert (m : KeyedMap key) (v : V) (k : K) :
    (m.insert v).get? k = if k = key v then some v else m.get? k := by
  split_ifs with h
  · simp [get?, h]
  · rw [← if_neg (c := k = key v) (t := none) (e := m.get? k) h, ← get?_erase]
    simp [get?, Ne.symm h]

@[simp] theorem get?_insert_self (m : KeyedMap key) (v : V) :
    (m.insert v).get? (key v) = some v := by
  rw [get?_insert, if_pos rfl]

/-- A value whose key is free is added to the values. -/
theorem vals_insert_of_get?_eq_none {m : KeyedMap key} {v : V} (h : m.get? (key v) = none) :
    (m.insert v).vals = v :: m.vals := by
  rw [vals_insert, List.filter_eq_self.2]
  simpa using get?_eq_none.1 h

/-- Two maps with the same values under every key have the same values. -/
theorem vals_perm_of_get?_eq {m m' : KeyedMap key} (h : ∀ k, m.get? k = m'.get? k) :
    m.vals.Perm m'.vals := by
  refine (List.perm_ext_iff_of_nodup m.nodup.of_map m'.nodup.of_map).2 fun v => ?_
  rw [mem_vals, mem_vals, h]

/-- Maps with the same values find the same. -/
theorem get?_eq_of_vals_perm {m m' : KeyedMap key} (h : m.vals.Perm m'.vals) (k : K) :
    m.get? k = m'.get? k := by
  refine Option.ext fun v => ⟨fun hv => ?_, fun hv => ?_⟩
  · rw [← key_of_get? hv]
    exact get?_of_mem (h.mem_iff.1 (mem_of_get? hv))
  · rw [← key_of_get? hv]
    exact get?_of_mem (h.mem_iff.2 (mem_of_get? hv))

/-! ## Totals -/

/-- The total of `f` over the values. -/
def sumBy (f : V → ℕ) (m : KeyedMap key) : ℕ :=
  (m.vals.map f).sum

/-- `f` of the value under `k`, `0` if there is none. -/
def at0 (f : V → ℕ) (m : KeyedMap key) (k : K) : ℕ :=
  ((m.get? k).map f).getD 0

/-- A sum over the values splits into the one under a key and the others. -/
theorem sum_filter_key (f : V → ℕ) (k : K) :
    ∀ {vs : List V}, (vs.map key).Nodup →
      ((vs.filter fun v => key v ≠ k).map f).sum +
        (((vs.find? fun v => key v = k).map f).getD 0) = (vs.map f).sum
  | [], _ => by simp
  | v :: vs, h => by
    rw [List.map_cons, List.nodup_cons] at h
    by_cases hv : key v = k
    · have hrest : (vs.filter fun w => key w ≠ k) = vs := by
        refine List.filter_eq_self.2 fun w hw => ?_
        have : key w ≠ k := fun hwk => h.1 (hv ▸ hwk ▸ List.mem_map_of_mem hw)
        simpa using this
      rw [List.filter_cons_of_neg (by simpa using hv), hrest]
      simp [hv, Nat.add_comm]
    · have ih := sum_filter_key f k h.2
      rw [List.filter_cons_of_pos (by simpa using hv)]
      simp only [List.find?_cons, hv, decide_false, List.map_cons, List.sum_cons] at ih ⊢
      omega

/-- An insertion moves the total by the difference at its key. -/
theorem sumBy_insert (f : V → ℕ) (m : KeyedMap key) (v : V) :
    (m.insert v).sumBy f + m.at0 f (key v) = m.sumBy f + f v := by
  have h := sum_filter_key f (key v) m.nodup
  simp only [sumBy, at0, get?, vals_insert, List.map_cons, List.sum_cons]
  omega

/-! ## Rebuilding a map -/

/-- After many insertions the first of the new values under a key is found, or else the old one. -/
theorem get?_foldl_insert (vs : List V) :
    ∀ (m : KeyedMap key), (vs.map key).Nodup → ∀ k,
      (vs.foldl insert m).get? k = ((vs.find? fun v => key v = k).or (m.get? k)) := by
  induction vs with
  | nil => simp
  | cons v vs ih =>
    intro m h k
    rw [List.map_cons, List.nodup_cons] at h
    rw [List.foldl_cons, ih _ h.2, get?_insert, List.find?_cons]
    by_cases hk : key v = k
    · have hnone : (vs.find? fun w => key w = k) = none := by
        rw [List.find?_eq_none]
        intro w hw hwk
        exact h.1 (hk ▸ (of_decide_eq_true hwk) ▸ List.mem_map_of_mem hw)
      simp [hk, hnone]
    · simp [hk, Ne.symm hk]

theorem get?_foldl_congr (vs : List V) :
    ∀ {m m' : KeyedMap key}, (∀ k, m.get? k = m'.get? k) → ∀ k,
      (vs.foldl insert m).get? k = (vs.foldl insert m').get? k := by
  induction vs with
  | nil => exact fun h => h
  | cons v vs ih =>
    intro m m' h
    refine ih fun k => ?_
    rw [get?_insert, get?_insert, h]

/-- The map rebuilt from the values of `m` agrees with `m`. -/
theorem get?_ofVals_vals (m : KeyedMap key) (k : K) :
    (ofVals m.vals : KeyedMap key).get? k = m.get? k := by
  rw [ofVals, get?_foldl_insert _ _ m.nodup, get?_empty, Option.or_none]
  rfl

/-- A map made from the values of another one has them. -/
theorem ofVals_vals_perm (m : KeyedMap key) : (ofVals m.vals : KeyedMap key).vals.Perm m.vals :=
  vals_perm_of_get?_eq m.get?_ofVals_vals

theorem ofVals_concat (vs : List V) (v : V) :
    (ofVals (vs ++ [v]) : KeyedMap key) = (ofVals vs).insert v := by
  rw [ofVals, List.foldl_append, ofVals]
  rfl

/-- The map of a list of values holds the list exactly if their keys are pairwise different :
a value whose key was taken has replaced another one. -/
theorem ofVals_vals_perm_iff (vs : List V) :
    (ofVals vs : KeyedMap key).vals.Perm vs ↔ (vs.map key).Nodup := by
  constructor
  · intro h
    exact (h.map key).nodup_iff.1 (ofVals vs : KeyedMap key).nodup
  · induction vs using List.reverseRecOn with
    | nil => exact fun _ => List.Perm.refl _
    | append_singleton vs v ih =>
      intro h
      rw [List.map_append, List.nodup_append] at h
      obtain ⟨hvs, -, hv⟩ := h
      have hp := ih hvs
      have hnone : (ofVals vs : KeyedMap key).get? (key v) = none := by
        refine get?_eq_none.2 fun w hw hwv => ?_
        exact hv _ (List.mem_map_of_mem (hp.mem_iff.1 hw)) (key v) (by simp) hwv
      rw [ofVals_concat, vals_insert_of_get?_eq_none hnone]
      exact (hp.cons v).trans (List.perm_append_singleton v vs).symm

/-! ## An index by owner -/

section Index

variable {O : Type*} [DecidableEq O]

/-- The keys that an index lists under `o`. -/
def listed (index : KeyedMap (Prod.fst : O × List K → O)) (o : O) : List K :=
  ((index.get? o).map Prod.snd).getD []

/-- The index with one more key under `o`. -/
def list (index : KeyedMap (Prod.fst : O × List K → O)) (o : O) (k : K) :
    KeyedMap (Prod.fst : O × List K → O) :=
  index.insert (o, listed index o ++ [k])

/-- The index lists each key of the map once, under the owner of its value, and nothing else. -/
def Indexes (owner : V → O) (m : KeyedMap key) (index : KeyedMap (Prod.fst : O × List K → O)) :
    Prop :=
  ∀ o k, (listed index o).count k = if (m.get? k).map owner = some o then 1 else 0

theorem listed_list (index : KeyedMap (Prod.fst : O × List K → O)) (o : O) (k : K) (o' : O) :
    listed (index.list o k) o' = if o' = o then listed index o ++ [k] else listed index o' := by
  unfold listed list
  rw [get?_insert]
  split_ifs <;> rfl

variable {owner : V → O} {m : KeyedMap key} {index : KeyedMap (Prod.fst : O × List K → O)}

theorem indexes_empty : Indexes owner (∅ : KeyedMap key) ∅ :=
  fun _ _ => rfl

theorem Indexes.congr {m' : KeyedMap key} (h : Indexes owner m index)
    (hm : ∀ k, m'.get? k = m.get? k) : Indexes owner m' index := by
  intro o k
  rw [hm]
  exact h o k

/-- A key that is listed is a key of the map, and its value has this owner. -/
theorem Indexes.of_mem (h : Indexes owner m index) {o : O} {k : K} (hk : k ∈ listed index o) :
    ∃ v, m.get? k = some v ∧ owner v = o := by
  have hcount := h o k
  split_ifs at hcount with hv
  · exact Option.map_eq_some_iff.1 hv
  · exact absurd hk (List.count_eq_zero.1 hcount)

/-- A key is listed once under the owner of its value, and under no other. -/
theorem Indexes.count_eq_one_iff (h : Indexes owner m index) {o : O} {k : K} :
    (listed index o).count k = 1 ↔ ∃ v, m.get? k = some v ∧ owner v = o := by
  rw [h o k, ← Option.map_eq_some_iff]
  split_ifs with hv <;> simp [hv]

theorem Indexes.nodup (h : Indexes owner m index) (o : O) : (listed index o).Nodup := by
  refine List.nodup_iff_count_le_one.2 fun k => ?_
  rw [h o k]
  split_ifs <;> omega

/-- The values of the keys listed under an owner are the values with this owner. -/
theorem Indexes.lookup_perm (h : Indexes owner m index) (o : O) :
    ((listed index o).filterMap m.get?).Perm (m.vals.filter fun v => owner v = o) := by
  refine (List.perm_ext_iff_of_nodup ?_ ?_).2 fun v => ?_
  · refine (h.nodup o).filterMap fun k k' v hk hk' => ?_
    exact (key_of_get? hk).symm.trans (key_of_get? hk')
  · exact (List.Nodup.of_map key m.nodup).filter _
  · rw [List.mem_filterMap, List.mem_filter, mem_vals, decide_eq_true_eq]
    constructor
    · rintro ⟨k, hk, hv⟩
      obtain ⟨v', hv', ho⟩ := h.of_mem hk
      obtain rfl := Option.some.inj (hv.symm.trans hv')
      exact ⟨key_of_get? hv ▸ hv, ho⟩
    · rintro ⟨hv, ho⟩
      refine ⟨key v, List.count_pos_iff.1 ?_, hv⟩
      rw [h.count_eq_one_iff.2 ⟨v, hv, ho⟩]
      exact Nat.one_pos

/-- A value under a free key is listed under its owner. -/
theorem Indexes.insert (h : Indexes owner m index) {v : V} (hv : m.get? (key v) = none) :
    Indexes owner (m.insert v) (index.list (owner v) (key v)) := by
  intro o k
  have hcount := h o k
  rw [listed_list, get?_insert]
  by_cases hk : k = key v
  · subst hk
    rw [hv] at hcount
    rw [if_pos rfl]
    by_cases ho : o = owner v
    · subst ho
      rw [if_pos rfl, List.count_append, hcount]
      simp
    · rw [if_neg ho, hcount]
      simp [Ne.symm ho]
  · rw [if_neg hk, ← hcount]
    split_ifs with ho
    · rw [ho, List.count_append, List.count_singleton, if_neg (by simpa using Ne.symm hk),
        Nat.add_zero]
    · rfl

end Index

end KeyedMap
