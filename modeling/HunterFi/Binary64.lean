import Mathlib

/-!
# Arithmetic in binary64

The operations on `Float.Model` by their values, for numbers that are not negative. `toRat?` is
the value of a number, and `Near x v` says that `v` is `x` rounded : no representable number is
between the two. That much is enough to bound what a chain of operations yields : `Near.abs_sub_le`
is the error of one rounding below a power of two (`Near.abs_sub_le_div` the relative one), and a
bound that is representable is a bound of
the rounded value (`Near.le_of_le`).

`Held em y` ties the mantissa and the two residual bits of a rounding in progress to the number that
they stand for, and `roundWithAccuracy_near` follows it through to the result. `Canonical` numbers
survive packing (`unpack_pack`). What comes out for the operations are `mul_near`, `div_near`,
`sub_near` and `ofNat_near`, and `toInt_eq_floor` for the way back.
-/

set_option linter.unusedSectionVars false

namespace Binary64

open Float.Model Float.Model.UnpackedFloat

/-! ## Representable numbers -/

/-- A number with a mantissa of at most 53 bits and an exponent that is not too small. -/
def Representable (r : ℚ) : Prop :=
  ∃ (m : ℕ) (e : ℤ), m ≤ 2 ^ 53 ∧ -1074 ≤ e ∧ r = m * 2 ^ e

theorem representable_natCast {n : ℕ} (h : n ≤ 2 ^ 53) : Representable n :=
  ⟨n, 0, h, by norm_num, by simp⟩

theorem representable_zpow {k : ℤ} (h : -1074 ≤ k) : Representable (2 ^ k) :=
  ⟨1, k, by norm_num, h, by simp⟩

/-- `v` is on the same side as `x` of every representable number. -/
def Near (x v : ℚ) : Prop :=
  ∀ r, Representable r → (r ≤ x → r ≤ v) ∧ (x ≤ r → v ≤ r)

namespace Near

variable {x v r : ℚ}

theorem le_of_le (h : Near x v) (hr : Representable r) (hx : x ≤ r) : v ≤ r :=
  (h r hr).2 hx

theorem ge_of_ge (h : Near x v) (hr : Representable r) (hx : r ≤ x) : r ≤ v :=
  (h r hr).1 hx

theorem eq_self (h : Near x v) (hx : Representable x) : v = x :=
  le_antisymm (h.le_of_le hx le_rfl) (h.ge_of_ge hx le_rfl)

theorem nonneg (h : Near x v) (hx : 0 ≤ x) : 0 ≤ v := by
  have h0 := h.ge_of_ge (representable_natCast (Nat.zero_le _)) (by simpa using hx)
  simpa using h0

/-- Below `2 ^ (k + 52)` a rounded number is less than `2 ^ k` away. -/
theorem abs_sub_le (h : Near x v) {k : ℤ} (hk : -1074 ≤ k) (h0 : 0 ≤ x) (hx : x ≤ 2 ^ (k + 52)) :
    |v - x| ≤ 2 ^ k := by
  have hpos : (0 : ℚ) < 2 ^ k := zpow_pos two_pos k
  set n := ⌊x / 2 ^ k⌋₊
  have hn : n ≤ 2 ^ 52 := by
    refine Nat.floor_le_of_le ?_
    rw [div_le_iff₀ hpos]
    refine hx.trans_eq ?_
    rw [zpow_add₀ two_ne_zero, mul_comm]
    norm_cast
  have hbelow : (n : ℚ) * 2 ^ k ≤ x :=
    (le_div_iff₀ hpos).1 (Nat.floor_le (div_nonneg h0 hpos.le))
  have habove : x < (n + 1 : ℕ) * 2 ^ k := by
    have := Nat.lt_floor_add_one (x / 2 ^ k)
    rw [div_lt_iff₀ hpos] at this
    exact_mod_cast this
  have hv := h.ge_of_ge ⟨n, k, by omega, hk, rfl⟩ hbelow
  have hv' := h.le_of_le ⟨n + 1, k, by omega, hk, rfl⟩ habove.le
  push_cast at habove hv'
  rw [abs_le]
  constructor <;> linarith

/-- The error of a rounding relative to a natural number of the same length. -/
theorem abs_sub_le_div (h : Near x v) {n : ℕ} (hn : n ≠ 0) (h0 : 0 ≤ x)
    (hx : x ≤ 2 ^ (n.log2 + 1)) : |v - x| ≤ n / 2 ^ 51 := by
  have hunit := h.abs_sub_le (k := (n.log2 + 1 : ℕ) - 52) (by omega) h0
    (by rwa [sub_add_cancel, zpow_natCast])
  refine hunit.trans ?_
  have hlog : (2 : ℚ) ^ n.log2 ≤ n := by exact_mod_cast Nat.log2_self_le hn
  rw [zpow_sub₀ two_ne_zero, zpow_natCast, pow_succ]
  norm_num
  linarith

end Near

/-! ## Roundings in progress -/

/-- The mantissa and the residual bits stand for `y`. -/
def Held (em : ExtendedMantissa) (y : ℚ) : Prop :=
  ∃ f : ℚ, 0 ≤ f ∧ f < 1 / 2 ∧ y = em.mantissa + (if em.roundBit then 1 / 2 else 0) + f ∧
    (em.stickyBit = true ↔ f ≠ 0)

variable {em : ExtendedMantissa} {y : ℚ}

theorem held_exact (m : ℕ) : Held (.ofMantissaAndAccuracy m .exact) m :=
  ⟨0, le_rfl, by norm_num, by simp [ExtendedMantissa.ofMantissaAndAccuracy],
    by simp [ExtendedMantissa.ofMantissaAndAccuracy]⟩

/-- A quotient and what is left of it. -/
theorem held_fraction {m num den : ℕ} (h : num < den) :
    Held (.ofMantissaAndAccuracy m (accuracyOfFraction num den)) (m + num / den) := by
  have hden : (0 : ℚ) < den := by exact_mod_cast Nat.zero_lt_of_lt h
  have hlt : (num : ℚ) < den := by exact_mod_cast h
  unfold accuracyOfFraction
  split_ifs with hnum
  · simpa [hnum] using held_exact m
  · have hpos : (0 : ℚ) < num := by exact_mod_cast Nat.pos_of_ne_zero hnum
    rcases Nat.lt_trichotomy (2 * num) den with hc | hc | hc
    · have hc' : (2 : ℚ) * num < den := by exact_mod_cast hc
      rw [Nat.compare_eq_lt.2 hc]
      refine ⟨num / den, by positivity, ?_, by simp [ExtendedMantissa.ofMantissaAndAccuracy], ?_⟩
      · rw [div_lt_div_iff₀ hden two_pos]
        linarith
      · simp [ExtendedMantissa.ofMantissaAndAccuracy, hnum, hden.ne']
    · have hc' : (2 : ℚ) * num = den := by exact_mod_cast hc
      rw [Nat.compare_eq_eq.2 hc]
      refine ⟨0, le_rfl, by norm_num, ?_, by simp [ExtendedMantissa.ofMantissaAndAccuracy]⟩
      simp only [ExtendedMantissa.ofMantissaAndAccuracy, if_true, add_zero]
      rw [← hc']
      field_simp
    · have hc' : (den : ℚ) < 2 * num := by exact_mod_cast hc
      rw [Nat.compare_eq_gt.2 hc]
      refine ⟨num / den - 1 / 2, ?_, ?_, ?_, ?_⟩
      · rw [sub_nonneg, div_le_div_iff₀ two_pos hden]
        linarith
      · rw [sub_lt_iff_lt_add, div_lt_iff₀ hden]
        linarith
      · simp only [ExtendedMantissa.ofMantissaAndAccuracy, if_true]
        ring
      · simp only [ExtendedMantissa.ofMantissaAndAccuracy, true_iff, sub_ne_zero]
        rw [Ne, div_eq_div_iff hden.ne' two_ne_zero]
        intro heq
        linarith

theorem Held.shiftRightOne (h : Held em y) : Held em.shiftRightOne (y / 2) := by
  obtain ⟨f, h0, hlt, hy, hf⟩ := h
  obtain ⟨m, r, s⟩ := em
  have hm : (m : ℚ) = 2 * (m / 2 : ℕ) + (m % 2 : ℕ) := by
    exact_mod_cast (Nat.div_add_mod m 2).symm
  refine ⟨(if r then 1 / 4 else 0) + f / 2, ?_, ?_, ?_, ?_⟩
  · cases r <;> simp <;> linarith
  · cases r <;> simp <;> linarith
  · rcases Nat.mod_two_eq_zero_or_one m with hmod | hmod <;> cases r <;>
      simp [ExtendedMantissa.shiftRightOne, hmod] at hy hm ⊢ <;> linarith
  · simp only [ExtendedMantissa.shiftRightOne] at hf ⊢
    cases r
    · simpa using hf
    · simp only [Bool.true_or, true_iff, if_true]
      have : (0 : ℚ) < 1 / 4 + f / 2 := by linarith
      exact this.ne'

theorem Held.shiftRight (h : Held em y) (n : ℕ) : Held (em >>> n) (y / 2 ^ n) := by
  induction n with
  | zero => simpa [HShiftRight.hShiftRight, Nat.repeat] using h
  | succ n ih =>
    have hstep := ih.shiftRightOne
    rw [div_div, ← pow_succ] at hstep
    exact hstep

/-- The mantissa is the number rounded down. -/
theorem Held.mantissa_eq (h : Held em y) : em.mantissa = ⌊y⌋₊ := by
  obtain ⟨f, h0, hlt, hy, -⟩ := h
  have hhalf : (0 : ℚ) ≤ (if em.roundBit then 1 / 2 else 0) ∧
      (if em.roundBit then 1 / 2 else 0 : ℚ) ≤ 1 / 2 := by
    split_ifs <;> norm_num
  symm
  rw [Nat.floor_eq_iff (by rw [hy]; have := hhalf.1; positivity)]
  constructor <;> linarith [hhalf.1, hhalf.2]

/-- The rounded mantissa is on the same side as the number of every natural number. -/
theorem Held.rounded (h : Held em y) (n : ℕ) :
    ((n : ℚ) ≤ y → n ≤ em.roundedMantissa) ∧ (y ≤ n → em.roundedMantissa ≤ n) := by
  obtain ⟨f, h0, hlt, hy, hf⟩ := h
  obtain ⟨m, r, s⟩ := em
  have hbelow : (n : ℚ) ≤ y → n ≤ m := by
    intro hn
    have : (n : ℚ) < m + 1 := by
      cases r <;> simp at hy <;> linarith
    exact_mod_cast Nat.lt_succ_iff.1 (by exact_mod_cast this)
  have habove : (m : ℚ) < y → y ≤ n → m + 1 ≤ n := by
    intro hm hn
    exact_mod_cast (hm.trans_le hn : (m : ℚ) < n)
  have hle : (m : ℚ) ≤ y := by
    cases r <;> simp at hy <;> linarith
  unfold ExtendedMantissa.roundedMantissa
  cases r <;> cases s <;>
    simp only [ExtendedMantissa.accuracy, Accuracy.roundToNearestEven] at hy hf ⊢
  · refine ⟨hbelow, fun hn => ?_⟩
    exact_mod_cast hle.trans hn
  · refine ⟨hbelow, fun hn => ?_⟩
    exact_mod_cast hle.trans hn
  · have hm : (m : ℚ) < y := by simp at hy; linarith
    refine ⟨fun hn => (hbelow hn).trans (Nat.le_add_right _ _), fun hn => ?_⟩
    have := habove hm hn
    omega
  · have hm : (m : ℚ) < y := by simp at hy; linarith
    exact ⟨fun hn => (hbelow hn).trans (Nat.le_add_right _ _), habove hm⟩

/-! ## Rounding -/

theorem targetExponent_eq (n : ℤ) : Format.binary64.targetExponent n = max (n - 53) (-1074) :=
  rfl

theorem shiftToExponent_held {m : ℕ} {acc : Accuracy} (h : Held (.ofMantissaAndAccuracy m acc) y)
    (e t : ℤ) : (shiftToExponent m e acc t).2 = max e t ∧
      Held (shiftToExponent m e acc t).1 (y * 2 ^ e / 2 ^ max e t) := by
  have hmax : e + (t - e).toNat = max e t := by omega
  refine ⟨hmax, ?_⟩
  have hshift := h.shiftRight (t - e).toNat
  have hpow : (2 : ℚ) ^ max e t = 2 ^ e * 2 ^ (t - e).toNat := by
    rw [← hmax, zpow_add₀ two_ne_zero, zpow_natCast]
  have he : (2 : ℚ) ^ e ≠ 0 := zpow_ne_zero _ two_ne_zero
  rw [hpow, mul_comm y, mul_div_mul_left _ _ he]
  exact hshift

/-- The value of a number that is finite. -/
def toRat? : UnpackedFloat → Option ℚ
  | .zero _ => some 0
  | .finite s m e _ => some (s.apply m * 2 ^ e)
  | _ => none

/-- A mantissa that is not short, or an exponent that is as small as any. -/
def Fine (m : ℕ) (e : ℤ) : Prop :=
  2 ^ 52 ≤ m ∨ e ≤ -1074

theorem Fine.le_targetExponent {m : ℕ} {e : ℤ} (h : Fine m e) :
    e ≤ Format.binary64.targetExponent (totalExponent m e) := by
  rw [targetExponent_eq, totalExponent]
  rcases h with h | h
  · have := (Nat.le_log2 (by omega)).2 h
    omega
  · omega

/-- The mantissa and the exponent of a number that is not zero fit. -/
structure Fits (m : ℕ) (e : ℤ) : Prop where
  lt : m < 2 ^ 53
  ge : -1074 ≤ e
  full : 2 ^ 52 ≤ m ∨ e = -1074

/-- The number is what rounding yields : zero, or a mantissa and an exponent that fit. -/
inductive Canonical : UnpackedFloat → Prop
  | zero (s : Sign) : Canonical (.zero s)
  | finite (s : Sign) (m : ℕ) (e : ℤ) (hm : 0 < m) (fits : Fits m e) :
    Canonical (.finite s m e hm)

/-- A mantissa that has been rounded is carried over if it has become too long. -/
theorem carry_eq {n : ℕ} {t : ℤ} (hn : n ≤ 2 ^ 53) (ht : -1074 ≤ t)
    (hfull : -1074 < t → 2 ^ 52 ≤ n) {p : ExtendedMantissa × ℤ}
    (hp : shiftToTargetExponent .binary64 n t .exact = p) :
    (p.1.mantissa : ℚ) * 2 ^ p.2 = n * 2 ^ t ∧ Fits p.1.mantissa p.2 := by
  obtain ⟨hexp, hheld⟩ := shiftToExponent_held (held_exact n) t
    (Format.binary64.targetExponent (totalExponent n t))
  have hmantissa := hheld.mantissa_eq
  rw [shiftToTargetExponent] at hp
  rw [hp] at hexp hmantissa
  rcases Nat.lt_or_eq_of_le hn with hlt | rfl
  · have hlog : n.log2 < 53 := by
      by_cases h0 : n = 0
      · simp [h0]
      · exact (Nat.log2_lt h0).2 hlt
    have htarget : max t (Format.binary64.targetExponent (totalExponent n t)) = t := by
      rw [targetExponent_eq, totalExponent]
      omega
    rw [htarget] at hexp hmantissa
    rw [mul_div_cancel_right₀ _ (zpow_ne_zero _ two_ne_zero), Nat.floor_natCast] at hmantissa
    rw [hmantissa, hexp]
    refine ⟨rfl, hlt, ht, ?_⟩
    rcases eq_or_lt_of_le ht with h | h
    · exact Or.inr h.symm
    · exact Or.inl (hfull h)
  · have htarget : max t (Format.binary64.targetExponent (totalExponent (2 ^ 53) t)) = t + 1 := by
      rw [targetExponent_eq, totalExponent, Nat.log2_two_pow]
      omega
    have hhalf : ((2 ^ 53 : ℕ) : ℚ) * 2 ^ t / 2 ^ (t + 1) = (2 ^ 52 : ℕ) := by
      rw [zpow_add_one₀ two_ne_zero, mul_comm _ (2 ^ t : ℚ),
        mul_div_mul_left _ _ (zpow_ne_zero _ two_ne_zero)]
      norm_num
    rw [htarget] at hexp hmantissa
    rw [hhalf, Nat.floor_natCast] at hmantissa
    rw [hmantissa, hexp]
    refine ⟨?_, by norm_num, by omega, Or.inl le_rfl⟩
    rw [← hhalf, div_mul_cancel₀ _ (zpow_ne_zero _ two_ne_zero)]

/-- What is rounded first, before the carry. -/
structure Shifted (m : ℕ) (e : ℤ) (y : ℚ) (em : ExtendedMantissa) (t : ℤ) : Prop where
  held : Held em (y * 2 ^ e / 2 ^ t)
  ge : -1074 ≤ t
  lt : y * 2 ^ e / 2 ^ t < 2 ^ 53
  full : -1074 < t → 2 ^ 52 ≤ y * 2 ^ e / 2 ^ t

theorem shiftToTargetExponent_shifted {m : ℕ} {e : ℤ} {acc : Accuracy}
    (h : Held (.ofMantissaAndAccuracy m acc) y) (hfine : Fine m e) :
    Shifted m e y (shiftToTargetExponent .binary64 m e acc).1
      (shiftToTargetExponent .binary64 m e acc).2 := by
  have hm : m = ⌊y⌋₊ := by
    rw [← h.mantissa_eq]
    unfold ExtendedMantissa.ofMantissaAndAccuracy
    split <;> rfl
  have hle := hfine.le_targetExponent
  obtain ⟨hexp, hheld⟩ := shiftToExponent_held h e
    (Format.binary64.targetExponent (totalExponent m e))
  rw [max_eq_right hle] at hexp hheld
  rw [shiftToTargetExponent, hexp]
  generalize ht : Format.binary64.targetExponent (totalExponent m e) = t at *
  rw [targetExponent_eq, totalExponent] at ht
  have hpow : y * 2 ^ e / 2 ^ t = y * 2 ^ (e - t) := by
    rw [zpow_sub₀ two_ne_zero, mul_div_assoc]
  have hpos : (0 : ℚ) < 2 ^ (e - t) := zpow_pos two_pos _
  refine ⟨hheld, by omega, ?_, fun hlt => ?_⟩
  · have hy : y < 2 ^ (m.log2 + 1 : ℤ) := by
      have hfloor := Nat.lt_floor_add_one y
      have hlog : m + 1 ≤ 2 ^ (m.log2 + 1) := Nat.lt_log2_self
      rw [← hm] at hfloor
      refine hfloor.trans_le ?_
      exact_mod_cast hlog
    rw [hpow]
    refine (mul_lt_mul_of_pos_right hy hpos).trans_le ?_
    rw [← zpow_add₀ two_ne_zero, ← zpow_natCast]
    exact zpow_le_zpow_right₀ one_le_two (by push_cast; omega)
  · have h0 : m ≠ 0 := by
      rintro rfl
      rcases hfine with h | h
      · omega
      · simp at ht
        omega
    have hy : (2 : ℚ) ^ (m.log2 : ℤ) ≤ y := by
      have hfloor : (m : ℚ) ≤ y := by
        rw [hm]
        refine Nat.floor_le ?_
        by_contra hneg
        rw [Nat.floor_of_nonpos (not_le.1 hneg).le] at hm
        exact h0 hm
      refine le_trans ?_ hfloor
      rw [zpow_natCast]
      exact_mod_cast Nat.log2_self_le h0
    rw [hpow]
    refine le_trans ?_ (mul_le_mul_of_nonneg_right hy hpos.le)
    rw [← zpow_add₀ two_ne_zero, ← zpow_natCast]
    exact zpow_le_zpow_right₀ one_le_two (by push_cast; omega)

/-- The mantissa that has been rounded, before the carry, has the value of the result. -/
theorem Shifted.near {m : ℕ} {e t : ℤ} (h : Shifted m e y em t) :
    Near (y * 2 ^ e) (em.roundedMantissa * 2 ^ t) := by
  have hpos : (0 : ℚ) < 2 ^ t := zpow_pos two_pos t
  have hx : y * 2 ^ e / 2 ^ t * 2 ^ t = y * 2 ^ e := div_mul_cancel₀ _ hpos.ne'
  rintro r ⟨k, j, hk, hj, rfl⟩
  rcases le_or_gt t j with htj | hjt
  · -- the representable number is a multiple of the unit in the last place
    have hmul : (k : ℚ) * 2 ^ j = (k * 2 ^ (j - t).toNat : ℕ) * 2 ^ t := by
      push_cast
      rw [mul_assoc, ← zpow_natCast, ← zpow_add₀ two_ne_zero]
      congr 2
      omega
    obtain ⟨hbelow, habove⟩ := h.held.rounded (k * 2 ^ (j - t).toNat)
    rw [hmul, ← hx, mul_le_mul_iff_left₀ hpos, mul_le_mul_iff_left₀ hpos,
      mul_le_mul_iff_left₀ hpos, mul_le_mul_iff_left₀ hpos]
    exact ⟨fun hle => by exact_mod_cast hbelow hle, fun hle => by exact_mod_cast habove hle⟩
  · -- it is at most the smallest number with this unit in the last place
    have hfull := h.full (by omega)
    obtain ⟨hbelow, habove⟩ := h.held.rounded (2 ^ 52)
    push_cast at hbelow habove
    have hr : (k : ℚ) * 2 ^ j ≤ 2 ^ 52 * 2 ^ t := by
      have hk' : (k : ℚ) ≤ 2 ^ 53 := by exact_mod_cast hk
      have hj' : (2 : ℚ) ^ j ≤ 2 ^ (t - 1) := zpow_le_zpow_right₀ one_le_two (by omega)
      calc (k : ℚ) * 2 ^ j ≤ 2 ^ 53 * 2 ^ (t - 1) :=
            mul_le_mul hk' hj' (zpow_nonneg two_pos.le j) (by positivity)
        _ = 2 ^ 52 * 2 ^ t := by
            rw [zpow_sub_one₀ two_ne_zero]
            ring
    have hrounded : (2 ^ 52 : ℚ) * 2 ^ t ≤ em.roundedMantissa * 2 ^ t :=
      mul_le_mul_of_nonneg_right (by exact_mod_cast hbelow hfull) hpos.le
    refine ⟨fun _ => hr.trans hrounded, fun hle => ?_⟩
    rw [← hx] at hle
    have hsmall := le_of_mul_le_mul_right (hle.trans hr) hpos
    have heq : y * 2 ^ e / 2 ^ t = 2 ^ 52 := le_antisymm hsmall hfull
    refine le_trans ?_ hle
    rw [heq]
    exact mul_le_mul_of_nonneg_right (by exact_mod_cast habove hsmall) hpos.le

theorem roundWithAccuracy_near {m : ℕ} {e : ℤ} {acc : Accuracy}
    (h : Held (.ofMantissaAndAccuracy m acc) y) (hfine : Fine m e) :
    ∃ v, toRat? (roundWithAccuracy .binary64 .positive m e acc) = some v ∧
      Near (y * 2 ^ e) v ∧ Canonical (roundWithAccuracy .binary64 .positive m e acc) := by
  have hshifted := shiftToTargetExponent_shifted h hfine
  rw [roundWithAccuracy]
  generalize shiftToTargetExponent .binary64 m e acc = p at hshifted
  obtain ⟨em, t⟩ := p
  dsimp only at hshifted ⊢
  have hle : em.roundedMantissa ≤ 2 ^ 53 :=
    (hshifted.held.rounded (2 ^ 53)).2 (by exact_mod_cast hshifted.lt.le)
  have hfull : -1074 < t → 2 ^ 52 ≤ em.roundedMantissa := fun ht =>
    (hshifted.held.rounded (2 ^ 52)).1 (by exact_mod_cast hshifted.full ht)
  generalize hp : shiftToTargetExponent .binary64 em.roundedMantissa t .exact = p
  obtain ⟨hvalue, hfits⟩ := carry_eq hle hshifted.ge hfull hp
  refine ⟨_, ?_, hvalue ▸ hshifted.near, ?_⟩
  · split_ifs with h0
    · simp [toRat?, h0]
    · rfl
  · split_ifs with h0
    · exact .zero _
    · exact .finite _ _ _ _ hfits

/-! ## Operations -/

/-- The number is `x` rounded. -/
def Rounds (u : UnpackedFloat) (x : ℚ) : Prop :=
  ∃ v, toRat? u = some v ∧ Near x v ∧ Canonical u

variable {u w : UnpackedFloat} {x z : ℚ}

theorem rounds_zero (s : Sign) : Rounds (.zero s) 0 :=
  ⟨0, rfl, fun _ _ => ⟨id, id⟩, .zero s⟩

theorem rounds_self (hu : Canonical u) (h : toRat? u = some x) : Rounds u x :=
  ⟨x, h, fun _ _ => ⟨id, id⟩, hu⟩

theorem rounds_exact {m : ℕ} {e : ℤ} (hfine : Fine m e) :
    Rounds (roundWithAccuracy .binary64 .positive m e .exact) (m * 2 ^ e) :=
  roundWithAccuracy_near (held_exact m) hfine

/-- A number that is not negative is zero or has the positive sign. -/
theorem Canonical.nonneg_cases (hu : Canonical u) (h : toRat? u = some x) (hx : 0 ≤ x) :
    (x = 0 ∧ ∃ s, u = .zero s) ∨
      ∃ m e hm, u = .finite .positive m e hm ∧ Fits m e ∧ x = m * 2 ^ e := by
  cases hu with
  | zero s => exact Or.inl ⟨(Option.some.inj h).symm, s, rfl⟩
  | finite s m e hm fits =>
    obtain rfl := Option.some.inj h
    cases s with
    | positive => exact Or.inr ⟨m, e, hm, rfl, fits, by simp [Sign.apply]⟩
    | negative =>
      have hpos : (0 : ℚ) < m * 2 ^ e :=
        mul_pos (by exact_mod_cast hm) (zpow_pos two_pos e)
      simp only [Sign.apply] at hx
      push_cast at hx
      linarith

/-- A shift to the left does not change the value. -/
theorem shiftLeft_mul_zpow (m n : ℕ) (e : ℤ) :
    ((m <<< n : ℕ) : ℚ) * 2 ^ (e - n) = m * 2 ^ e := by
  rw [Nat.shiftLeft_eq, zpow_sub₀ two_ne_zero, zpow_natCast]
  push_cast
  field_simp

theorem rounds_round {m : ℕ} (hm : 0 < m) (e : ℤ) :
    Rounds (UnpackedFloat.round .binary64 .positive m e) (m * 2 ^ e) := by
  have hfine : Fine (m <<< (e - Format.binary64.targetExponent (totalExponent m e)).toNat)
      (e - (e - Format.binary64.targetExponent (totalExponent m e)).toNat) := by
    generalize ht : Format.binary64.targetExponent (totalExponent m e) = t
    rw [targetExponent_eq, totalExponent] at ht
    by_cases hsmall : t = -1074
    · exact Or.inr (by omega)
    · refine Or.inl ?_
      rw [Nat.shiftLeft_eq]
      calc 2 ^ 52 ≤ 2 ^ (m.log2 + (e - t).toNat) := Nat.pow_le_pow_right two_pos (by omega)
        _ = 2 ^ m.log2 * 2 ^ (e - t).toNat := pow_add _ _ _
        _ ≤ m * 2 ^ (e - t).toNat := Nat.mul_le_mul_right _ (Nat.log2_self_le hm.ne')
  have h := rounds_exact hfine
  rw [shiftLeft_mul_zpow] at h
  exact h

theorem rounds_normalize (n : ℕ) (e : ℤ) :
    Rounds (UnpackedFloat.normalize .binary64 n e .positive) (n * 2 ^ e) := by
  rcases Nat.eq_zero_or_pos n with rfl | hn
  · simpa [UnpackedFloat.normalize] using rounds_zero .positive
  · have hcmp : compare (n : ℤ) 0 = .gt := compare_gt_iff_gt.2 (by exact_mod_cast hn)
    rw [UnpackedFloat.normalize, hcmp]
    exact rounds_round hn e

theorem rounds_ofNat (n : ℕ) : Rounds (ofNat .binary64 n) n := by
  have h := rounds_normalize n 0
  rwa [zpow_zero, mul_one] at h

theorem rounds_mul (hu : Canonical u) (hw : Canonical w) (hx : toRat? u = some x)
    (hz : toRat? w = some z) (hx0 : 0 ≤ x) (hz0 : 0 ≤ z) : Rounds (mul .binary64 u w) (x * z) := by
  rcases hu.nonneg_cases hx hx0 with ⟨rfl, s, rfl⟩ | ⟨m₁, e₁, hm₁, rfl, hfits₁, rfl⟩
  · rw [zero_mul]
    rcases hw.nonneg_cases hz hz0 with ⟨rfl, s', rfl⟩ | ⟨m₂, e₂, hm₂, rfl, hfits₂, rfl⟩ <;>
      exact rounds_zero _
  · rcases hw.nonneg_cases hz hz0 with ⟨rfl, s', rfl⟩ | ⟨m₂, e₂, hm₂, rfl, hfits₂, rfl⟩
    · rw [mul_zero]
      exact rounds_zero _
    · have hfine : Fine (m₁ * m₂) (e₁ + e₂) := by
        rcases hfits₁.full with h₁ | h₁
        · exact Or.inl (h₁.trans (Nat.le_mul_of_pos_right _ hm₂))
        · rcases hfits₂.full with h₂ | h₂
          · exact Or.inl (h₂.trans (Nat.le_mul_of_pos_left _ hm₁))
          · exact Or.inr (by omega)
      have h := rounds_exact hfine
      have hvalue : (m₁ * 2 ^ e₁ * (m₂ * 2 ^ e₂) : ℚ) = (m₁ * m₂ : ℕ) * 2 ^ (e₁ + e₂) := by
        rw [zpow_add₀ two_ne_zero]
        push_cast
        ring
      rw [hvalue]
      exact h

theorem rounds_div (hu : Canonical u) (hw : Canonical w) (hx : toRat? u = some x)
    (hz : toRat? w = some z) (hx0 : 0 ≤ x) (hz0 : 0 < z) : Rounds (div .binary64 u w) (x / z) := by
  rcases hw.nonneg_cases hz hz0.le with ⟨rfl, -⟩ | ⟨m₂, e₂, hm₂, rfl, hfits₂, rfl⟩
  · exact absurd hz0 (lt_irrefl 0)
  rcases hu.nonneg_cases hx hx0 with ⟨rfl, s, rfl⟩ | ⟨m₁, e₁, hm₁, rfl, hfits₁, rfl⟩
  · rw [zero_div]
    exact rounds_zero _
  -- the exponent that the quotient is given
  generalize ht : min (e₁ - e₂)
    (Format.binary64.targetExponent (totalExponent m₁ e₁ - totalExponent m₂ e₂)) = t
  have hcore : divCore .binary64 m₁ e₁ m₂ e₂ = (m₁ <<< (e₁ - e₂ - t).toNat / m₂, t,
      accuracyOfFraction (m₁ <<< (e₁ - e₂ - t).toNat % m₂) m₂) := by
    rw [divCore, ht]
  have hdiv : div .binary64 (.finite .positive m₁ e₁ hm₁) (.finite .positive m₂ e₂ hm₂) =
      roundWithAccuracy .binary64 .positive (m₁ <<< (e₁ - e₂ - t).toNat / m₂) t
        (accuracyOfFraction (m₁ <<< (e₁ - e₂ - t).toNat % m₂) m₂) := by
    rw [UnpackedFloat.div, hcore]
    rfl
  have hfine : Fine (m₁ <<< (e₁ - e₂ - t).toNat / m₂) t := by
    rw [targetExponent_eq, totalExponent, totalExponent] at ht
    by_cases hsmall : t ≤ -1074
    · exact Or.inr hsmall
    · refine Or.inl ((Nat.le_div_iff_mul_le hm₂).2 ?_)
      rw [Nat.shiftLeft_eq]
      calc 2 ^ 52 * m₂ ≤ 2 ^ 52 * 2 ^ (m₂.log2 + 1) := Nat.mul_le_mul_left _ Nat.lt_log2_self.le
        _ = 2 ^ (52 + (m₂.log2 + 1)) := (pow_add _ _ _).symm
        _ ≤ 2 ^ (m₁.log2 + (e₁ - e₂ - t).toNat) := Nat.pow_le_pow_right two_pos (by omega)
        _ = 2 ^ m₁.log2 * 2 ^ (e₁ - e₂ - t).toNat := pow_add _ _ _
        _ ≤ m₁ * 2 ^ (e₁ - e₂ - t).toNat := Nat.mul_le_mul_right _ (Nat.log2_self_le hm₁.ne')
  have h := roundWithAccuracy_near
    (held_fraction (m := m₁ <<< (e₁ - e₂ - t).toNat / m₂)
      (Nat.mod_lt (m₁ <<< (e₁ - e₂ - t).toNat) hm₂)) hfine
  have hm₂' : (m₂ : ℚ) ≠ 0 := by exact_mod_cast hm₂.ne'
  have hquotient : ((m₁ <<< (e₁ - e₂ - t).toNat / m₂ : ℕ) : ℚ) +
      (m₁ <<< (e₁ - e₂ - t).toNat % m₂ : ℕ) / m₂ = (m₁ <<< (e₁ - e₂ - t).toNat : ℕ) / m₂ := by
    rw [eq_div_iff hm₂', add_mul, div_mul_cancel₀ _ hm₂']
    exact_mod_cast Nat.div_add_mod' _ _
  have hshift := shiftLeft_mul_zpow m₁ (e₁ - e₂ - t).toNat (e₁ - e₂)
  rw [show e₁ - e₂ - ((e₁ - e₂ - t).toNat : ℤ) = t by omega] at hshift
  have hvalue : (m₁ * 2 ^ e₁ / (m₂ * 2 ^ e₂) : ℚ) =
      (m₁ <<< (e₁ - e₂ - t).toNat : ℕ) / m₂ * 2 ^ t := by
    rw [div_mul_eq_mul_div, hshift, zpow_sub₀ two_ne_zero]
    field_simp
  rw [hdiv, hvalue, ← hquotient]
  exact h

theorem rounds_sub (hu : Canonical u) (hw : Canonical w) (hx : toRat? u = some x)
    (hz : toRat? w = some z) (hz0 : 0 ≤ z) (hle : z ≤ x) : Rounds (sub .binary64 u w) (x - z) := by
  rcases hw.nonneg_cases hz hz0 with ⟨rfl, s', rfl⟩ | ⟨m₂, e₂, hm₂, rfl, hfits₂, rfl⟩
  · rw [sub_zero]
    rcases hu.nonneg_cases hx hle with ⟨rfl, s, rfl⟩ | ⟨m₁, e₁, hm₁, rfl, hfits₁, rfl⟩
    · rw [UnpackedFloat.sub]
      split_ifs <;> exact rounds_zero _
    · exact rounds_self hu hx
  · have hpos : (0 : ℚ) < m₂ * 2 ^ e₂ :=
      mul_pos (by exact_mod_cast hm₂) (zpow_pos two_pos e₂)
    rcases hu.nonneg_cases hx (hz0.trans hle) with ⟨rfl, s, rfl⟩ | ⟨m₁, e₁, hm₁, rfl, hfits₁, rfl⟩
    · exact absurd hle (not_le.2 hpos)
    · -- both numbers as multiples of one unit
      have h₁ := shiftLeft_mul_zpow m₁ (e₁ - min e₁ e₂).toNat e₁
      have h₂ := shiftLeft_mul_zpow m₂ (e₂ - min e₁ e₂).toNat e₂
      rw [show e₁ - ((e₁ - min e₁ e₂).toNat : ℤ) = min e₁ e₂ by omega] at h₁
      rw [show e₂ - ((e₂ - min e₁ e₂).toNat : ℤ) = min e₁ e₂ by omega] at h₂
      have hsub : sub .binary64 (.finite .positive m₁ e₁ hm₁) (.finite .positive m₂ e₂ hm₂) =
          UnpackedFloat.normalize .binary64 ((m₁ <<< (e₁ - min e₁ e₂).toNat : ℕ) -
            (m₂ <<< (e₂ - min e₁ e₂).toNat : ℕ)) (min e₁ e₂) .positive :=
        rfl
      rw [← h₁, ← h₂] at hle ⊢
      have hunit : (0 : ℚ) < 2 ^ min e₁ e₂ := zpow_pos two_pos _
      have hnat : m₂ <<< (e₂ - min e₁ e₂).toNat ≤ m₁ <<< (e₁ - min e₁ e₂).toNat := by
        exact_mod_cast le_of_mul_le_mul_right hle hunit
      have h := rounds_normalize (m₁ <<< (e₁ - min e₁ e₂).toNat -
        m₂ <<< (e₂ - min e₁ e₂).toNat) (min e₁ e₂)
      rw [hsub, ← sub_mul]
      rwa [Nat.cast_sub hnat, Nat.cast_sub hnat] at h

/-- Towards zero, a number that is not negative. -/
theorem toInt_eq_floor {a b : ℤ} (hu : Canonical u) (hx : toRat? u = some x) (hx0 : 0 ≤ x) :
    u.toInt a b = ⌊x⌋₊ := by
  rcases hu.nonneg_cases hx hx0 with ⟨rfl, s, rfl⟩ | ⟨m, e, hm, rfl, hfits, rfl⟩
  · simp [toInt]
  · obtain ⟨hexp, hheld⟩ := shiftToExponent_held (held_exact (m <<< (e - 0).toNat))
      (e - (e - 0).toNat) 0
    have hmantissa := hheld.mantissa_eq
    rw [shiftLeft_mul_zpow, show max (e - ((e - 0).toNat : ℤ)) 0 = 0 by omega, zpow_zero,
      div_one] at hmantissa
    rw [← hmantissa]
    rfl

/-! ## Packing -/

theorem toNat_one_append (m : BitVec 52) : (1#1 ++ m).toNat = 2 ^ 52 + m.toNat := by
  rw [BitVec.toNat_append]
  exact (Nat.shiftLeft_add_eq_or_of_lt m.isLt 1).symm

/-- What a bit pattern stands for fits. -/
theorem canonical_unpack {b : BitVec 64}
    (h : toRat? (UnpackedFloat.unpack .binary64 b) = some x) :
    Canonical (UnpackedFloat.unpack .binary64 b) := by
  have hbias : (Format.binary64.exponentBias : ℤ) + (52 : ℕ) = 1075 := rfl
  have hlt := (@unpackMantissa .binary64 b).isLt
  unfold UnpackedFloat.unpack at h ⊢
  dsimp only at h ⊢
  rw [hbias]
  split_ifs at h ⊢ with h₁ h₂ h₃ h₄
  · cases h
  · cases h
  · exact .zero _
  · refine .finite _ _ _ _ ⟨hlt.trans (by norm_num), ?_, Or.inr ?_⟩ <;> simp [h₃]
  · have hpos : (@unpackExponent .binary64 b).toNat ≠ 0 := fun h0 =>
      h₃ (BitVec.eq_of_toNat_eq h0)
    have hfull := toNat_one_append (@unpackMantissa .binary64 b)
    refine .finite _ _ _ _ ⟨?_, by omega, Or.inl ?_⟩ <;> rw [hfull] <;> omega

/-- The number with this pattern and a positive sign, in units of the smallest one. -/
def units (n : ℕ) : ℕ :=
  if n < 2 ^ 52 then n else (2 ^ 52 + n % 2 ^ 52) * 2 ^ (n / 2 ^ 52 - 1)

/-- The order of the patterns is the order of the numbers. -/
theorem units_mono : Monotone units := by
  refine monotone_nat_of_le_succ fun n => ?_
  unfold units
  rcases lt_trichotomy (n + 1) (2 ^ 52) with h | h | h
  · rw [if_pos h, if_pos (by omega)]
    omega
  · rw [if_pos (by omega), if_neg (by omega), h]
    omega
  · rw [if_neg (by omega), if_neg (by omega)]
    rcases eq_or_ne (n % 2 ^ 52) (2 ^ 52 - 1) with hmod | hmod
    · -- the next number has the next exponent
      obtain ⟨k, hk⟩ : ∃ k, n / 2 ^ 52 = k + 1 := ⟨n / 2 ^ 52 - 1, by omega⟩
      rw [hmod, hk, show (n + 1) % 2 ^ 52 = 0 by omega, show (n + 1) / 2 ^ 52 = k + 2 by omega]
      calc (2 ^ 52 + (2 ^ 52 - 1)) * 2 ^ (k + 1 - 1) ≤ 2 ^ 52 * 2 * 2 ^ k :=
            Nat.mul_le_mul_right _ (by norm_num)
        _ = (2 ^ 52 + 0) * 2 ^ (k + 2 - 1) := by
            rw [mul_assoc, ← pow_succ']
            rfl
    · rw [show (n + 1) % 2 ^ 52 = n % 2 ^ 52 + 1 by omega,
        show (n + 1) / 2 ^ 52 = n / 2 ^ 52 by omega]
      exact Nat.mul_le_mul_right _ (by omega)

/-- A bound by the number with the exponent `k + 1` and the fraction `m`. -/
theorem units_mul_le {n k m : ℕ} (hm : m < 2 ^ 52) (hn : n ≤ (k + 1) * 2 ^ 52 + m) :
    (units n : ℚ) * 2 ^ (-1074 : ℤ) ≤ (2 ^ 52 + m : ℕ) * 2 ^ (k - 1074 : ℤ) := by
  have hbound : units ((k + 1) * 2 ^ 52 + m) = (2 ^ 52 + m) * 2 ^ k := by
    unfold units
    rw [if_neg (by omega), show ((k + 1) * 2 ^ 52 + m) % 2 ^ 52 = m by omega,
      show ((k + 1) * 2 ^ 52 + m) / 2 ^ 52 - 1 = k by omega]
  have hle : (units n : ℚ) ≤ ((2 ^ 52 + m) * 2 ^ k : ℕ) := by
    exact_mod_cast (units_mono hn).trans_eq hbound
  rw [sub_eq_add_neg, zpow_add₀ two_ne_zero, zpow_natCast, ← mul_assoc]
  refine (mul_le_mul_of_nonneg_right hle (zpow_nonneg two_pos.le _)).trans_eq ?_
  rw [Nat.cast_mul, Nat.cast_pow, Nat.cast_two]

theorem toNat_unpackMantissa (b : BitVec 64) :
    (@unpackMantissa .binary64 b).toNat = b.toNat % 2 ^ 52 := by
  simp [unpackMantissa, BitVec.extractLsb_toNat]

theorem toNat_unpackExponent (b : BitVec 64) :
    (@unpackExponent .binary64 b).toNat = b.toNat / 2 ^ 52 % 2 ^ 11 := by
  simp [unpackExponent, BitVec.extractLsb_toNat, Nat.shiftRight_eq_div_pow]

theorem toNat_unpackSign (b : BitVec 64) :
    (@unpackSign .binary64 b).toNat = b.toNat / 2 ^ 63 % 2 := by
  simp [unpackSign, BitVec.extractLsb_toNat, Nat.shiftRight_eq_div_pow]

/-- The number that a pattern stands for. -/
theorem toRat?_unpack {b : BitVec 64} (h : b.toNat % 2 ^ 63 < 0x7FF0000000000000) :
    toRat? (UnpackedFloat.unpack .binary64 b) = some
      (((Sign.ofBitVec (@unpackSign .binary64 b)).apply (units (b.toNat % 2 ^ 63)) : ℤ) *
        (2 : ℚ) ^ (-1074 : ℤ)) := by
  have hexponent := toNat_unpackExponent b
  have hmantissa := toNat_unpackMantissa b
  have hbias : (Format.binary64.exponentBias : ℤ) + (52 : ℕ) = 1075 := rfl
  have hfull := toNat_one_append (@unpackMantissa .binary64 b)
  have hones : @unpackExponent .binary64 b ≠ -1#_ := fun h1 => by
    have := congrArg BitVec.toNat h1
    rw [hexponent] at this
    simp at this
    omega
  unfold UnpackedFloat.unpack units
  dsimp only
  generalize Sign.ofBitVec (@unpackSign .binary64 b) = s
  rw [if_neg hones, hbias, hexponent]
  by_cases hsmall : b.toNat % 2 ^ 63 < 2 ^ 52
  · have hzero : @unpackExponent .binary64 b = 0#_ := BitVec.eq_of_toNat_eq (by
      rw [hexponent]
      simp
      omega)
    rw [if_pos hzero, if_pos hsmall]
    split_ifs with hm
    · have h0 : b.toNat % 2 ^ 63 = 0 := by
        have := congrArg BitVec.toNat hm
        rw [hmantissa] at this
        simp at this
        omega
      rw [h0]
      cases s <;> simp [toRat?, Sign.apply]
    · rw [toRat?, hmantissa, show b.toNat % 2 ^ 52 = b.toNat % 2 ^ 63 by omega,
        show b.toNat / 2 ^ 52 % 2 ^ 11 = 0 by omega]
      rfl
  · have hzero : @unpackExponent .binary64 b ≠ 0#_ := fun h1 => by
      have := congrArg BitVec.toNat h1
      rw [hexponent] at this
      simp at this
      omega
    obtain ⟨k, hk⟩ : ∃ k, b.toNat / 2 ^ 52 % 2 ^ 11 = k + 1 :=
      ⟨b.toNat / 2 ^ 52 % 2 ^ 11 - 1, by omega⟩
    rw [if_neg hzero, if_neg hsmall, toRat?, hfull, hmantissa, hk,
      show b.toNat % 2 ^ 63 % 2 ^ 52 = b.toNat % 2 ^ 52 by omega,
      show b.toNat % 2 ^ 63 / 2 ^ 52 - 1 = k by omega,
      show ((k + 1 : ℕ) : ℤ) - 1075 = k + -1074 by omega, zpow_add₀ two_ne_zero, zpow_natCast]
    generalize b.toNat % 2 ^ 52 = m
    generalize (2 : ℚ) ^ (-1074 : ℤ) = u
    refine congrArg some ?_
    cases s <;> simp only [Sign.apply] <;> push_cast <;> ring

/-- A pattern past that of infinity is not a number. -/
theorem unpack_notANumber {b : BitVec 64} (h : 0x7FF0000000000000 < b.toNat % 2 ^ 63) :
    UnpackedFloat.unpack .binary64 b = .notANumber := by
  have hones : @unpackExponent .binary64 b = -1#_ := BitVec.eq_of_toNat_eq (by
    rw [toNat_unpackExponent]
    simp
    omega)
  have hmantissa : @unpackMantissa .binary64 b ≠ 0#_ := fun h0 => by
    have := congrArg BitVec.toNat h0
    rw [toNat_unpackMantissa] at this
    simp at this
    omega
  unfold UnpackedFloat.unpack
  dsimp only
  rw [if_pos hones, if_neg hmantissa]

theorem toNat_ofNat_of_lt {w n : ℕ} (h : n < 2 ^ w) : (BitVec.ofNat w n).toNat = n := by
  rw [BitVec.toNat_ofNat, Nat.mod_eq_of_lt h]

theorem unpack_normal (s : Sign) {n m : ℕ} (hn : n ≠ 0) (hn' : n + 1 < 2 ^ 11) (hm : 2 ^ 52 ≤ m)
    (hm' : m < 2 ^ 53) : UnpackedFloat.unpack .binary64
      (packComponents .binary64 s (BitVec.ofNat 11 n) (BitVec.ofNat 52 m)) =
        .finite s m (n - 1075) (by omega) := by
  have hexponent := toNat_ofNat_of_lt (w := 11) (n := n) (by omega)
  have hmantissa : (1#1 ++ BitVec.ofNat 52 m).toNat = m := by
    rw [toNat_one_append, BitVec.toNat_ofNat]
    omega
  have hones : BitVec.ofNat 11 n ≠ -1#_ := fun h => by
    have := congrArg BitVec.toNat h
    rw [hexponent] at this
    simp at this
    omega
  have hzero : BitVec.ofNat 11 n ≠ 0#_ := fun h => by
    have := congrArg BitVec.toNat h
    rw [hexponent] at this
    exact hn this
  simp only [UnpackedFloat.unpack, unpackMantissa_packComponents, unpackExponent_packComponents,
    unpackSign_packComponents, Sign.ofBitVec_toBitVec, hones, hzero, ↓reduceIte,
    UnpackedFloat.finite.injEq, true_and]
  exact ⟨hmantissa, by rw [hexponent]; rfl⟩

theorem unpack_subnormal (s : Sign) {m : ℕ} (hm : 0 < m) (hm' : m < 2 ^ 52) :
    UnpackedFloat.unpack .binary64 (packComponents .binary64 s 0#11 (BitVec.ofNat 52 m)) =
      .finite s m (-1074) hm := by
  have hmantissa := toNat_ofNat_of_lt (w := 52) hm'
  have hzero : BitVec.ofNat 52 m ≠ 0#_ := fun h => by
    have := congrArg BitVec.toNat h
    rw [hmantissa] at this
    exact hm.ne' this
  have hones : (0#11 : BitVec 11) ≠ -1#_ := by decide
  simp only [UnpackedFloat.unpack, unpackMantissa_packComponents, unpackExponent_packComponents,
    unpackSign_packComponents, Sign.ofBitVec_toBitVec, hones, hzero, ↓reduceIte, ↓reduceDIte,
    UnpackedFloat.finite.injEq, true_and]
  exact ⟨hmantissa, rfl⟩

/-- A number that is not too large survives packing. -/
theorem unpack_pack (hu : Canonical u) (hsmall : ∀ s m e hm, u = .finite s m e hm → e ≤ 971) :
    UnpackedFloat.unpack .binary64 (UnpackedFloat.pack .binary64 u) = u := by
  cases hu with
  | zero s =>
    simp only [UnpackedFloat.pack, packedZero, UnpackedFloat.unpack, unpackMantissa_packComponents,
      unpackExponent_packComponents, unpackSign_packComponents, Sign.ofBitVec_toBitVec]
    rfl
  | finite s m e hm fits =>
    obtain ⟨hlt, hge, hfull⟩ := fits
    have he := hsmall s m e hm rfl
    have hbias : e + Format.binary64.exponentBias + (52 : ℕ) = e + 1075 := by
      rw [add_assoc]
      rfl
    have hfinite : ¬2 ^ 11 ≤ (e + 1075).toNat + 1 := by omega
    have hlog : m.log2 + 1 = Format.binary64.mantissaBits ↔ 2 ^ 52 ≤ m := by
      have h₁ := Nat.le_log2 (k := 52) hm.ne'
      have h₂ := (Nat.log2_lt hm.ne').2 hlt
      show m.log2 + 1 = 53 ↔ _
      omega
    by_cases hnormal : 2 ^ 52 ≤ m
    · simp only [UnpackedFloat.pack, hbias, hfinite, hlog, hnormal, ↓reduceIte]
      refine (unpack_normal s (n := (e + 1075).toNat) (by omega) (by omega) hnormal hlt).trans ?_
      simp only [UnpackedFloat.finite.injEq, true_and]
      omega
    · simp only [UnpackedFloat.pack, hbias, hfinite, hlog, hnormal, ↓reduceIte]
      refine (unpack_subnormal s hm (not_le.1 hnormal)).trans ?_
      simp only [UnpackedFloat.finite.injEq, true_and]
      exact (hfull.resolve_left hnormal).symm

/-! ## Packed numbers -/

/-- The value of a packed number that is finite. -/
def value? (f : Float.Model) : Option ℚ :=
  toRat? f.unpack

variable {f g : Float.Model}

theorem canonical_of_value? (h : value? f = some x) : Canonical f.unpack :=
  canonical_unpack h

theorem unpack_ofBits (b : UInt64) :
    (Float.Model.ofBits b).unpack = UnpackedFloat.unpack .binary64 b.toBitVec := by
  show UnpackedFloat.unpack .binary64 ((UnpackedFloat.unpack .binary64 b.toBitVec).pack _) = _
  rw [pack_unpack]
  split_ifs with hnan
  · rw [unpack_packedNaN]
    simp only [isNaNBits, decide_eq_true_eq] at hnan
    simp [UnpackedFloat.unpack, hnan]
  · rfl

/-- The number is far below the greatest. -/
def Moderate (x : ℚ) : Prop :=
  x ≤ 2 ^ (1000 : ℤ)

theorem moderate_of_le {k : ℕ} (hx : x ≤ 2 ^ k) (hk : k ≤ 1000 := by norm_num) : Moderate x := by
  refine hx.trans ?_
  rw [← zpow_natCast]
  exact zpow_le_zpow_right₀ one_le_two (by exact_mod_cast hk)

theorem moderate_of_le_one (hx : x ≤ 1) : Moderate x :=
  moderate_of_le (k := 0) (by simpa using hx)

/-- A rounded number that is not too large keeps its value when it is packed. -/
theorem Rounds.value? (h : Rounds u x) (hx : 0 ≤ x) (hmax : Moderate x) :
    ∃ v, value? (Float.Model.pack u) = some v ∧ Near x v := by
  obtain ⟨v, hv, hnear, hu⟩ := h
  have hle := hnear.le_of_le (representable_zpow (by norm_num)) hmax
  refine ⟨v, ?_, hnear⟩
  refine (congrArg toRat? (unpack_pack hu fun s m e hm heq => ?_)).trans hv
  rcases hu.nonneg_cases hv (hnear.nonneg hx) with
    ⟨-, s', hzero⟩ | ⟨m', e', hm', hfinite, hfits, rfl⟩
  · cases heq.symm.trans hzero
  · cases heq.symm.trans hfinite
    by_contra hlarge
    have hfull := hfits.full.resolve_right (by omega)
    have hm : (2 : ℚ) ^ (52 : ℤ) ≤ m := by exact_mod_cast hfull
    have he : (2 : ℚ) ^ (972 : ℤ) ≤ 2 ^ e := zpow_le_zpow_right₀ one_le_two (by omega)
    have hge : (2 : ℚ) ^ (52 + 972 : ℤ) ≤ m * 2 ^ e := by
      rw [zpow_add₀ two_ne_zero]
      exact mul_le_mul hm he (zpow_nonneg two_pos.le _) (Nat.cast_nonneg m)
    have hlt : (2 : ℚ) ^ (1000 : ℤ) < 2 ^ (52 + 972 : ℤ) :=
      zpow_lt_zpow_right₀ one_lt_two (by norm_num)
    exact absurd hle (not_le.2 (hlt.trans_le hge))

variable (hf : value? f = some x) (hg : value? g = some z)

include hf hg

theorem mul_near (hx : 0 ≤ x) (hz : 0 ≤ z) (hmax : Moderate (x * z)) :
    ∃ v, value? (f * g) = some v ∧ Near (x * z) v :=
  (rounds_mul (canonical_of_value? hf) (canonical_of_value? hg) hf hg hx hz).value?
    (mul_nonneg hx hz) hmax

theorem div_near (hx : 0 ≤ x) (hz : 0 < z) (hmax : Moderate (x / z)) :
    ∃ v, value? (f / g) = some v ∧ Near (x / z) v :=
  (rounds_div (canonical_of_value? hf) (canonical_of_value? hg) hf hg hx hz).value?
    (div_nonneg hx hz.le) hmax

theorem sub_near (hz : 0 ≤ z) (hle : z ≤ x) (hmax : Moderate (x - z)) :
    ∃ v, value? (f - g) = some v ∧ Near (x - z) v :=
  (rounds_sub (canonical_of_value? hf) (canonical_of_value? hg) hf hg hz hle).value?
    (sub_nonneg.2 hle) hmax

omit hf hg

theorem ofNat_near {n : ℕ} (hmax : Moderate n) :
    ∃ v, value? (Float.Model.ofNat n) = some v ∧ Near n v :=
  (rounds_ofNat n).value? (Nat.cast_nonneg n) hmax

/-- Natural numbers of at most 53 bits are numbers. -/
theorem value?_ofNat {n : ℕ} (h : n ≤ 2 ^ 53) : value? (Float.Model.ofNat n) = some (n : ℚ) := by
  obtain ⟨v, hv, hnear⟩ := ofNat_near (moderate_of_le (by exact_mod_cast h))
  rw [hv, hnear.eq_self (representable_natCast h)]

/-! ## Numbers that are not -/

theorem div_of_notANumber (h : f.unpack = .notANumber) : (f / g).unpack = .notANumber := by
  refine Eq.trans ?_ (@unpack_packedNaN .binary64)
  show (Float.Model.pack (UnpackedFloat.div .binary64 f.unpack g.unpack)).unpack = _
  rw [h]
  rfl

theorem sub_of_notANumber (h : g.unpack = .notANumber) : (f - g).unpack = .notANumber := by
  refine Eq.trans ?_ (@unpack_packedNaN .binary64)
  show (Float.Model.pack (UnpackedFloat.sub .binary64 f.unpack g.unpack)).unpack = _
  rw [h]
  cases f.unpack <;> rfl

theorem mul_of_notANumber (h : g.unpack = .notANumber) : (f * g).unpack = .notANumber := by
  refine Eq.trans ?_ (@unpack_packedNaN .binary64)
  show (Float.Model.pack (UnpackedFloat.mul .binary64 f.unpack g.unpack)).unpack = _
  rw [h]
  cases f.unpack <;> rfl

end Binary64
