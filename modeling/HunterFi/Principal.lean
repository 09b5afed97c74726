import HunterFi.Base32
import Mathlib.Data.Nat.Notation

/-!
# Principals and the ids made from them

A principal is a byte string of at most 29 bytes. Its text (`Principal::to_text`) is the
dashed base32 of its CRC-32 checksum and its bytes.

The factory makes two kinds of ids by joining a timestamp, a principal's text and a last
part with dashes : transaction ids end in the hex of the canister id, deployment ids in a
counter. `stampId_inj` reads the timestamp and the principal back off an id with a known
last part, `last_of_stampId` the last part if it holds no dash.
-/

set_option linter.unusedSectionVars false

namespace HunterFi

/-- A principal : at most 29 bytes. -/
structure Principal where
  bytes : List UInt8
  length_le : bytes.length ≤ 29
  deriving DecidableEq

namespace Principal

/-- `Principal::anonymous()`. -/
def anonymous : Principal :=
  ⟨[4], by decide⟩

/-- `Principal::to_text`. -/
def toText (p : Principal) : String :=
  String.ofList (Base32.dashed
    (Base32.encode (Base32.wordBytes (Base32.crc32 p.bytes) ++ p.bytes)))

instance : ToString Principal :=
  ⟨toText⟩

instance : Inhabited Principal :=
  ⟨anonymous⟩

theorem toText_injective : Function.Injective toText := by
  intro p q h
  have h4 := Base32.dashed_encode_injective (String.ofList_injective h)
  have hb : p.bytes = q.bytes := (List.append_inj h4 rfl).2
  cases p
  cases q
  congr

end Principal

example : Principal.anonymous.toText = "2vxsx-fae" := by decide

/-! ## Ids -/

/-- `format!("{}-{}-{}", timestamp, caller, last)`. -/
def stampId (timestamp : ℕ) (caller : Principal) (last : String) : String :=
  toString timestamp ++ "-" ++ caller.toText ++ "-" ++ last

theorem dash_notMem_repr (n : ℕ) : '-' ∉ (toString n).toList := by
  intro h
  rw [Nat.toString_eq_repr, Nat.toList_repr] at h
  exact absurd (Nat.isDigit_of_mem_toDigits (by decide) (by decide) h) (by decide)

theorem toString_nat_injective : Function.Injective (toString : ℕ → String) := by
  intro m n h
  have hd := congrArg String.toList h
  rw [Nat.toString_eq_repr, Nat.toString_eq_repr, Nat.toList_repr, Nat.toList_repr] at hd
  rw [← Nat.ofDigitChars_ten_toDigits (n := m), hd, Nat.ofDigitChars_ten_toDigits]

/-- A list cut at its first `x`. -/
theorem append_cons_inj {α : Type*} {x : α} {a a' b b' : List α} (ha : x ∉ a) (ha' : x ∉ a')
    (h : a ++ x :: b = a' ++ x :: b') : a = a' ∧ b = b' := by
  rcases List.append_eq_append_iff.1 h with ⟨c, rfl, hc⟩ | ⟨c, rfl, hc⟩
  · cases c with
    | nil => exact ⟨by simp, by simpa using hc⟩
    | cons y c =>
      simp only [List.cons_append, List.cons.injEq] at hc
      exact absurd (by simp [hc.1]) ha'
  · cases c with
    | nil => exact ⟨by simp, by simpa using hc.symm⟩
    | cons y c =>
      simp only [List.cons_append, List.cons.injEq] at hc
      exact absurd (by simp [hc.1]) ha

/-- A list cut at its last `x`. -/
theorem append_cons_inj_last {α : Type*} {x : α} {a a' b b' : List α} (hb : x ∉ b)
    (hb' : x ∉ b') (h : a ++ x :: b = a' ++ x :: b') : b = b' := by
  have hr : b.reverse ++ x :: a.reverse = b'.reverse ++ x :: a'.reverse := by
    simpa using congrArg List.reverse h
  exact List.reverse_injective (append_cons_inj (by simpa) (by simpa) hr).1

/-- An id with a known last part names its timestamp and its caller. -/
theorem stampId_inj {t t' : ℕ} {c c' : Principal} {last : String}
    (h : stampId t c last = stampId t' c' last) : t = t' ∧ c = c' := by
  have hl : (toString t).toList ++ '-' :: (c.toText.toList ++ ('-' :: last.toList)) =
      (toString t').toList ++ '-' :: (c'.toText.toList ++ ('-' :: last.toList)) := by
    simpa [stampId] using congrArg String.toList h
  obtain ⟨ht, hc⟩ := append_cons_inj (dash_notMem_repr t) (dash_notMem_repr t') hl
  refine ⟨toString_nat_injective (String.toList_inj.1 ht), Principal.toText_injective ?_⟩
  exact String.toList_inj.1 (List.append_cancel_right hc)

/-- An id names its last part, if that holds no dash. -/
theorem last_of_stampId {t t' : ℕ} {c c' : Principal} {last last' : String}
    (hl : '-' ∉ last.toList) (hl' : '-' ∉ last'.toList)
    (h : stampId t c last = stampId t' c' last') : last = last' := by
  have he : ((toString t).toList ++ '-' :: c.toText.toList) ++ '-' :: last.toList =
      ((toString t').toList ++ '-' :: c'.toText.toList) ++ '-' :: last'.toList := by
    simpa [stampId] using congrArg String.toList h
  exact String.toList_inj.1 (append_cons_inj_last hl hl' he)

/-- Ids that end in a counter are different for different counters. -/
theorem counter_of_stampId {t t' : ℕ} {c c' : Principal} {n n' : ℕ}
    (h : stampId t c (toString n) = stampId t' c' (toString n')) : n = n' :=
  toString_nat_injective (last_of_stampId (dash_notMem_repr n) (dash_notMem_repr n') h)

end HunterFi
