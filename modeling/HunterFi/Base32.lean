import Mathlib.Data.Nat.Bitwise
import Mathlib.Data.List.Basic

/-!
# Base32 text of a byte string

The unpadded lower-case base32 text of a byte string, cut into dash-separated groups of
five, and the CRC-32 checksum. `encode_injective` and `dashed_injective` : different byte
strings have different texts, because the number of bytes is known from the number of
letters, and the letters are what is left once the dashes are dropped.
-/

namespace Base32

/-- The `k` low bits of `n`, the highest first. -/
def bits : ℕ → ℕ → List Bool
  | 0, _ => []
  | k + 1, n => n.testBit k :: bits k n

/-- The bits of a byte string. -/
def byteBits (bs : List UInt8) : List Bool :=
  bs.flatMap fun b => bits 8 b.toNat

/-- The base32 alphabet. -/
def alphabet : List Char :=
  "abcdefghijklmnopqrstuvwxyz234567".toList

/-- The letter of five bits. -/
def letter (a b c d e : Bool) : Char :=
  alphabet.getD (16 * a.toNat + 8 * b.toNat + 4 * c.toNat + 2 * d.toNat + e.toNat) 'a'

/-- The letters of a bit string, the last group filled up with zeros. -/
def encodeBits : List Bool → List Char
  | [] => []
  | [a] => [letter a false false false false]
  | [a, b] => [letter a b false false false]
  | [a, b, c] => [letter a b c false false]
  | [a, b, c, d] => [letter a b c d false]
  | a :: b :: c :: d :: e :: rest => letter a b c d e :: encodeBits rest

/-- The base32 letters of a byte string. -/
def encode (bs : List UInt8) : List Char :=
  encodeBits (byteBits bs)

/-- A dash after every five letters. -/
def dashed : List Char → List Char
  | a :: b :: c :: d :: e :: f :: rest => a :: b :: c :: d :: e :: '-' :: dashed (f :: rest)
  | l => l

/-- One byte of the CRC-32, reflected polynomial `0xEDB88320`. -/
def crcStep (c : UInt32) (b : UInt8) : UInt32 :=
  (List.range 8).foldl (fun c _ => if c &&& 1 = 1 then (c >>> 1) ^^^ 0xEDB88320 else c >>> 1)
    (c ^^^ b.toUInt32)

/-- The CRC-32 checksum of a byte string. -/
def crc32 (bs : List UInt8) : UInt32 :=
  bs.foldl crcStep 0xFFFFFFFF ^^^ 0xFFFFFFFF

/-- The four bytes of a word, the highest first. -/
def wordBytes (w : UInt32) : List UInt8 :=
  [(w >>> 24).toUInt8, (w >>> 16).toUInt8, (w >>> 8).toUInt8, w.toUInt8]

/-! ## Bits -/

theorem length_bits (k n : ℕ) : (bits k n).length = k := by
  induction k with
  | zero => rfl
  | succ k ih => simp [bits, ih]

theorem testBit_eq_of_bits_eq {k m n : ℕ} (h : bits k m = bits k n) :
    ∀ i < k, m.testBit i = n.testBit i := by
  induction k with
  | zero => simp
  | succ k ih =>
    simp only [bits, List.cons.injEq] at h
    intro i hi
    rcases Nat.lt_succ_iff_lt_or_eq.1 hi with hi | rfl
    · exact ih h.2 i hi
    · exact h.1

/-- The lowest bits tell numbers apart that have no others. -/
theorem bits_injective {k m n : ℕ} (hm : m < 2 ^ k) (hn : n < 2 ^ k) (h : bits k m = bits k n) :
    m = n := by
  refine Nat.eq_of_testBit_eq fun i => ?_
  rcases Nat.lt_or_ge i k with hi | hi
  · exact testBit_eq_of_bits_eq h i hi
  · have hk := Nat.pow_le_pow_right Nat.two_pos hi
    rw [Nat.testBit_lt_two_pow (hm.trans_le hk), Nat.testBit_lt_two_pow (hn.trans_le hk)]

theorem length_byteBits (bs : List UInt8) : (byteBits bs).length = 8 * bs.length := by
  induction bs with
  | nil => rfl
  | cons b bs ih =>
    simp only [byteBits, List.flatMap_cons, List.length_append, length_bits] at ih ⊢
    rw [ih, List.length_cons]
    omega

/-- The bits tell byte strings apart. -/
theorem byteBits_injective : Function.Injective byteBits := by
  intro bs
  induction bs with
  | nil =>
    intro cs h
    have := congrArg List.length h
    rw [length_byteBits, length_byteBits] at this
    exact (List.length_eq_zero_iff.1 (by simpa using this.symm)).symm
  | cons b bs ih =>
    intro cs h
    cases cs with
    | nil =>
      have := congrArg List.length h
      rw [length_byteBits, length_byteBits] at this
      simp at this
    | cons c cs =>
      simp only [byteBits, List.flatMap_cons] at h
      obtain ⟨hbc, hrest⟩ := List.append_inj h (by rw [length_bits, length_bits])
      have hb : b.toNat = c.toNat :=
        bits_injective (k := 8) b.toNat_lt c.toNat_lt hbc
      rw [UInt8.toNat_inj.1 hb, ih hrest]

/-! ## Letters -/

/-- The five bits of a letter. -/
def letterBits (c : Char) : List Bool :=
  bits 5 (alphabet.idxOf c)

/-- A letter tells its five bits. -/
theorem letterBits_letter : ∀ a b c d e, letterBits (letter a b c d e) = [a, b, c, d, e] := by
  decide

theorem letter_ne_dash : ∀ a b c d e, letter a b c d e ≠ '-' := by
  decide

/-- The letters give the bits back, with fewer than five zeros behind them. -/
theorem flatMap_encodeBits : ∀ bs : List Bool, ∃ n < 5,
    (encodeBits bs).flatMap letterBits = bs ++ List.replicate n false
  | [] => ⟨0, by decide, rfl⟩
  | [a] => ⟨4, by decide, by simp [encodeBits, letterBits_letter]⟩
  | [a, b] => ⟨3, by decide, by simp [encodeBits, letterBits_letter]⟩
  | [a, b, c] => ⟨2, by decide, by simp [encodeBits, letterBits_letter]⟩
  | [a, b, c, d] => ⟨1, by decide, by simp [encodeBits, letterBits_letter]⟩
  | a :: b :: c :: d :: e :: rest => by
    obtain ⟨n, hn, h⟩ := flatMap_encodeBits rest
    exact ⟨n, hn, by simp [encodeBits, letterBits_letter, h]⟩

/-- The encoding tells byte strings apart. -/
theorem encode_injective : Function.Injective encode := by
  intro bs cs h
  obtain ⟨m, hm, hbs⟩ := flatMap_encodeBits (byteBits bs)
  obtain ⟨n, hn, hcs⟩ := flatMap_encodeBits (byteBits cs)
  have heq : byteBits bs ++ List.replicate m false = byteBits cs ++ List.replicate n false := by
    rw [← hbs, ← hcs]
    exact congrArg _ h
  have hlen := congrArg List.length heq
  simp only [List.length_append, List.length_replicate, length_byteBits] at hlen
  refine byteBits_injective (List.append_inj heq ?_).1
  rw [length_byteBits, length_byteBits]
  omega

theorem dash_notMem_encodeBits : ∀ bs : List Bool, '-' ∉ encodeBits bs
  | [] => by simp [encodeBits]
  | [_] => by simpa [encodeBits] using (letter_ne_dash _ _ _ _ _).symm
  | [_, _] => by simpa [encodeBits] using (letter_ne_dash _ _ _ _ _).symm
  | [_, _, _] => by simpa [encodeBits] using (letter_ne_dash _ _ _ _ _).symm
  | [_, _, _, _] => by simpa [encodeBits] using (letter_ne_dash _ _ _ _ _).symm
  | _ :: _ :: _ :: _ :: _ :: rest => by
    simpa [encodeBits, dash_notMem_encodeBits rest] using (letter_ne_dash _ _ _ _ _).symm

/-! ## Dashes -/

theorem filter_dash {l : List Char} (h : '-' ∉ l) : l.filter (· ≠ '-') = l := by
  rw [List.filter_eq_self]
  exact fun x hx => by simpa using ne_of_mem_of_not_mem hx h

/-- Dropping the dashes gives the letters back. -/
theorem filter_dashed : ∀ l : List Char, '-' ∉ l → (dashed l).filter (· ≠ '-') = l
  | a :: b :: c :: d :: e :: f :: rest, h => by
    have ih := filter_dashed (f :: rest) fun hf => h (by simp [List.mem_cons.1 hf])
    have h5 := filter_dash (l := [a, b, c, d, e]) fun h5 => h (by
      simp only [List.mem_cons, List.not_mem_nil, or_false] at h5 ⊢
      tauto)
    calc (dashed (a :: b :: c :: d :: e :: f :: rest)).filter (· ≠ '-')
        = [a, b, c, d, e].filter (· ≠ '-') ++ (dashed (f :: rest)).filter (· ≠ '-') := by
          rw [← List.filter_append]
          simp [dashed, List.filter_cons]
      _ = a :: b :: c :: d :: e :: f :: rest := by rw [h5, ih]; rfl
  | [], _ => rfl
  | [_], h => filter_dash h
  | [_, _], h => filter_dash h
  | [_, _, _], h => filter_dash h
  | [_, _, _, _], h => filter_dash h
  | [_, _, _, _, _], h => filter_dash h

/-- So it does in groups with dashes. -/
theorem dashed_encode_injective : Function.Injective fun bs => dashed (encode bs) := by
  intro bs cs h
  apply encode_injective
  rw [← filter_dashed (encode bs) (dash_notMem_encodeBits _),
    ← filter_dashed (encode cs) (dash_notMem_encodeBits _)]
  exact congrArg (List.filter (· ≠ '-')) h

end Base32
