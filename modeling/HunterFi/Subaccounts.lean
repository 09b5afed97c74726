import HunterFi.Principal
import HunterFi.Sequences

/-!
# Subaccounts of principals

A canister keeps the tokens of its users apart by 32-byte subaccounts. A principal's subaccount
begins with the number of its bytes, then come the bytes, and zeros fill the rest.

`principalToSubaccount_eq` : the loop copies every byte, since a principal has at most 29 of them.
So no two principals share a subaccount, and the number at the front tells where the principal
ends.
-/

set_option linter.unusedSectionVars false

namespace HunterFi

/-- `principal_to_subaccount`. -/
def principalToSubaccount (principal : Principal) : List UInt8 :=
  let bytes := principal.bytes
  let defaultArr := (List.replicate 32 0).set 0 (UInt8.ofNat bytes.length)
  bytes.zipIdx.foldl (fun arr x => if x.2 < 31 then arr.set (x.2 + 1) x.1 else arr) defaultArr

/-- The bytes that a number at the front announces. -/
def readPrefixed : List UInt8 → List UInt8
  | [] => []
  | n :: bytes => bytes.take n.toNat

theorem readPrefixed_cons {n : ℕ} (hn : n < 2 ^ 8) {bytes : List UInt8} (hlength : bytes.length = n)
    (rest : List UInt8) : readPrefixed (UInt8.ofNat n :: (bytes ++ rest)) = bytes := by
  rw [readPrefixed, UInt8.toNat_ofNat_of_lt' hn, List.take_left' hlength]

/-- The guard of the copying loop holds of every byte of a principal. -/
theorem copy_eq_write {bytes : List UInt8} (h : bytes.length ≤ 31) (arr : List UInt8) :
    bytes.zipIdx.foldl (fun arr x => if x.2 < 31 then arr.set (x.2 + 1) x.1 else arr) arr =
      Sequences.write 1 bytes arr := by
  have hshift : bytes.zipIdx 1 = bytes.zipIdx.map (Prod.map id (· + 1)) :=
    List.zipIdx_succ
  rw [Sequences.write, hshift, List.foldl_map]
  refine List.foldl_ext _ _ arr fun arr x hx => ?_
  have hlt : x.2 < 31 := (List.snd_lt_of_mem_zipIdx hx).trans_le h
  rw [if_pos hlt]
  rfl

/-- The number of the bytes, the bytes, and zeros. -/
theorem principalToSubaccount_eq (p : Principal) : principalToSubaccount p =
    UInt8.ofNat p.bytes.length :: (p.bytes ++ List.replicate (31 - p.bytes.length) 0) := by
  have hlength := p.length_le
  have hfits : 1 + p.bytes.length ≤
      ((List.replicate 32 (0 : UInt8)).set 0 (UInt8.ofNat p.bytes.length)).length := by
    rw [List.length_set, List.length_replicate]
    omega
  rw [principalToSubaccount, copy_eq_write (by omega), Sequences.write_eq p.bytes hfits,
    List.drop_set_of_lt (by omega), List.drop_replicate, Nat.sub_add_eq]
  rfl

example : principalToSubaccount Principal.anonymous = 1 :: 4 :: List.replicate 30 0 := by decide

/-- No two principals share a subaccount : a principal is read back off its 32 bytes. -/
theorem principalToSubaccount_decodes : Function.Injective principalToSubaccount ∧
    ∀ p, (principalToSubaccount p).length = 32 ∧
      readPrefixed (principalToSubaccount p) = p.bytes := by
  have hread : ∀ p, readPrefixed (principalToSubaccount p) = p.bytes := by
    intro p
    have hlength := p.length_le
    rw [principalToSubaccount_eq, readPrefixed_cons (by omega) rfl]
  refine ⟨fun p q h => ?_, fun p => ⟨?_, hread p⟩⟩
  · have hbytes : p.bytes = q.bytes := by rw [← hread p, h, hread q]
    cases p
    cases q
    congr
  · have hlength := p.length_le
    rw [principalToSubaccount_eq, List.length_cons, List.length_append, List.length_replicate]
    omega

end HunterFi
