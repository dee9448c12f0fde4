import Mathlib.Data.Nat.Bitwise

/-!
# `Lib.Bits` — the bits of a byte string

Flags packed into bytes, each byte from its lowest bit on. A packer starts with zeros and sets one bit after the other;
the bits that it does not set stay zero, those of an unfinished last byte included.
-/

namespace Audesys.Lib

/-- Bit `i`, in byte `i / 8`. -/
def bitAt (bytes : List UInt8) (i : Nat) : Bool := (bytes.getD (i / 8) 0).toNat.testBit (i % 8)

theorem bitAt_zeros (n i : Nat) : bitAt (List.replicate n 0) i = false := by
  have hbyte : (List.replicate n (0 : UInt8)).getD (i / 8) 0 = 0 := by
    rw [List.getD_eq_getElem?_getD, List.getElem?_replicate]
    split <;> rfl
  unfold bitAt
  rw [hbyte]
  exact Nat.zero_testBit _

theorem toNat_oneBit {k : Nat} (h : k < 8) : (1 <<< UInt8.ofNat k : UInt8).toNat = 2 ^ k := by
  have hk : (UInt8.ofNat k).toNat = k := by
    rw [UInt8.toNat_ofNat']
    exact Nat.mod_eq_of_lt (by omega)
  have hlt : 2 ^ k < 2 ^ 8 := Nat.pow_lt_pow_right (by decide) h
  rw [UInt8.toNat_shiftLeft, hk, Nat.mod_eq_of_lt h, UInt8.toNat_one, Nat.one_shiftLeft, Nat.mod_eq_of_lt hlt]

/-- **One more bit**: the others stay. -/
theorem bitAt_modify {bytes : List UInt8} {i : Nat} (h : i / 8 < bytes.length) (j : Nat) :
    bitAt (bytes.modify (i / 8) fun b => b ||| 1 <<< UInt8.ofNat (i % 8)) j = (decide (i = j) || bitAt bytes j) := by
  unfold bitAt
  rw [List.getD_eq_getElem?_getD, List.getD_eq_getElem?_getD, List.getElem?_modify]
  by_cases hbyte : i / 8 = j / 8
  · -- the byte of the new bit
    have hget : bytes[j / 8]? = some bytes[j / 8] := List.getElem?_eq_getElem (hbyte ▸ h)
    have hsame : i % 8 = j % 8 ↔ i = j := by omega
    rw [hget, Option.map_eq_map, Option.map_some, Option.getD_some, Option.getD_some, if_pos hbyte, UInt8.toNat_or,
      toNat_oneBit (Nat.mod_lt _ (by decide)), Nat.testBit_or, Nat.testBit_two_pow, Bool.or_comm,
      decide_eq_decide.2 hsame]
  · have hne : i ≠ j := fun heq => hbyte (by rw [heq])
    rw [decide_eq_false hne, Bool.false_or]
    cases bytes[j / 8]? with
    | none => rfl
    | some b =>
      rw [Option.map_eq_map, Option.map_some, if_neg hbyte]

end Audesys.Lib
