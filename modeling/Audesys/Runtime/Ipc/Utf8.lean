import Audesys.Runtime.Ipc.Wire

/-!
# `Runtime.Ipc.Utf8` — the bytes of a string decode to it

`from_utf8_lossy` reads one character after the other. On the bytes of a character it finds the lead byte of
its length, with continuation bytes in the range the lead byte asks for (`utf8Unit_encode`), so on the bytes
of a string nothing is replaced (`lossyString_toUTF8`).
-/

namespace Audesys.Runtime.Ipc

open Audesys.Hal

/-! ## Lead bytes -/

theorem toNat_byte {n : Nat} (h : n < 256) : (UInt8.ofNat n).toNat = n := UInt8.toNat_ofNat_of_lt' h

/-- `leadByte` on numbers. -/
theorem leadByte_eq {n : Nat} (h : n < 256) : leadByte (UInt8.ofNat n) =
    if 0xC2 ≤ n ∧ n ≤ 0xDF then some (1, 0x80, 0xBF)
    else if n = 0xE0 then some (2, 0xA0, 0xBF)
    else if n = 0xED then some (2, 0x80, 0x9F)
    else if 0xE1 ≤ n ∧ n ≤ 0xEF then some (2, 0x80, 0xBF)
    else if n = 0xF0 then some (3, 0x90, 0xBF)
    else if n = 0xF4 then some (3, 0x80, 0x8F)
    else if 0xF1 ≤ n ∧ n ≤ 0xF3 then some (3, 0x80, 0xBF)
    else none := by
  unfold leadByte
  simp only [UInt8.le_iff_toNat_le, ← UInt8.toNat_inj, toNat_byte h]
  rfl

/-- `m` in the low six bits of a continuation byte between `lo` and `hi`. -/
theorem continuation_between {lo hi : UInt8} {m : Nat} (hlo : lo.toNat ≤ m + 0x80) (hhi : m + 0x80 ≤ hi.toNat) :
    lo ≤ UInt8.ofNat (m + 0x80) ∧ UInt8.ofNat (m + 0x80) ≤ hi := by
  have hbyte := hi.toNat_lt
  rw [UInt8.le_iff_toNat_le, UInt8.le_iff_toNat_le, toNat_byte (by omega)]
  exact ⟨hlo, hhi⟩

section
variable {n : Nat}

/-- A three-byte character: the range of the second byte excludes overlong forms and surrogates. -/
theorem leadByte_three {m : Nat} (hlo : 0xE0 ≤ n) (hhi : n ≤ 0xEF) (hm : m < 64) (hlong : n = 0xE0 → 0x20 ≤ m)
    (hsurrogate : n = 0xED → m < 0x20) : ∃ lo hi, leadByte (UInt8.ofNat n) = some (2, lo, hi) ∧
      lo ≤ UInt8.ofNat (m + 0x80) ∧ UInt8.ofNat (m + 0x80) ≤ hi := by
  rw [leadByte_eq (by omega), if_neg (by omega)]
  split
  · rename_i hn
    have hshort := hlong hn
    exact ⟨0xA0, 0xBF, rfl, continuation_between (show 0xA0 ≤ m + 0x80 by omega) (show m + 0x80 ≤ 0xBF by omega)⟩
  · split
    · rename_i hn
      have hlow := hsurrogate hn
      exact ⟨0x80, 0x9F, rfl, continuation_between (show 0x80 ≤ m + 0x80 by omega) (show m + 0x80 ≤ 0x9F by omega)⟩
    · rw [if_pos (by omega)]
      exact ⟨0x80, 0xBF, rfl, continuation_between (show 0x80 ≤ m + 0x80 by omega) (show m + 0x80 ≤ 0xBF by omega)⟩

/-- A four-byte character: the range excludes overlong forms and what is past U+10FFFF. -/
theorem leadByte_four {m : Nat} (hlo : 0xF0 ≤ n) (hhi : n ≤ 0xF4) (hm : m < 64) (hlong : n = 0xF0 → 0x10 ≤ m)
    (hpast : n = 0xF4 → m < 0x10) : ∃ lo hi, leadByte (UInt8.ofNat n) = some (3, lo, hi) ∧
      lo ≤ UInt8.ofNat (m + 0x80) ∧ UInt8.ofNat (m + 0x80) ≤ hi := by
  rw [leadByte_eq (by omega), if_neg (by omega), if_neg (by omega), if_neg (by omega), if_neg (by omega)]
  split
  · rename_i hn
    have hshort := hlong hn
    exact ⟨0x90, 0xBF, rfl, continuation_between (show 0x90 ≤ m + 0x80 by omega) (show m + 0x80 ≤ 0xBF by omega)⟩
  · split
    · rename_i hn
      have hlow := hpast hn
      exact ⟨0x80, 0x8F, rfl, continuation_between (show 0x80 ≤ m + 0x80 by omega) (show m + 0x80 ≤ 0x8F by omega)⟩
    · rw [if_pos (by omega)]
      exact ⟨0x80, 0xBF, rfl, continuation_between (show 0x80 ≤ m + 0x80 by omega) (show m + 0x80 ≤ 0xBF by omega)⟩

end

/-! ## Characters -/

theorem char_bounds (c : Char) : c.val.toNat < 0xD800 ∨ (0xDFFF < c.val.toNat ∧ c.val.toNat < 0x110000) := c.valid

theorem continuation_cons {k : Nat} {lo hi b : UInt8} {t : List UInt8} (h : lo ≤ b ∧ b ≤ hi) :
    continuation (k + 1) lo hi (b :: t) = b :: continuation k 0x80 0xBF t := if_pos h

theorem continuation_zero (lo hi : UInt8) (t : List UInt8) : continuation 0 lo hi t = [] := by
  cases t <;> rfl

theorem continuation_any {m : Nat} (h : m < 64) :
    (0x80 : UInt8) ≤ UInt8.ofNat (m + 0x80) ∧ UInt8.ofNat (m + 0x80) ≤ 0xBF :=
  continuation_between (show 0x80 ≤ m + 0x80 by omega) (show m + 0x80 ≤ 0xBF by omega)

/-- A character of more than one byte, by its lead byte and its continuation bytes. -/
theorem utf8Unit_multi {b : UInt8} {k : Nat} {lo hi : UInt8} {t conts : List UInt8} {v : Nat} (hb : ¬ b < 0x80)
    (hlead : leadByte b = some (k, lo, hi)) (hconts : continuation k lo hi t = conts) (hk : conts.length = k)
    (hv : conts.foldl (fun acc c => acc * 64 + c.toNat % 64) (b.toNat % 2 ^ (6 - k)) = v) :
    utf8Unit b t = (Char.ofNat v, k) := by
  unfold utf8Unit
  rw [if_neg hb, hlead]
  simp only [hconts, hk, if_true, hv]

theorem not_ascii {n : Nat} (hlo : 0x80 ≤ n) (hhi : n < 256) : ¬ UInt8.ofNat n < 0x80 := by
  rw [UInt8.lt_iff_toNat_lt, toNat_byte hhi]
  exact Nat.not_lt.2 hlo

theorem low_bits (m : Nat) (h : m < 64) : (UInt8.ofNat (m + 0x80)).toNat % 64 = m := by
  rw [toNat_byte (by omega)]
  omega

section
variable {v : Nat} (rest : List UInt8)

theorem utf8Unit_two (hlo : 0x80 ≤ v) (hhi : v ≤ 0x7FF) :
    utf8Unit (UInt8.ofNat (v / 64 % 0x20 + 0xC0)) (UInt8.ofNat (v % 0x40 + 0x80) :: rest) = (Char.ofNat v, 1) := by
  have hlead : leadByte (UInt8.ofNat (v / 64 % 0x20 + 0xC0)) = some (1, 0x80, 0xBF) := by
    rw [leadByte_eq (by omega), if_pos (by omega)]
  have hconts : continuation 1 0x80 0xBF (UInt8.ofNat (v % 0x40 + 0x80) :: rest) = [UInt8.ofNat (v % 0x40 + 0x80)] := by
    rw [continuation_cons (continuation_any (by omega)), continuation_zero]
  refine utf8Unit_multi (not_ascii (by omega) (by omega)) hlead hconts rfl ?_
  rw [List.foldl_cons, List.foldl_nil, low_bits _ (by omega), toNat_byte (by omega)]
  show (v / 64 % 32 + 192) % 32 * 64 + v % 64 = v
  omega

theorem utf8Unit_three (hlo : 0x800 ≤ v) (hhi : v ≤ 0xFFFF) (hvalid : v < 0xD800 ∨ 0xDFFF < v) :
    utf8Unit (UInt8.ofNat (v / 4096 % 0x10 + 0xE0)) (UInt8.ofNat (v / 64 % 0x40 + 0x80) ::
      UInt8.ofNat (v % 0x40 + 0x80) :: rest) = (Char.ofNat v, 2) := by
  obtain ⟨lo, hi, hlead, hrange⟩ := @leadByte_three (v / 4096 % 0x10 + 0xE0) (v / 64 % 0x40) (by omega) (by omega)
    (by omega) (by omega) (by omega)
  have hconts : continuation 2 lo hi (UInt8.ofNat (v / 64 % 0x40 + 0x80) :: UInt8.ofNat (v % 0x40 + 0x80) :: rest) =
      [UInt8.ofNat (v / 64 % 0x40 + 0x80), UInt8.ofNat (v % 0x40 + 0x80)] := by
    rw [continuation_cons hrange, continuation_cons (continuation_any (by omega)), continuation_zero]
  refine utf8Unit_multi (not_ascii (by omega) (by omega)) hlead hconts rfl ?_
  rw [List.foldl_cons, List.foldl_cons, List.foldl_nil, low_bits _ (by omega), low_bits _ (by omega),
    toNat_byte (by omega)]
  show ((v / 4096 % 16 + 224) % 16 * 64 + v / 64 % 64) * 64 + v % 64 = v
  omega

theorem utf8Unit_four (hlo : 0x10000 ≤ v) (hhi : v < 0x110000) :
    utf8Unit (UInt8.ofNat (v / 262144 % 0x08 + 0xF0)) (UInt8.ofNat (v / 4096 % 0x40 + 0x80) ::
      UInt8.ofNat (v / 64 % 0x40 + 0x80) :: UInt8.ofNat (v % 0x40 + 0x80) :: rest) = (Char.ofNat v, 3) := by
  obtain ⟨lo, hi, hlead, hrange⟩ := @leadByte_four (v / 262144 % 0x08 + 0xF0) (v / 4096 % 0x40) (by omega) (by omega)
    (by omega) (by omega) (by omega)
  have hconts : continuation 3 lo hi (UInt8.ofNat (v / 4096 % 0x40 + 0x80) :: UInt8.ofNat (v / 64 % 0x40 + 0x80) ::
      UInt8.ofNat (v % 0x40 + 0x80) :: rest) =
      [UInt8.ofNat (v / 4096 % 0x40 + 0x80), UInt8.ofNat (v / 64 % 0x40 + 0x80), UInt8.ofNat (v % 0x40 + 0x80)] := by
    rw [continuation_cons hrange, continuation_cons (continuation_any (by omega)),
      continuation_cons (continuation_any (by omega)), continuation_zero]
  refine utf8Unit_multi (not_ascii (by omega) (by omega)) hlead hconts rfl ?_
  rw [List.foldl_cons, List.foldl_cons, List.foldl_cons, List.foldl_nil, low_bits _ (by omega), low_bits _ (by omega),
    low_bits _ (by omega), toNat_byte (by omega)]
  show (((v / 262144 % 8 + 240) % 8 * 64 + v / 4096 % 64) * 64 + v / 64 % 64) * 64 + v % 64 = v
  omega

end

/-- **One character** of the bytes of a string. -/
theorem utf8Unit_encode (c : Char) (rest : List UInt8) :
    ∃ b t, String.utf8EncodeChar c = b :: t ∧ utf8Unit b (t ++ rest) = (c, t.length) := by
  have hbounds := char_bounds c
  have hchar : Char.ofNat c.val.toNat = c := Char.ofNat_toNat c
  unfold String.utf8EncodeChar
  generalize c.val.toNat = v at hbounds hchar
  rw [← hchar]
  simp only
  split
  · -- ASCII
    rename_i h1
    refine ⟨_, [], rfl, ?_⟩
    have hlt : UInt8.ofNat v < 0x80 := by
      rw [UInt8.lt_iff_toNat_lt, toNat_byte (by omega)]
      show v < 128
      omega
    unfold utf8Unit
    rw [if_pos hlt, toNat_byte (by omega)]
    rfl
  · split
    · exact ⟨_, [_], rfl, utf8Unit_two rest (by omega) (by omega)⟩
    · split
      · exact ⟨_, [_, _], rfl, utf8Unit_three rest (by omega) (by omega) (by omega)⟩
      · exact ⟨_, [_, _, _], rfl, utf8Unit_four rest (by omega) (by omega)⟩

/-! ## Strings -/

theorem utf8LossyAux_encode (cs : List Char) {fuel : Nat} (h : (cs.flatMap String.utf8EncodeChar).length ≤ fuel) :
    utf8LossyAux fuel (cs.flatMap String.utf8EncodeChar) = cs := by
  induction cs generalizing fuel with
  | nil => cases fuel <;> rfl
  | cons c cs ih =>
    obtain ⟨b, t, hencode, hunit⟩ := utf8Unit_encode c (cs.flatMap String.utf8EncodeChar)
    rw [List.flatMap_cons, hencode] at h ⊢
    rw [List.length_append, List.length_cons] at h
    cases fuel with
    | zero => omega
    | succ fuel =>
      rw [List.cons_append, utf8LossyAux, hunit]
      simp only [List.drop_left]
      rw [ih (by omega)]

/-- **Nothing is replaced** in the bytes of a string. -/
theorem lossyString_toUTF8 (s : String) : lossyString s.toUTF8.toList = s := by
  unfold lossyString utf8Lossy
  rw [toUTF8_toList, utf8LossyAux_encode _ (Nat.le_refl _), String.ofList_toList]

end Audesys.Runtime.Ipc
