import Mathlib.Data.List.Basic

/-!
# `Lib.Utf16` — texts as code units and as bytes

The UTF-16 code units of a text, which are what the strings of a JavaScript program consist of, next to its UTF-8 bytes. A
text of ASCII characters has one unit and one byte for each; any other text has more bytes than units
(`length_utf16_lt`).
-/

open List

namespace Audesys.Lib

variable {s : List Char}

/-- The code units of a character: one, or a surrogate pair. -/
def utf16Char (c : Char) : List Nat :=
  if c.toNat < 0x10000 then [c.toNat]
  else [0xD800 + (c.toNat - 0x10000) / 0x400, 0xDC00 + (c.toNat - 0x10000) % 0x400]

def utf16 (s : List Char) : List Nat := s.flatMap utf16Char

def utf8 (s : List Char) : List UInt8 := s.flatMap String.utf8EncodeChar

/-- White space of a JavaScript string: `\s`, and what `trim` takes away. -/
def isJsSpace (u : Nat) : Bool :=
  (9 ≤ u && u ≤ 13) || u = 32 || u = 0xA0 || u = 0x1680 || (0x2000 ≤ u && u ≤ 0x200A) || u = 0x2028 || u = 0x2029 ||
    u = 0x202F || u = 0x205F || u = 0x3000 || u = 0xFEFF

/-- A text of ASCII characters. -/
def IsAscii (s : List Char) : Prop := ∀ c ∈ s, c.toNat < 128

instance (s : List Char) : Decidable (IsAscii s) := List.decidableBAll _ s

theorem utf16_append (s t : List Char) : utf16 (s ++ t) = utf16 s ++ utf16 t := flatMap_append ..

theorem utf8_append (s t : List Char) : utf8 (s ++ t) = utf8 s ++ utf8 t := flatMap_append ..

theorem isAscii_append {s t : List Char} : IsAscii (s ++ t) ↔ IsAscii s ∧ IsAscii t := forall_mem_append

/-- At most four bytes for each character. -/
theorem length_utf8_le (s : List Char) : (utf8 s).length ≤ 4 * s.length := by
  induction s with
  | nil => exact Nat.le_refl _
  | cons c s ih =>
    have hcons : utf8 (c :: s) = String.utf8EncodeChar c ++ utf8 s := flatMap_cons ..
    have hfour := c.utf8Size_le_four
    rw [hcons, length_append, String.length_utf8EncodeChar, length_cons]
    omega

/-! ## ASCII -/

theorem toNat_ofNat_ascii {n : Nat} (h : n < 128) : (Char.ofNat n).toNat = n := by
  have hvalid : n.isValidChar := Or.inl (by omega)
  unfold Char.ofNat
  rw [dif_pos hvalid]
  rfl

theorem utf16Char_ascii {c : Char} (h : c.toNat < 128) : utf16Char c = [c.toNat] := if_pos (by omega)

theorem utf8EncodeChar_ascii {c : Char} (h : c.toNat < 128) : String.utf8EncodeChar c = [UInt8.ofNat c.toNat] := by
  have hsize : c.utf8Size = 1 := Char.utf8Size_eq_one_iff.2 (UInt32.le_iff_toNat_le.2 (Nat.le_of_lt_succ h))
  rw [String.utf8EncodeChar_eq_singleton hsize]
  rfl

theorem utf16_ascii (h : IsAscii s) : utf16 s = s.map Char.toNat := by
  induction s with
  | nil => rfl
  | cons c s ih =>
    have hc := utf16Char_ascii (h c (mem_cons_self ..))
    have hs := ih fun d hd => h d (mem_cons_of_mem _ hd)
    unfold utf16 at hs ⊢
    rw [flatMap_cons, hc, hs]
    rfl

theorem utf8_ascii (h : IsAscii s) : utf8 s = s.map fun c => UInt8.ofNat c.toNat := by
  induction s with
  | nil => rfl
  | cons c s ih =>
    have hc := utf8EncodeChar_ascii (h c (mem_cons_self ..))
    have hs := ih fun d hd => h d (mem_cons_of_mem _ hd)
    unfold utf8 at hs ⊢
    rw [flatMap_cons, hc, hs]
    rfl

theorem length_utf16_ascii (h : IsAscii s) : (utf16 s).length = (utf8 s).length := by
  rw [utf16_ascii h, utf8_ascii h, length_map, length_map]

/-! ## Other texts -/

theorem length_utf16Char_le (c : Char) : (utf16Char c).length ≤ (String.utf8EncodeChar c).length := by
  rw [String.length_utf8EncodeChar]
  unfold utf16Char
  by_cases hc : c.toNat < 0x10000
  · rw [if_pos hc]
    exact c.utf8Size_pos
  · rw [if_neg hc]
    have hlarge : 0xffff < c.val := UInt32.lt_iff_toNat_lt.2 (Nat.lt_of_succ_le (Nat.le_of_not_lt hc))
    rw [Char.utf8Size_eq_four_iff.2 hlarge]
    exact Nat.le_of_ble_eq_true rfl

theorem length_utf16Char_lt {c : Char} (h : ¬ c.toNat < 128) : (utf16Char c).length < (String.utf8EncodeChar c).length := by
  rw [String.length_utf8EncodeChar]
  have hsize : c.utf8Size ≠ 1 := by
    intro hone
    exact h (Nat.lt_succ_of_le (UInt32.le_iff_toNat_le.1 (Char.utf8Size_eq_one_iff.1 hone)))
  have hpos := c.utf8Size_pos
  unfold utf16Char
  by_cases hc : c.toNat < 0x10000
  · rw [if_pos hc, length_singleton]
    omega
  · rw [if_neg hc]
    have hlarge : 0xffff < c.val := UInt32.lt_iff_toNat_lt.2 (Nat.lt_of_succ_le (Nat.le_of_not_lt hc))
    rw [Char.utf8Size_eq_four_iff.2 hlarge]
    exact Nat.lt_of_lt_of_le (Nat.lt_succ_self 2) (Nat.le_succ 3)

theorem length_utf16_le (s : List Char) : (utf16 s).length ≤ (utf8 s).length := by
  induction s with
  | nil => exact Nat.le_refl _
  | cons c s ih =>
    unfold utf16 utf8 at ih ⊢
    rw [flatMap_cons, flatMap_cons, length_append, length_append]
    exact Nat.add_le_add (length_utf16Char_le c) ih

/-- **Texts that are not ASCII have more bytes than code units.** -/
theorem length_utf16_lt (h : ¬ IsAscii s) : (utf16 s).length < (utf8 s).length := by
  induction s with
  | nil => exact absurd (fun _ hc => absurd hc not_mem_nil) h
  | cons c s ih =>
    have hrest := length_utf16_le s
    have hfirst := length_utf16Char_le c
    have hadd : (utf16 (c :: s)).length = (utf16Char c).length + (utf16 s).length := by
      unfold utf16
      rw [flatMap_cons, length_append]
    have hadd' : (utf8 (c :: s)).length = (String.utf8EncodeChar c).length + (utf8 s).length := by
      unfold utf8
      rw [flatMap_cons, length_append]
    rw [hadd, hadd']
    by_cases hc : c.toNat < 128
    · have hs : ¬ IsAscii s := fun hs => h (forall_mem_cons.2 ⟨hc, hs⟩)
      exact Nat.add_lt_add_of_le_of_lt hfirst (ih hs)
    · exact Nat.add_lt_add_of_lt_of_le (length_utf16Char_lt hc) hrest

/-- Below the surrogates a unit is the character with its number. -/
theorem count_utf16 {d : Char} (h : d.toNat < 128) : (utf16 s).count d.toNat = s.count d := by
  induction s with
  | nil => rfl
  | cons c s ih =>
    have hcons : utf16 (c :: s) = utf16Char c ++ utf16 s := flatMap_cons ..
    rw [hcons, count_append, ih, count_cons, Nat.add_comm]
    refine congrArg (s.count d + ·) ?_
    unfold utf16Char
    by_cases hc : c.toNat < 0x10000
    · rw [if_pos hc, count_singleton]
      by_cases hcd : c = d
      · rw [hcd, beq_self_eq_true, beq_self_eq_true]
      · have hne : c.toNat ≠ d.toNat := fun heq => hcd (Char.toNat_inj.1 heq)
        rw [beq_eq_false_iff_ne.2 hcd, beq_eq_false_iff_ne.2 hne]
    · have hne : c ≠ d := by
        rintro rfl
        omega
      rw [if_neg hc, beq_eq_false_iff_ne.2 hne]
      apply count_eq_zero.2
      intro hmem
      rcases mem_cons.1 hmem with heq | hmem
      · omega
      · have heq := mem_singleton.1 hmem
        omega

end Audesys.Lib
