import Audesys.Hal.Bytes
import Audesys.Hal.Numbers
import Audesys.Hart.Mapping
import Audesys.Modbus.Mapping

/-!
# `FieldBus.RoundTrip` — what values mean after a field bus

A value goes out as registers of Modbus or as a variable of HART, with a tag that says how to read it, and is read back
by the tag. `Meaning` is what has to survive. It does not for three kinds of values on Modbus and for one on HART, and
does for all others (`keeps_iff`).
-/

namespace Audesys.FieldBus

open Audesys.Hal Audesys.Modbus Audesys.Hart

variable {bits : Nat}

/-- Floats that are made of any bytes, which they keep. -/
class BitExact [Target] : Prop extends LawfulTarget where
  f32_pattern : ∀ bytes : List UInt8, bytes.length = 4 →
    FloatFormat.toLeBytes (FloatFormat.ofLeBytes bytes : Target.F32) = bytes
  f64_pattern : ∀ bytes : List UInt8, bytes.length = 8 →
    FloatFormat.toLeBytes (FloatFormat.ofLeBytes bytes : Target.F64) = bytes

/-! ## Registers -/

theorem pattern32_words32 (h : bits < 2 ^ 32) :
    pattern32 (UInt16.ofNat (bits / 2 ^ 16)) (UInt16.ofNat bits) = bits := by
  unfold pattern32
  rw [UInt16.toNat_ofNat', UInt16.toNat_ofNat']
  omega

theorem pattern64_words64 (h : bits < 2 ^ 64) :
    pattern64 (UInt16.ofNat (bits / 2 ^ 48)) (UInt16.ofNat (bits / 2 ^ 32)) (UInt16.ofNat (bits / 2 ^ 16))
      (UInt16.ofNat bits) = bits := by
  unfold pattern64
  rw [UInt16.toNat_ofNat', UInt16.toNat_ofNat', UInt16.toNat_ofNat', UInt16.toNat_ofNat']
  omega

theorem bytesOfWords_wordsOfBytes (data : List UInt8) (h : data.length % 2 = 0) :
    bytesOfWords (wordsOfBytes data) = data := by
  fun_induction wordsOfBytes data with
  | case1 a b rest ih =>
    have hrest : rest.length % 2 = 0 := by
      rw [List.length_cons, List.length_cons] at h
      omega
    have hword : (UInt16.ofNat (a.toNat + b.toNat * 256)).toNat = a.toNat + b.toNat * 256 := by
      have ha := a.toNat_lt
      have hb := b.toNat_lt
      exact UInt16.toNat_ofNat_of_lt' (by show _ < 2 ^ 16; omega)
    have hlow : UInt8.ofNat (a.toNat + b.toNat * 256) = a := by
      apply UInt8.toNat_inj.1
      have ha := a.toNat_lt
      rw [UInt8.toNat_ofNat']
      omega
    have hhigh : UInt8.ofNat ((a.toNat + b.toNat * 256) / 256) = b := by
      apply UInt8.toNat_inj.1
      have ha := a.toNat_lt
      have hb := b.toNat_lt
      rw [UInt8.toNat_ofNat']
      omega
    unfold bytesOfWords
    rw [List.flatMap_cons, hword]
    show UInt8.ofNat (a.toNat + b.toNat * 256) :: UInt8.ofNat ((a.toNat + b.toNat * 256) / 256) ::
      bytesOfWords (wordsOfBytes rest) = a :: b :: rest
    rw [ih hrest, hlow, hhigh]
  | case2 data hshort =>
    cases data with
    | nil => rfl
    | cons a rest =>
      cases rest with
      | nil => exact absurd h Nat.one_ne_zero
      | cons b rest => exact absurd rfl (hshort a b rest)

theorem toNat_ofInt {n : Int} : (((UInt16.ofInt n).toNat : Nat) : Int) = n % 2 ^ 16 := by
  show ((UInt16.ofNat (n % 2 ^ 16).toNat).toNat : Int) = n % 2 ^ 16
  rw [UInt16.toNat_ofNat']
  omega

/-- A register holds an `S16`. -/
theorem ofInt16_toNat (n : Int16) : Int16.ofInt ((UInt16.ofInt n.toInt).toNat : Nat) = n := by
  rw [toNat_ofInt]
  exact LawfulMachineInt.ofInt_toInt_mod n

/-- The big-endian bytes of a number are its low bytes. -/
theorem decodeBe_leBytes (k n : Nat) : decodeBe (MachineInt.leBytes k n).reverse = n % 256 ^ k := by
  unfold decodeBe
  rw [List.reverse_reverse, leNat_leBytes]

theorem length_reverse_leBytes (k n : Nat) : (MachineInt.leBytes k n).reverse.length = k := by
  rw [List.length_reverse, length_leBytes]

/-! ## Meaning -/

/-- What a value says. -/
inductive Meaning where
  | truth (b : Bool)
  | number (q : Rat)
  /-- An infinity, or not a number: the pattern, and its bytes. -/
  | special (bits size : Nat)
  | bytes (data : List UInt8)
  deriving DecidableEq

/-- What a float says, whose pattern is in its bytes. -/
def floatMeaning (l : Layout) (bytes : List UInt8) : Meaning :=
  match l.number (MachineInt.leNat bytes) with
  | some q => .number q
  | none => .special (MachineInt.leNat bytes) bytes.length

variable [Target]

def meaning : HalValue → Meaning
  | .bool b => .truth b
  | .s8 n => .number n.toInt
  | .u8 n => .number (n.toNat : Int)
  | .s16 n => .number n.toInt
  | .u16 n => .number (n.toNat : Int)
  | .s32 n => .number n.toInt
  | .u32 n => .number (n.toNat : Int)
  | .s64 n => .number n.toInt
  | .u64 n => .number (n.toNat : Int)
  | .f32 x => floatMeaning binary32 (FloatFormat.toLeBytes x)
  | .f64 x => floatMeaning binary64 (FloatFormat.toLeBytes x)
  | .blob data => .bytes data
  | .string s => .bytes s.toUTF8.toList
  | .array _ data => .bytes data

/-- What Modbus takes is read back as a value that means the same. -/
def ModbusKeeps (v : HalValue) : Prop :=
  ∀ regs t, halvalueToRegisters v = .ok (regs, t) → ∃ w, registersToHalvalue regs t = .ok w ∧ meaning w = meaning v

/-- What HART takes is read back as it was. -/
def HartKeeps (debug : HalValue → String) (v : HalValue) : Prop :=
  ∀ bytes t, halvalueToVariables debug v = .ok (bytes, t) → variablesToHalvalue bytes t = .ok v

theorem modbusKeeps_of_ok {v w : HalValue} {regs : List UInt16} {t : RegisterType}
    (hv : halvalueToRegisters v = .ok (regs, t)) (hw : registersToHalvalue regs t = .ok w) :
    ModbusKeeps v ↔ meaning w = meaning v := by
  constructor
  · intro h
    obtain ⟨w', hw', hmeaning⟩ := h regs t hv
    rw [hw, Except.ok.injEq] at hw'
    rw [hw']
    exact hmeaning
  · intro h regs' t' hv'
    rw [hv, Except.ok.injEq, Prod.mk.injEq] at hv'
    rw [← hv'.1, ← hv'.2]
    exact ⟨w, hw, h⟩

/-! ## Modbus -/

/-- A truth value is one register, and comes back as two bytes. -/
theorem not_modbusKeeps_bool (b : Bool) : ¬ ModbusKeeps (.bool b) := by
  have hread : registersToHalvalue [if b then 1 else 0] .coil =
      .ok (.array .bool (bytesOfWords [if b then 1 else 0])) := by
    cases b with
    | true => rfl
    | false => rfl
  rw [modbusKeeps_of_ok rfl hread]
  exact fun h => Meaning.noConfusion h

theorem modbusKeeps_s8 (n : Int8) : ModbusKeeps (.s8 n) := by
  have hread : registersToHalvalue [UInt16.ofInt n.toInt] .s16 = .ok (.s16 n.toInt16) := by
    have hto : n.toInt = n.toInt16.toInt := (Int8.toInt_toInt16 n).symm
    rw [hto]
    exact congrArg (fun m => Except.ok (HalValue.s16 m)) (ofInt16_toNat n.toInt16)
  rw [modbusKeeps_of_ok rfl hread]
  exact congrArg (fun i : Int => Meaning.number i) (Int8.toInt_toInt16 n)

theorem modbusKeeps_s16 (n : Int16) : ModbusKeeps (.s16 n) := by
  have hread : registersToHalvalue [UInt16.ofInt n.toInt] .s16 = .ok (.s16 n) :=
    congrArg (fun m => Except.ok (HalValue.s16 m)) (ofInt16_toNat n)
  rw [modbusKeeps_of_ok rfl hread]

theorem modbusKeeps_u8 (n : UInt8) : ModbusKeeps (.u8 n) := by
  rw [modbusKeeps_of_ok rfl (show registersToHalvalue [n.toUInt16] .u16 = .ok (.u16 n.toUInt16) from rfl)]
  exact congrArg (fun i : Nat => Meaning.number (i : Int)) (UInt8.toNat_toUInt16 n)

theorem modbusKeeps_u16 (n : UInt16) : ModbusKeeps (.u16 n) := by
  rw [modbusKeeps_of_ok rfl (show registersToHalvalue [n] .u16 = .ok (.u16 n) from rfl)]

theorem modbusKeeps_s32 (n : Int32) : ModbusKeeps (.s32 n) := by
  have hlt : (n.toInt % 2 ^ 32).toNat < 2 ^ 32 := by omega
  have hread : registersToHalvalue (words32 (n.toInt % 2 ^ 32).toNat) .s32 = .ok (.s32 n) := by
    show Except.ok (HalValue.s32 (Int32.ofInt (pattern32 _ _ : Nat))) = _
    rw [pattern32_words32 hlt, Int.toNat_of_nonneg (by omega)]
    exact congrArg (fun m => Except.ok (HalValue.s32 m)) (LawfulMachineInt.ofInt_toInt_mod n)
  rw [modbusKeeps_of_ok rfl hread]

theorem modbusKeeps_u32 (n : UInt32) : ModbusKeeps (.u32 n) := by
  have hread : registersToHalvalue (words32 n.toNat) .u32 = .ok (.u32 n) := by
    show Except.ok (HalValue.u32 (UInt32.ofNat (pattern32 _ _))) = _
    rw [pattern32_words32 n.toNat_lt, UInt32.ofNat_toNat]
  rw [modbusKeeps_of_ok rfl hread]

theorem modbusKeeps_f32 [LawfulTarget] (x : Target.F32) : ModbusKeeps (.f32 x) := by
  have hlen := LawfulTarget.f32_length x
  have hlt := leNat_lt (FloatFormat.toLeBytes x)
  rw [hlen] at hlt
  have hread : registersToHalvalue (words32 (MachineInt.leNat (FloatFormat.toLeBytes x))) .f32 = .ok (.f32 x) := by
    show Except.ok (HalValue.f32 (FloatFormat.ofLeBytes (MachineInt.leBytes 4 (pattern32 _ _)))) = _
    rw [pattern32_words32 hlt, ← hlen, leBytes_leNat, LawfulTarget.f32_bytes]
  rw [modbusKeeps_of_ok rfl hread]

/-- What the registers of a 64-bit pattern are read as. -/
theorem registersToHalvalue_words64 (h : bits < 2 ^ 64) :
    registersToHalvalue (words64 bits) .f64 = .ok (.f64 (FloatFormat.ofLeBytes (MachineInt.leBytes 8 bits))) := by
  show Except.ok (HalValue.f64 (FloatFormat.ofLeBytes (MachineInt.leBytes 8 (pattern64 _ _ _ _)))) = _
  rw [pattern64_words64 h]

theorem modbusKeeps_f64 [LawfulTarget] (x : Target.F64) : ModbusKeeps (.f64 x) := by
  have hlen := LawfulTarget.f64_length x
  have hlt := leNat_lt (FloatFormat.toLeBytes x)
  rw [hlen] at hlt
  have hread : registersToHalvalue (words64 (MachineInt.leNat (FloatFormat.toLeBytes x))) .f64 = .ok (.f64 x) := by
    rw [registersToHalvalue_words64 hlt, ← hlen, leBytes_leNat, LawfulTarget.f64_bytes]
  rw [modbusKeeps_of_ok rfl hread]

/-- Bytes come back as an array of the same bytes, or do not go out. -/
theorem modbusKeeps_of_bytes {v : HalValue} {what tail : String} {data : List UInt8}
    (hv : halvalueToRegisters v = bytesToRegisters what data tail) (hmeaning : meaning v = .bytes data) :
    ModbusKeeps v := by
  intro regs t hregs
  rw [hv] at hregs
  unfold bytesToRegisters at hregs
  split at hregs
  · cases hregs
  · next heven =>
    rw [Except.ok.injEq, Prod.mk.injEq] at hregs
    rw [← hregs.1, ← hregs.2]
    refine ⟨.array .u16 data, ?_, hmeaning.symm⟩
    show Except.ok (HalValue.array .u16 (bytesOfWords (wordsOfBytes data))) = _
    rw [bytesOfWords_wordsOfBytes data (not_not.1 heven)]

theorem modbusKeeps_array (elementType : HalPinType) (data : List UInt8) : ModbusKeeps (.array elementType data) := by
  by_cases htype : elementType = .u16
  · exact modbusKeeps_of_bytes (if_neg (not_not.2 htype)) rfl
  · intro regs t hregs
    rw [show halvalueToRegisters (.array elementType data) = .error _ from if_pos htype] at hregs
    cases hregs

/-- A 64-bit integer comes back as the double of its pattern, which is the same number for zero only. -/
theorem modbusKeeps_word64_iff [BitExact] {v : HalValue} {n : Int}
    (hv : halvalueToRegisters v = .ok (words64 bits, .f64)) (hmeaning : meaning v = .number n) (hbits : bits < 2 ^ 64)
    (hn : n = bits ∨ 2 ^ 63 ≤ bits ∧ n = bits - 2 ^ 64) : ModbusKeeps v ↔ n = 0 := by
  rw [modbusKeeps_of_ok hv (registersToHalvalue_words64 hbits), hmeaning, ← number_pattern_iff hbits hn]
  have hpattern : MachineInt.leNat (FloatFormat.toLeBytes
      (FloatFormat.ofLeBytes (MachineInt.leBytes 8 bits) : Target.F64)) = bits := by
    rw [BitExact.f64_pattern _ (length_leBytes 8 bits), leNat_leBytes]
    exact Nat.mod_eq_of_lt hbits
  show floatMeaning binary64 _ = _ ↔ _
  unfold floatMeaning
  rw [hpattern]
  cases binary64.number bits with
  | none => exact iff_of_false (fun h => Meaning.noConfusion h) (Option.some_ne_none _).symm
  | some q => rw [Meaning.number.injEq, Option.some.injEq]

/-- **Values on Modbus.** -/
theorem modbusKeeps_iff [BitExact] (v : HalValue) :
    ModbusKeeps v ↔ (∀ b, v ≠ .bool b) ∧ (∀ n, v = .s64 n → n = 0) ∧ ∀ n, v = .u64 n → n = 0 := by
  cases v with
  | bool b => exact iff_of_false (not_modbusKeeps_bool b) fun h => h.1 b rfl
  | s64 n =>
    have hle := n.toInt_lt
    have hge := n.le_toInt
    rw [modbusKeeps_word64_iff rfl rfl (by omega) (by omega)]
    simp [HalValue.s64.injEq]
    exact @Int64.toInt_inj n 0
  | u64 n =>
    rw [modbusKeeps_word64_iff rfl rfl n.toNat_lt (.inl rfl)]
    simp only [ne_eq, reduceCtorEq, not_false_eq_true, implies_true, HalValue.u64.injEq, forall_eq', false_implies,
      true_and]
    rw [Int.natCast_eq_zero]
    exact @UInt64.toNat_inj n 0
  | s8 n => exact iff_of_true (modbusKeeps_s8 n) (by simp)
  | u8 n => exact iff_of_true (modbusKeeps_u8 n) (by simp)
  | s16 n => exact iff_of_true (modbusKeeps_s16 n) (by simp)
  | u16 n => exact iff_of_true (modbusKeeps_u16 n) (by simp)
  | s32 n => exact iff_of_true (modbusKeeps_s32 n) (by simp)
  | u32 n => exact iff_of_true (modbusKeeps_u32 n) (by simp)
  | f32 x => exact iff_of_true (modbusKeeps_f32 x) (by simp)
  | f64 x => exact iff_of_true (modbusKeeps_f64 x) (by simp)
  | blob data => exact iff_of_true (modbusKeeps_of_bytes rfl rfl) (by simp)
  | string text => exact iff_of_true (modbusKeeps_of_bytes rfl rfl) (by simp)
  | array elementType data => exact iff_of_true (modbusKeeps_array elementType data) (by simp)

/-! ## HART -/

section
variable {debug : HalValue → String}

theorem hartKeeps_of_error {v : HalValue} {e : HartError} (h : halvalueToVariables debug v = .error e) :
    HartKeeps debug v := by
  intro bytes t hv
  rw [h] at hv
  cases hv

theorem hartKeeps_of_ok {v : HalValue} {bytes : List UInt8} {t : VariableType}
    (h : halvalueToVariables debug v = .ok (bytes, t)) : HartKeeps debug v ↔ variablesToHalvalue bytes t = .ok v := by
  constructor
  · exact fun hkeeps => hkeeps bytes t h
  · intro hread bytes' t' hv
    rw [h, Except.ok.injEq, Prod.mk.injEq] at hv
    rw [← hv.1, ← hv.2]
    exact hread

theorem decoded_of_length {what : String} {size : Nat} {value : List UInt8 → HalValue} {data : List UInt8}
    (h : data.length = size) : decoded what size value data = .ok (value data) := by
  unfold decoded
  rw [if_neg (by omega), List.take_of_length_le h.le]

theorem hartKeeps_f32 [LawfulTarget] (x : Target.F32) : HartKeeps debug (.f32 x) := by
  have hlen : (encodeF32Be x).length = 4 := by
    unfold encodeF32Be
    rw [List.length_reverse, LawfulTarget.f32_length x]
  have hdecode : decodeF32Be (encodeF32Be x) = x := by
    unfold decodeF32Be
    rw [List.take_of_length_le hlen.le]
    unfold encodeF32Be
    rw [List.reverse_reverse, LawfulTarget.f32_bytes]
  rw [hartKeeps_of_ok rfl]
  unfold variablesToHalvalue
  rw [decoded_of_length hlen, hdecode]

theorem hartKeeps_u8 (n : UInt8) : HartKeeps debug (.u8 n) := by
  rw [hartKeeps_of_ok rfl]
  rfl

theorem hartKeeps_u16 (n : UInt16) : HartKeeps debug (.u16 n) := by
  rw [hartKeeps_of_ok rfl]
  unfold variablesToHalvalue
  rw [decoded_of_length (length_reverse_leBytes 2 n.toNat), decodeBe_leBytes,
    Nat.mod_eq_of_lt (show n.toNat < 256 ^ 2 from n.toNat_lt), UInt16.ofNat_toNat]

/-- Of 32 bits the high eight are lost. -/
theorem hartKeeps_u32_iff (n : UInt32) : HartKeeps debug (.u32 n) ↔ n.toNat < 2 ^ 24 := by
  have hthree : (MachineInt.leBytes 4 n.toNat).reverse.tail = (MachineInt.leBytes 3 n.toNat).reverse := rfl
  have hread : variablesToHalvalue (MachineInt.leBytes 4 n.toNat).reverse.tail .u24 =
      .ok (.u32 (.ofNat (n.toNat % 256 ^ 3))) := by
    unfold variablesToHalvalue
    rw [hthree, decoded_of_length (length_reverse_leBytes 3 n.toNat), decodeBe_leBytes]
  rw [hartKeeps_of_ok rfl, hread, Except.ok.injEq, HalValue.u32.injEq, ← UInt32.toNat_inj,
    UInt32.toNat_ofNat_of_lt' (Nat.lt_trans (Nat.mod_lt _ (by decide)) (by decide))]
  constructor
  · intro h
    rw [← h]
    exact Nat.mod_lt _ (by decide)
  · exact fun h => Nat.mod_eq_of_lt h

/-- **Values on HART.** -/
theorem hartKeeps_iff [LawfulTarget] (v : HalValue) : HartKeeps debug v ↔ ∀ n, v = .u32 n → n.toNat < 2 ^ 24 := by
  cases v with
  | u32 n =>
    simp only [HalValue.u32.injEq, forall_eq']
    exact hartKeeps_u32_iff n
  | f32 x => exact iff_of_true (hartKeeps_f32 x) (by simp)
  | u8 n => exact iff_of_true (hartKeeps_u8 n) (by simp)
  | u16 n => exact iff_of_true (hartKeeps_u16 n) (by simp)
  | _ => exact iff_of_true (hartKeeps_of_error rfl) (by simp)

end

/-! ## Both -/

/-- **What a field bus keeps**: all values but the truth values, the 64-bit integers other than zero, and the 32-bit
ones from `2 ^ 24`. -/
theorem keeps_iff [BitExact] (debug : HalValue → String) (v : HalValue) :
    ModbusKeeps v ∧ HartKeeps debug v ↔
      (∀ b, v ≠ .bool b) ∧ (∀ n, v = .s64 n → n = 0) ∧ (∀ n, v = .u64 n → n = 0) ∧
        ∀ n, v = .u32 n → n.toNat < 2 ^ 24 := by
  rw [modbusKeeps_iff, hartKeeps_iff, and_assoc, and_assoc]

end Audesys.FieldBus

/-! ## On an IEEE machine -/

namespace Audesys.FieldBus

open Audesys.Hal Audesys.Modbus Audesys.Hart

local instance fieldBusHost : Target := host false

instance fieldBusExact : BitExact :=
  { lawful_host false with
    f32_pattern := by
      intro bytes hlen
      have hlt := leNat_lt bytes
      rw [hlen] at hlt
      show MachineInt.leBytes 4 (UInt32.ofNat (MachineInt.leNat bytes)).toNat = bytes
      rw [UInt32.toNat_ofNat_of_lt' hlt, ← hlen, leBytes_leNat]
    f64_pattern := by
      intro bytes hlen
      have hlt := leNat_lt bytes
      rw [hlen] at hlt
      show MachineInt.leBytes 8 (UInt64.ofNat (MachineInt.leNat bytes)).toNat = bytes
      rw [UInt64.toNat_ofNat_of_lt' hlt, ← hlen, leBytes_leNat] }

/-- A temperature goes through both. -/
theorem temperature_kept : ModbusKeeps (.u16 215) ∧ HartKeeps (fun _ => "") (.u16 215) :=
  (keeps_iff (fun _ => "") (.u16 215)).2 (by simp)

/-- The truth value `true` comes back from Modbus as an array of two bytes. -/
theorem true_not_kept : ¬ (ModbusKeeps (.bool true) ∧ HartKeeps (fun _ => "") (.bool true)) := by
  rintro ⟨h, -⟩
  obtain ⟨w, hw, hmeaning⟩ := h [1] .coil rfl
  rw [show registersToHalvalue [1] .coil = .ok (.array .bool [1, 0]) from rfl, Except.ok.injEq] at hw
  rw [← hw] at hmeaning
  exact Meaning.noConfusion hmeaning

end Audesys.FieldBus
