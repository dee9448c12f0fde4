import Audesys.Hal.Host

/-!
# `Hal.Bytes` — little-endian bytes and UTF-8

What `to_le_bytes` and `from_le_bytes` undo, for lengths, for the eight integer types and for the floats of
the target, and that the bytes of a string decode to it. The laws are classes, so that a codec is proved
correct once for all types it handles.
-/

namespace Audesys.Hal

/-! ## Lengths -/

theorem length_leBytes (k n : Nat) : (MachineInt.leBytes k n).length = k := by
  induction k generalizing n with
  | zero => rfl
  | succ k ih => simp [MachineInt.leBytes, ih]

theorem leNat_leBytes (k n : Nat) : MachineInt.leNat (MachineInt.leBytes k n) = n % 256 ^ k := by
  induction k generalizing n with
  | zero => simp [MachineInt.leBytes, MachineInt.leNat, Nat.mod_one]
  | succ k ih =>
    have hlow : (UInt8.ofNat n).toNat = n % 256 := UInt8.toNat_ofNat'
    rw [MachineInt.leBytes, MachineInt.leNat, ih, hlow, Nat.pow_succ', Nat.mod_mul]

theorem leNat_lt (bytes : List UInt8) : MachineInt.leNat bytes < 256 ^ bytes.length := by
  induction bytes with
  | nil => decide
  | cons b bytes ih =>
    have hb := b.toNat_lt
    rw [MachineInt.leNat, List.length_cons, Nat.pow_succ]
    omega

theorem leBytes_leNat (bytes : List UInt8) : MachineInt.leBytes bytes.length (MachineInt.leNat bytes) = bytes := by
  induction bytes with
  | nil => rfl
  | cons b bytes ih =>
    have hb := b.toNat_lt
    have hlow : UInt8.ofNat (b.toNat + 256 * MachineInt.leNat bytes) = b := by
      apply UInt8.toNat_inj.1
      rw [UInt8.toNat_ofNat']
      omega
    have hhigh : (b.toNat + 256 * MachineInt.leNat bytes) / 256 = MachineInt.leNat bytes := by omega
    rw [List.length_cons, MachineInt.leNat, MachineInt.leBytes, hlow, hhigh, ih]

/-- A length field that fits reads back as the length. -/
theorem leNat_lengthField {n : Nat} (h : n < 2 ^ 32) : MachineInt.leNat (MachineInt.leBytes 4 n) = n := by
  rw [leNat_leBytes]
  exact Nat.mod_eq_of_lt h

/-! ## Integers -/

/-- A whole number of bytes, from which the value is recovered. -/
class LawfulMachineInt (α : Type) [MachineInt α] : Prop where
  width_bytes : 256 ^ (MachineInt.width α / 8) = 2 ^ MachineInt.width α
  ofInt_toInt_mod : ∀ a : α, MachineInt.ofInt (MachineInt.toInt a % 2 ^ MachineInt.width α) = a

section
variable {α : Type} [MachineInt α]

theorem length_toLeBytes (a : α) : (MachineInt.toLeBytes a).length = MachineInt.width α / 8 :=
  length_leBytes _ _

theorem ofLeBytes_toLeBytes [LawfulMachineInt α] (a : α) : MachineInt.ofLeBytes (MachineInt.toLeBytes a) = a := by
  unfold MachineInt.ofLeBytes MachineInt.toLeBytes
  rw [leNat_leBytes, LawfulMachineInt.width_bytes]
  have hpos : (0 : Int) < 2 ^ MachineInt.width α := Int.pow_pos (by decide)
  have hnonneg := Int.emod_nonneg (MachineInt.toInt a) (Int.ne_of_gt hpos)
  have hlt := Int.emod_lt_of_pos (MachineInt.toInt a) hpos
  have hfit : (MachineInt.toInt a % 2 ^ MachineInt.width α).toNat < 2 ^ MachineInt.width α := by
    rw [Int.toNat_lt hnonneg, Int.natCast_pow]
    exact hlt
  rw [Nat.mod_eq_of_lt hfit, Int.toNat_of_nonneg hnonneg]
  exact LawfulMachineInt.ofInt_toInt_mod a

theorem toLeBytes_inj [LawfulMachineInt α] {a b : α} : MachineInt.toLeBytes a = MachineInt.toLeBytes b ↔ a = b := by
  constructor
  · intro h
    rw [← ofLeBytes_toLeBytes a, h, ofLeBytes_toLeBytes]
  · exact congrArg _

end

instance : LawfulMachineInt Int8 where
  width_bytes := by decide
  ofInt_toInt_mod a := by
    have hpow : (2 : Int) ^ 8 = ((2 ^ 8 : Nat) : Int) := by decide
    show Int8.ofInt (a.toInt % 2 ^ 8) = a
    rw [Int8.ofInt_eq_iff_bmod_eq_toInt, hpow, Int.emod_bmod]
    exact Int8.toInt_bmod a

instance : LawfulMachineInt UInt8 where
  width_bytes := by decide
  ofInt_toInt_mod a := by
    have hlt := a.toNat_lt
    have hmod : ((a.toNat : Int) % 2 ^ 8 % 2 ^ 8).toNat = a.toNat := by omega
    show UInt8.ofNat ((a.toNat : Int) % 2 ^ 8 % 2 ^ 8).toNat = a
    rw [hmod, UInt8.ofNat_toNat]

instance : LawfulMachineInt Int16 where
  width_bytes := by decide
  ofInt_toInt_mod a := by
    have hpow : (2 : Int) ^ 16 = ((2 ^ 16 : Nat) : Int) := by decide
    show Int16.ofInt (a.toInt % 2 ^ 16) = a
    rw [Int16.ofInt_eq_iff_bmod_eq_toInt, hpow, Int.emod_bmod]
    exact Int16.toInt_bmod a

instance : LawfulMachineInt UInt16 where
  width_bytes := by decide
  ofInt_toInt_mod a := by
    have hlt := a.toNat_lt
    have hmod : ((a.toNat : Int) % 2 ^ 16 % 2 ^ 16).toNat = a.toNat := by omega
    show UInt16.ofNat ((a.toNat : Int) % 2 ^ 16 % 2 ^ 16).toNat = a
    rw [hmod, UInt16.ofNat_toNat]

instance : LawfulMachineInt Int32 where
  width_bytes := by decide
  ofInt_toInt_mod a := by
    have hpow : (2 : Int) ^ 32 = ((2 ^ 32 : Nat) : Int) := by decide
    show Int32.ofInt (a.toInt % 2 ^ 32) = a
    rw [Int32.ofInt_eq_iff_bmod_eq_toInt, hpow, Int.emod_bmod]
    exact Int32.toInt_bmod a

instance : LawfulMachineInt UInt32 where
  width_bytes := by decide
  ofInt_toInt_mod a := by
    have hlt := a.toNat_lt
    have hmod : ((a.toNat : Int) % 2 ^ 32 % 2 ^ 32).toNat = a.toNat := by omega
    show UInt32.ofNat ((a.toNat : Int) % 2 ^ 32 % 2 ^ 32).toNat = a
    rw [hmod, UInt32.ofNat_toNat]

instance : LawfulMachineInt Int64 where
  width_bytes := by decide
  ofInt_toInt_mod a := by
    have hpow : (2 : Int) ^ 64 = ((2 ^ 64 : Nat) : Int) := by decide
    show Int64.ofInt (a.toInt % 2 ^ 64) = a
    rw [Int64.ofInt_eq_iff_bmod_eq_toInt, hpow, Int.emod_bmod]
    exact Int64.toInt_bmod a

instance : LawfulMachineInt UInt64 where
  width_bytes := by decide
  ofInt_toInt_mod a := by
    have hlt := a.toNat_lt
    have hmod : ((a.toNat : Int) % 2 ^ 64 % 2 ^ 64).toNat = a.toNat := by omega
    show UInt64.ofNat ((a.toNat : Int) % 2 ^ 64 % 2 ^ 64).toNat = a
    rw [hmod, UInt64.ofNat_toNat]

/-! ## Floats -/

/-- The floats of the target are four and eight bytes, and `from_le_bytes` is the inverse of `to_le_bytes`. -/
class LawfulTarget [Target] : Prop where
  f32_length : ∀ x : Target.F32, (FloatFormat.toLeBytes x).length = 4
  f32_bytes : ∀ x : Target.F32, FloatFormat.ofLeBytes (FloatFormat.toLeBytes x) = x
  f64_length : ∀ x : Target.F64, (FloatFormat.toLeBytes x).length = 8
  f64_bytes : ∀ x : Target.F64, FloatFormat.ofLeBytes (FloatFormat.toLeBytes x) = x

theorem lawful_host (overflowChecks : Bool) : @LawfulTarget (host overflowChecks) := by
  refine @LawfulTarget.mk (host overflowChecks) (fun x => length_leBytes 4 _) ?_ (fun x => length_leBytes 8 _) ?_
  · intro (x : UInt32)
    show UInt32.ofNat (MachineInt.leNat (MachineInt.leBytes 4 x.toNat)) = x
    rw [leNat_leBytes, Nat.mod_eq_of_lt (show x.toNat < 256 ^ 4 from x.toNat_lt), UInt32.ofNat_toNat]
  · intro (x : UInt64)
    show UInt64.ofNat (MachineInt.leNat (MachineInt.leBytes 8 x.toNat)) = x
    rw [leNat_leBytes, Nat.mod_eq_of_lt (show x.toNat < 256 ^ 8 from x.toNat_lt), UInt64.ofNat_toNat]

/-! ## Strings -/

theorem byteArray_loop (bs : ByteArray) (i : Nat) (acc : List UInt8) :
    ByteArray.toList.loop bs i acc = acc.reverse ++ bs.data.toList.drop i := by
  fun_induction ByteArray.toList.loop bs i acc with
  | case1 i acc h ih =>
    have hlt : i < bs.data.toList.length := h
    have hget : bs.get! i = bs.data.toList[i] := getElem!_pos bs.data i h
    rw [ih, hget, List.reverse_cons, List.append_assoc, List.singleton_append, List.getElem_cons_drop]
  | case2 i acc h =>
    have hle : bs.data.toList.length ≤ i := Nat.le_of_not_lt h
    rw [List.drop_of_length_le hle, List.append_nil]

theorem byteArray_toList (bs : ByteArray) : bs.toList = bs.data.toList := by
  unfold ByteArray.toList
  rw [byteArray_loop, List.reverse_nil, List.nil_append, List.drop_zero]

/-- The bytes of a string are those of its characters. -/
theorem toUTF8_toList (s : String) : s.toUTF8.toList = s.toList.flatMap String.utf8EncodeChar := by
  rw [byteArray_toList, String.toUTF8_eq_toByteArray, ← String.utf8Encode_toList, List.utf8Encode,
    List.toList_data_toByteArray]

/-- `String::from_utf8` on the bytes of a string. -/
theorem fromUTF8?_toList (s : String) : String.fromUTF8? ⟨s.toUTF8.toList.toArray⟩ = some s := by
  have hbytes : (⟨s.toUTF8.toList.toArray⟩ : ByteArray) = s.toByteArray := by
    rw [byteArray_toList, String.toUTF8_eq_toByteArray, Array.toArray_toList]
  rw [hbytes, String.fromUTF8?, dif_pos s.isValidUTF8]
  rfl

end Audesys.Hal
