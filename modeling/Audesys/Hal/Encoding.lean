import Audesys.Hal.Bytes

/-!
# `Hal.Encoding` — the manual binary encoding of values

`encoding.rs` of `audesys-hal-core`: a tag byte, then the value; blobs and strings carry a four-byte length,
an array its element tag and a length. The decoder asks for at least six bytes behind an array's tag, one more
than the header of an array has, so an array without data is the one value that does not round trip
(`decode_encode_iff`).
-/

open List

namespace Audesys.Hal

/-- The errors of the decoder, of the HAL's error type. -/
inductive HalError where
  | typeMismatch (expected actual : HalPinType)
  | invalidUtf8
  | invalidBlobLength (declared actual : UInt32)
  | unknownHalType (typeId : UInt8)
  | internal (msg : String)
  deriving DecidableEq

variable [Target]

/-! ## Tags -/

def tagBool : UInt8 := 0
def tagS8 : UInt8 := 1
def tagU8 : UInt8 := 2
def tagS16 : UInt8 := 3
def tagU16 : UInt8 := 4
def tagS32 : UInt8 := 5
def tagU32 : UInt8 := 6
def tagS64 : UInt8 := 7
def tagU64 : UInt8 := 8
def tagF32 : UInt8 := 9
def tagF64 : UInt8 := 10
def tagBlob : UInt8 := 11
def tagString : UInt8 := 12
def tagArray : UInt8 := 13

def pinTypeToTag : HalPinType → UInt8
  | .bool => tagBool
  | .s8 => tagS8
  | .u8 => tagU8
  | .s16 => tagS16
  | .u16 => tagU16
  | .s32 => tagS32
  | .u32 => tagU32
  | .s64 => tagS64
  | .u64 => tagU64
  | .f32 => tagF32
  | .f64 => tagF64
  | .blob => tagBlob
  | .string => tagString

def tagToPinType (tag : UInt8) : Option HalPinType :=
  if tag = tagBool then some .bool
  else if tag = tagS8 then some .s8
  else if tag = tagU8 then some .u8
  else if tag = tagS16 then some .s16
  else if tag = tagU16 then some .u16
  else if tag = tagS32 then some .s32
  else if tag = tagU32 then some .u32
  else if tag = tagS64 then some .s64
  else if tag = tagU64 then some .u64
  else if tag = tagF32 then some .f32
  else if tag = tagF64 then some .f64
  else if tag = tagBlob then some .blob
  else if tag = tagString then some .string
  else none

omit [Target] in
theorem tagToPinType_pinTypeToTag (t : HalPinType) : tagToPinType (pinTypeToTag t) = some t := by
  cases t <;> rfl

/-! ## Encoding and decoding -/

/-- `encode_halvalue`. -/
def encodeHalvalue : HalValue → List UInt8
  | .bool b => [tagBool, if b then 1 else 0]
  | .s8 n => tagS8 :: MachineInt.toLeBytes n
  | .u8 n => tagU8 :: MachineInt.toLeBytes n
  | .s16 n => tagS16 :: MachineInt.toLeBytes n
  | .u16 n => tagU16 :: MachineInt.toLeBytes n
  | .s32 n => tagS32 :: MachineInt.toLeBytes n
  | .u32 n => tagU32 :: MachineInt.toLeBytes n
  | .s64 n => tagS64 :: MachineInt.toLeBytes n
  | .u64 n => tagU64 :: MachineInt.toLeBytes n
  | .f32 x => tagF32 :: FloatFormat.toLeBytes x
  | .f64 x => tagF64 :: FloatFormat.toLeBytes x
  | .blob data => tagBlob :: (MachineInt.leBytes 4 data.length ++ data)
  | .string s => tagString :: (MachineInt.leBytes 4 s.toUTF8.toList.length ++ s.toUTF8.toList)
  | .array elementType data =>
    tagArray :: pinTypeToTag elementType :: (MachineInt.leBytes 4 data.length ++ data)

/-- A number of `n` bytes; bytes behind it are ignored. -/
def decodeScalar (name : String) (n : Nat) (value : List UInt8 → HalValue) (payload : List UInt8) :
    Except HalError HalValue :=
  if payload.length < n then .error (.internal (name ++ ": insufficient bytes")) else .ok (value (payload.take n))

def decodeBool (payload : List UInt8) : Except HalError HalValue :=
  if payload.isEmpty then .error (.internal "bool: missing value byte") else .ok (.bool (payload.headD 0 != 0))

def decodeBlob (payload : List UInt8) : Except HalError HalValue :=
  if payload.length < 4 then .error (.internal "Blob: missing length prefix")
  else
    let declared := MachineInt.leNat (payload.take 4)
    let actual := payload.length - 4
    if declared ≠ actual then .error (.invalidBlobLength (UInt32.ofNat declared) (UInt32.ofNat actual))
    else .ok (.blob (payload.drop 4))

def decodeString (payload : List UInt8) : Except HalError HalValue :=
  if payload.length < 4 then .error (.internal "String: missing length prefix")
  else
    let len := MachineInt.leNat (payload.take 4)
    let actual := payload.length - 4
    if len ≠ actual then .error (.internal "String: length mismatch")
    else match String.fromUTF8? ⟨(payload.drop 4).toArray⟩ with
      | some s => .ok (.string s)
      | none => .error .invalidUtf8

/-- An array: the length check comes before the element tag is looked at. -/
def decodeArray (payload : List UInt8) : Except HalError HalValue :=
  if payload.length < 6 then .error (.internal "Array: insufficient header")
  else
    let dataLen := MachineInt.leNat ((payload.drop 1).take 4)
    if payload.length < 5 + dataLen then .error (.internal "Array: data truncated")
    else match tagToPinType (payload.headD 0) with
      | some elementType => .ok (.array elementType ((payload.drop 5).take dataLen))
      | none => .error (.typeMismatch .s32 .s32)

/-- `decode_halvalue`. -/
def decodeHalvalue (buf : List UInt8) : Except HalError HalValue :=
  match buf with
  | [] => .error (.internal "empty buffer")
  | tag :: payload =>
    if tag = tagBool then decodeBool payload
    else if tag = tagS8 then decodeScalar "S8" 1 (fun bs => .s8 (MachineInt.ofLeBytes bs)) payload
    else if tag = tagU8 then decodeScalar "U8" 1 (fun bs => .u8 (MachineInt.ofLeBytes bs)) payload
    else if tag = tagS16 then decodeScalar "S16" 2 (fun bs => .s16 (MachineInt.ofLeBytes bs)) payload
    else if tag = tagU16 then decodeScalar "U16" 2 (fun bs => .u16 (MachineInt.ofLeBytes bs)) payload
    else if tag = tagS32 then decodeScalar "S32" 4 (fun bs => .s32 (MachineInt.ofLeBytes bs)) payload
    else if tag = tagU32 then decodeScalar "U32" 4 (fun bs => .u32 (MachineInt.ofLeBytes bs)) payload
    else if tag = tagS64 then decodeScalar "S64" 8 (fun bs => .s64 (MachineInt.ofLeBytes bs)) payload
    else if tag = tagU64 then decodeScalar "U64" 8 (fun bs => .u64 (MachineInt.ofLeBytes bs)) payload
    else if tag = tagF32 then decodeScalar "F32" 4 (fun bs => .f32 (FloatFormat.ofLeBytes bs)) payload
    else if tag = tagF64 then decodeScalar "F64" 8 (fun bs => .f64 (FloatFormat.ofLeBytes bs)) payload
    else if tag = tagBlob then decodeBlob payload
    else if tag = tagString then decodeString payload
    else if tag = tagArray then decodeArray payload
    else .error (.unknownHalType tag)

/-! ## Round trips -/

/-- Blob, string and array data whose length fits a `u32`. -/
def HalValue.Fits : HalValue → Prop
  | .blob data => data.length < 2 ^ 32
  | .string s => s.toUTF8.toList.length < 2 ^ 32
  | .array _ data => data.length < 2 ^ 32
  | _ => True

theorem decodeScalar_eq (name : String) {n : Nat} (value : List UInt8 → HalValue) {bytes : List UInt8}
    (h : bytes.length = n) : decodeScalar name n value bytes = .ok (value bytes) := by
  unfold decodeScalar
  rw [if_neg (by omega), take_of_length_le (by omega)]

/-- The scalars of the decoder, for any lawful integer type. -/
theorem decodeScalar_int {α : Type} [MachineInt α] [LawfulMachineInt α] (name : String) (value : α → HalValue)
    (a : α) : decodeScalar name (MachineInt.width α / 8) (fun bs => value (MachineInt.ofLeBytes bs))
      (MachineInt.toLeBytes a) = .ok (value a) := by
  rw [decodeScalar_eq name _ (length_toLeBytes a), ofLeBytes_toLeBytes]

theorem decodeBlob_eq {data : List UInt8} (h : data.length < 2 ^ 32) :
    decodeBlob (MachineInt.leBytes 4 data.length ++ data) = .ok (.blob data) := by
  have hfield := length_leBytes 4 data.length
  have hlength : (MachineInt.leBytes 4 data.length ++ data).length = 4 + data.length := by
    rw [length_append, hfield]
  unfold decodeBlob
  rw [hlength, if_neg (by omega), take_left' hfield, drop_left' hfield, leNat_lengthField h]
  simp only [Nat.add_sub_cancel_left, ne_eq, not_true_eq_false, if_false]

theorem decodeString_eq {s : String} (h : s.toUTF8.toList.length < 2 ^ 32) :
    decodeString (MachineInt.leBytes 4 s.toUTF8.toList.length ++ s.toUTF8.toList) = .ok (.string s) := by
  have hfield := length_leBytes 4 s.toUTF8.toList.length
  have hlength : (MachineInt.leBytes 4 s.toUTF8.toList.length ++ s.toUTF8.toList).length =
      4 + s.toUTF8.toList.length := by
    rw [length_append, hfield]
  unfold decodeString
  rw [hlength, if_neg (by omega), take_left' hfield, drop_left' hfield, leNat_lengthField h]
  simp only [Nat.add_sub_cancel_left, ne_eq, not_true_eq_false, if_false, fromUTF8?_toList]

/-- An array with data is decoded. -/
theorem decodeArray_eq (t : HalPinType) {data : List UInt8} (h : data.length < 2 ^ 32) (hne : data ≠ []) :
    decodeArray (pinTypeToTag t :: (MachineInt.leBytes 4 data.length ++ data)) = .ok (.array t data) := by
  have hfield := length_leBytes 4 data.length
  have hpos := length_pos_iff.2 hne
  have hlength : (pinTypeToTag t :: (MachineInt.leBytes 4 data.length ++ data)).length = 5 + data.length := by
    rw [length_cons, length_append, hfield]
    omega
  have hdrop : (pinTypeToTag t :: (MachineInt.leBytes 4 data.length ++ data)).drop 5 = data := by
    rw [drop_succ_cons, drop_left' hfield]
  unfold decodeArray
  rw [hlength, if_neg (by omega), hdrop, drop_succ_cons, drop_zero, take_left' hfield,
    leNat_lengthField h]
  simp only [Nat.lt_irrefl, if_false, headD_cons, tagToPinType_pinTypeToTag, take_length]

/-- An array without data is rejected, because its header is one byte short of what the decoder asks for. -/
theorem decodeArray_empty (t : HalPinType) :
    decodeArray (pinTypeToTag t :: (MachineInt.leBytes 4 0 ++ [])) =
      .error (.internal "Array: insufficient header") := rfl

theorem decodeBool_eq (b : Bool) : decodeBool [if b then 1 else 0] = .ok (.bool b) := by
  cases b <;> rfl

theorem decode_encode [LawfulTarget] {v : HalValue} (h : v.Fits) (hne : ∀ t, v ≠ .array t []) :
    decodeHalvalue (encodeHalvalue v) = .ok v := by
  -- the tag selects the decoder of the variant
  cases v <;> simp +decide only [encodeHalvalue, decodeHalvalue, if_false, if_true]
  case bool b => exact decodeBool_eq b
  case s8 n => exact decodeScalar_int "S8" .s8 n
  case u8 n => exact decodeScalar_int "U8" .u8 n
  case s16 n => exact decodeScalar_int "S16" .s16 n
  case u16 n => exact decodeScalar_int "U16" .u16 n
  case s32 n => exact decodeScalar_int "S32" .s32 n
  case u32 n => exact decodeScalar_int "U32" .u32 n
  case s64 n => exact decodeScalar_int "S64" .s64 n
  case u64 n => exact decodeScalar_int "U64" .u64 n
  case f32 x => rw [decodeScalar_eq _ _ (LawfulTarget.f32_length x), LawfulTarget.f32_bytes]
  case f64 x => rw [decodeScalar_eq _ _ (LawfulTarget.f64_length x), LawfulTarget.f64_bytes]
  case blob data => exact decodeBlob_eq h
  case string s => exact decodeString_eq h
  case array t data => exact decodeArray_eq t h (fun hnil => hne t (by rw [hnil]))

theorem decode_encode_empty (t : HalPinType) :
    decodeHalvalue (encodeHalvalue (.array t [])) = .error (.internal "Array: insufficient header") := by
  simp +decide only [encodeHalvalue, decodeHalvalue, if_false, if_true]
  exact decodeArray_empty t

/-- **Round trip.** A value comes back exactly if it is not an array without data. -/
theorem decode_encode_iff [LawfulTarget] (v : HalValue) (h : v.Fits) :
    decodeHalvalue (encodeHalvalue v) = .ok v ↔ ¬ ∃ t, v = .array t [] := by
  constructor
  · rintro hok ⟨t, rfl⟩
    rw [decode_encode_empty] at hok
    cases hok
  · intro hno
    exact decode_encode h fun t hv => hno ⟨t, hv⟩

end Audesys.Hal

/-! ## An array without data -/

namespace Audesys.Hal

local instance releaseEncoding : Target := host false

theorem empty_array_lost : HalValue.Fits (.array .s32 []) ∧
    decodeHalvalue (encodeHalvalue (.array .s32 [])) ≠ .ok (.array .s32 []) := by
  refine ⟨show ([] : List UInt8).length < 2 ^ 32 by decide, ?_⟩
  rw [decode_encode_empty]
  intro h
  cases h

theorem array_kept : decodeHalvalue (encodeHalvalue (.array .s32 [1, 0, 0, 0])) = .ok (.array .s32 [1, 0, 0, 0]) := by
  have hlawful : LawfulTarget := lawful_host false
  have hfits : HalValue.Fits (.array .s32 [1, 0, 0, 0]) := show [1, 0, 0, 0].length < 2 ^ 32 by decide
  refine (decode_encode_iff (.array .s32 [1, 0, 0, 0]) hfits).2 ?_
  rintro ⟨t, h⟩
  cases h

end Audesys.Hal
