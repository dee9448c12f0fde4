import Audesys.Hal.Bytes

/-!
# `Runtime.Ipc.Wire` — frames and values on the socket

The byte formats of the controller socket (`ipc.rs`, and `audesys-runtime-client` for the other end). A
request is `length, token, method id, payload`, a response `length, method id, status, payload`; the length
field counts itself. Both ends read a frame with exact reads, so a frame that was built by one end is the
frame the other end reads (`readFrame_encode`, `readResponse_encode`), whatever follows it on the stream.
-/

namespace Audesys.Runtime.Ipc

open Audesys.Hal

/-- Every request begins with the session token, authenticated or not. -/
def tokenWireSize : Nat := 64

/-- Length field, token and method id. -/
def headerSize : Nat := 69

def statusOk : UInt8 := 0x00
def statusError : UInt8 := 0x01

/-! ## Reading -/

/-- `read_exact` on the bytes that come without a read timeout between them; `none` when there are too few. -/
def readExact (stream : List UInt8) (n : Nat) : Option (List UInt8 × List UInt8) :=
  if n ≤ stream.length then some (stream.take n, stream.drop n) else none

theorem readExact_append {l : List UInt8} {n : Nat} (rest : List UInt8) (h : l.length = n) :
    readExact (l ++ rest) n = some (l, rest) := by
  subst h
  simp [readExact]

theorem readExact_one (b : UInt8) (rest : List UInt8) : readExact ([b] ++ rest) 1 = some ([b], rest) :=
  readExact_append rest rfl

/-! ## Requests -/

/-- A request as the server sees it after `read_frame`. -/
structure Frame where
  token : List UInt8
  methodId : UInt8
  payload : List UInt8
  deriving DecidableEq

/-- `build_request` for a token of the wire size (the client pads shorter ones). -/
def Frame.encode (f : Frame) : List UInt8 :=
  MachineInt.leBytes 4 (headerSize + f.payload.length) ++ (f.token ++ (f.methodId :: f.payload))

/-- A frame that a client can put on the wire. -/
def Frame.WellFormed (f : Frame) : Prop :=
  f.token.length = tokenWireSize ∧ headerSize + f.payload.length < 2 ^ 32

/-- Why `read_frame` gives no frame: `InvalidData`, or a read that gets no more bytes. -/
inductive ReadError where
  | tooShort | noBytes

/-- `read_frame`. A read that gets no more bytes loses those of the frame that are read already. -/
def readFrame (stream : List UInt8) : Except ReadError (Frame × List UInt8) :=
  match readExact stream 4 with
  | none => .error .noBytes
  | some (lenBytes, stream) =>
    let frameLen := MachineInt.leNat lenBytes
    if frameLen < headerSize then .error .tooShort
    else
      let body := do
        let (token, stream) ← readExact stream tokenWireSize
        let (method, stream) ← readExact stream 1
        let (payload, stream) ← readExact stream (frameLen - headerSize)
        some (Frame.mk token (method.headD 0) payload, stream)
      body.elim (.error .noBytes) .ok

/-- **Requests round trip.** The server reads the frame the client built. -/
theorem readFrame_encode {f : Frame} (hf : f.WellFormed) (rest : List UInt8) :
    readFrame (f.encode ++ rest) = .ok (f, rest) := by
  obtain ⟨htoken, hlen⟩ := hf
  have hstream : f.encode ++ rest = MachineInt.leBytes 4 (headerSize + f.payload.length) ++
      (f.token ++ ([f.methodId] ++ (f.payload ++ rest))) := by simp [Frame.encode]
  have hpayload : headerSize + f.payload.length - headerSize = f.payload.length := by omega
  rw [hstream]
  simp only [readFrame, readExact_append _ (length_leBytes 4 _), Option.bind_eq_bind, Option.bind_some,
    leNat_lengthField hlen, if_neg (Nat.not_lt.2 (Nat.le_add_right _ _)), readExact_append _ htoken,
    readExact_one, hpayload, readExact_append _ rfl, List.headD_cons, Option.elim_some]

/-! ## Responses -/

structure Response where
  methodId : UInt8
  status : UInt8
  payload : List UInt8
  deriving DecidableEq

namespace Response

/-- `build_ok_response`. -/
def ok (methodId : UInt8) (payload : List UInt8) : Response := ⟨methodId, statusOk, payload⟩

/-- `build_error_response`. -/
def error (methodId : UInt8) (msg : String) : Response := ⟨methodId, statusError, msg.toUTF8.toList⟩

@[simp] theorem ok_methodId (m : UInt8) (p : List UInt8) : (ok m p).methodId = m := rfl
@[simp] theorem error_methodId (m : UInt8) (msg : String) : (error m msg).methodId = m := rfl
@[simp] theorem ok_status (m : UInt8) (p : List UInt8) : (ok m p).status = statusOk := rfl
@[simp] theorem error_status (m : UInt8) (msg : String) : (error m msg).status = statusError := rfl

/-- `build_response`. -/
def encode (r : Response) : List UInt8 :=
  MachineInt.leBytes 4 (6 + r.payload.length) ++ (r.methodId :: r.status :: r.payload)

/-- The length field of the response does not overflow. -/
def Fits (r : Response) : Prop := 6 + r.payload.length < 2 ^ 32

end Response

/-- `read_response`, up to the mapping of a nonzero status to an `Err`: both outcomes have consumed the same
    frame. -/
def readResponse (stream : List UInt8) : Option (Response × List UInt8) := do
  let (lenBytes, stream) ← readExact stream 4
  let frameLen := MachineInt.leNat lenBytes
  if frameLen < 6 then none
  else
    let (method, stream) ← readExact stream 1
    let (status, stream) ← readExact stream 1
    let (payload, stream) ← readExact stream (frameLen - 6)
    some (⟨method.headD 0, status.headD 0, payload⟩, stream)

/-- **Responses round trip.** -/
theorem readResponse_encode {r : Response} (hr : r.Fits) (rest : List UInt8) :
    readResponse (r.encode ++ rest) = some (r, rest) := by
  have hstream : r.encode ++ rest = MachineInt.leBytes 4 (6 + r.payload.length) ++
      ([r.methodId] ++ ([r.status] ++ (r.payload ++ rest))) := by simp [Response.encode]
  have hpayload : 6 + r.payload.length - 6 = r.payload.length := by omega
  rw [hstream]
  simp only [readResponse, readExact_append _ (length_leBytes 4 _), Option.bind_eq_bind, Option.bind_some,
    leNat_lengthField hr, if_neg (Nat.not_lt.2 (Nat.le_add_right _ _)), readExact_one, hpayload,
    readExact_append _ rfl, List.headD_cons]

/-- The client takes `k` responses off the stream, one `read_response` after the other. -/
def readResponses : Nat → List UInt8 → Option (List Response)
  | 0, _ => some []
  | k + 1, stream => do
    let (r, stream) ← readResponse stream
    let rs ← readResponses k stream
    some (r :: rs)

/-- Answers written one after another are read back one by one. -/
theorem readResponses_encode {rs : List Response} (h : ∀ r ∈ rs, r.Fits) :
    readResponses rs.length (rs.flatMap Response.encode) = some rs := by
  induction rs with
  | nil => rfl
  | cons r rs ih =>
    have hr : r.Fits := h r List.mem_cons_self
    have hrs : ∀ r ∈ rs, r.Fits := fun r hm => h r (List.mem_cons_of_mem _ hm)
    simp only [List.length_cons, List.flatMap_cons, readResponses, readResponse_encode hr,
      Option.bind_eq_bind, Option.bind_some, ih hrs]

/-! ## Text -/

/-- What a lead byte asks for: the number of continuation bytes and the range of the first of them (no
    overlong forms, no surrogates, nothing past U+10FFFF). -/
def leadByte (b : UInt8) : Option (Nat × UInt8 × UInt8) :=
  if 0xC2 ≤ b ∧ b ≤ 0xDF then some (1, 0x80, 0xBF)
  else if b = 0xE0 then some (2, 0xA0, 0xBF)
  else if b = 0xED then some (2, 0x80, 0x9F)
  else if 0xE1 ≤ b ∧ b ≤ 0xEF then some (2, 0x80, 0xBF)
  else if b = 0xF0 then some (3, 0x90, 0xBF)
  else if b = 0xF4 then some (3, 0x80, 0x8F)
  else if 0xF1 ≤ b ∧ b ≤ 0xF3 then some (3, 0x80, 0xBF)
  else none

/-- The continuation bytes at the front of `t`: at most `k`, the first in `lo..hi`, the others in
    `0x80..0xBF`. -/
def continuation : Nat → UInt8 → UInt8 → List UInt8 → List UInt8
  | k + 1, lo, hi, b :: t => if lo ≤ b ∧ b ≤ hi then b :: continuation k 0x80 0xBF t else []
  | _, _, _, _ => []

/-- The character that starts with `b`, and how many bytes of `t` it takes. -/
def utf8Unit (b : UInt8) (t : List UInt8) : Char × Nat :=
  if b < 0x80 then (Char.ofNat b.toNat, 0)
  else match leadByte b with
    | none => ('\uFFFD', 0)
    | some (k, lo, hi) =>
      let conts := continuation k lo hi t
      if conts.length = k then
        (Char.ofNat (conts.foldl (fun acc c => acc * 64 + c.toNat % 64) (b.toNat % 2 ^ (6 - k))), k)
      else ('\uFFFD', conts.length)

def utf8LossyAux : Nat → List UInt8 → List Char
  | fuel + 1, b :: t => (utf8Unit b t).1 :: utf8LossyAux fuel (t.drop (utf8Unit b t).2)
  | _, _ => []

/-- `String::from_utf8_lossy`: every maximal invalid piece becomes one replacement character. -/
def utf8Lossy (bytes : List UInt8) : List Char := utf8LossyAux bytes.length bytes

/-- The signal name in a payload. -/
def lossyString (bytes : List UInt8) : String := String.ofList (utf8Lossy bytes)

/-! ## Values -/

variable [Target]

/-- `pin_type_discriminant`. -/
def pinTypeDiscriminant : HalPinType → UInt8
  | .bool => 0 | .s8 => 1 | .u8 => 2 | .s16 => 3 | .u16 => 4 | .s32 => 5 | .u32 => 6 | .s64 => 7
  | .u64 => 8 | .f32 => 9 | .f64 => 10 | .blob => 11 | .string => 12

/-- `pin_type_from_disc`. -/
def pinTypeFromDisc (d : UInt8) : Except String HalPinType :=
  if d = 0 then .ok .bool else if d = 1 then .ok .s8 else if d = 2 then .ok .u8
  else if d = 3 then .ok .s16 else if d = 4 then .ok .u16 else if d = 5 then .ok .s32
  else if d = 6 then .ok .u32 else if d = 7 then .ok .s64 else if d = 8 then .ok .u64
  else if d = 9 then .ok .f32 else if d = 10 then .ok .f64 else if d = 11 then .ok .blob
  else if d = 12 then .ok .string
  else .error ("unknown pin type disc: " ++ toString d.toNat)

/-- Length field and data of the two variable-size scalars. -/
def encodeSized (data : List UInt8) : List UInt8 := MachineInt.leBytes 4 data.length ++ data

/-- `encode_hal_value`. -/
def encodeHalValue (v : HalValue) : List UInt8 :=
  match v with
  | .array elementType data =>
    0xFE :: (MachineInt.leBytes 4 data.length ++ pinTypeDiscriminant elementType :: data)
  | .bool b => [pinTypeDiscriminant .bool, if b then 1 else 0]
  | .s8 n => pinTypeDiscriminant .s8 :: MachineInt.toLeBytes n
  | .u8 n => pinTypeDiscriminant .u8 :: MachineInt.toLeBytes n
  | .s16 n => pinTypeDiscriminant .s16 :: MachineInt.toLeBytes n
  | .u16 n => pinTypeDiscriminant .u16 :: MachineInt.toLeBytes n
  | .s32 n => pinTypeDiscriminant .s32 :: MachineInt.toLeBytes n
  | .u32 n => pinTypeDiscriminant .u32 :: MachineInt.toLeBytes n
  | .s64 n => pinTypeDiscriminant .s64 :: MachineInt.toLeBytes n
  | .u64 n => pinTypeDiscriminant .u64 :: MachineInt.toLeBytes n
  | .f32 x => pinTypeDiscriminant .f32 :: FloatFormat.toLeBytes x
  | .f64 x => pinTypeDiscriminant .f64 :: FloatFormat.toLeBytes x
  | .blob data => pinTypeDiscriminant .blob :: encodeSized data
  | .string s => pinTypeDiscriminant .string :: encodeSized s.toUTF8.toList

/-- `need`. -/
def need (data : List UInt8) (n : Nat) : Except String Unit :=
  if data.length < n then
    .error ("need " ++ toString n ++ " bytes, have " ++ toString data.length)
  else .ok ()

/-- The first `n` bytes (`read4`, `read8` and the inline reads of the shorter integers). -/
def readN (data : List UInt8) (n : Nat) : Except String (List UInt8) := do
  need data n
  .ok (data.take n)

/-- A length field and that many bytes. -/
def readSized (rest : List UInt8) : Except String (List UInt8) := do
  let field ← readN rest 4
  let len := MachineInt.leNat field
  need rest (4 + len)
  .ok ((rest.drop 4).take len)

/-- `String::from_utf8`, strict. -/
def fromUtf8 (bytes : List UInt8) : Except String String :=
  match String.fromUTF8? ⟨bytes.toArray⟩ with
  | some s => .ok s
  | none => .error "utf8: invalid utf-8 sequence"

/-- `decode_hal_value`, without the count of consumed bytes, which the server does not use. A missing byte
    of a `Bool` reads as `false`. -/
def decodeHalValue (data : List UInt8) : Except String HalValue :=
  match data with
  | [] => .error "empty value data"
  | disc :: rest =>
    if disc = 0 then .ok (.bool (rest.headD 0 != 0))
    else if disc = 1 then do .ok (.s8 (MachineInt.ofLeBytes (← readN rest 1)))
    else if disc = 2 then do .ok (.u8 (MachineInt.ofLeBytes (← readN rest 1)))
    else if disc = 3 then do .ok (.s16 (MachineInt.ofLeBytes (← readN rest 2)))
    else if disc = 4 then do .ok (.u16 (MachineInt.ofLeBytes (← readN rest 2)))
    else if disc = 5 then do .ok (.s32 (MachineInt.ofLeBytes (← readN rest 4)))
    else if disc = 6 then do .ok (.u32 (MachineInt.ofLeBytes (← readN rest 4)))
    else if disc = 7 then do .ok (.s64 (MachineInt.ofLeBytes (← readN rest 8)))
    else if disc = 8 then do .ok (.u64 (MachineInt.ofLeBytes (← readN rest 8)))
    else if disc = 9 then do .ok (.f32 (FloatFormat.ofLeBytes (← readN rest 4)))
    else if disc = 10 then do .ok (.f64 (FloatFormat.ofLeBytes (← readN rest 8)))
    else if disc = 11 then do .ok (.blob (← readSized rest))
    else if disc = 12 then do .ok (.string (← fromUtf8 (← readSized rest)))
    else if disc = 0xFE then do
      let field ← readN rest 4
      let len := MachineInt.leNat field
      need rest (4 + 1 + len)
      let elem ← pinTypeFromDisc ((rest.drop 4).headD 0)
      .ok (.array elem ((rest.drop 5).take len))
    else .error ("unknown pin type discriminant: " ++ toString disc.toNat)

end Audesys.Runtime.Ipc
