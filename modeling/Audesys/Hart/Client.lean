import Audesys.Hart.Mapping

/-!
# `Hart.Client` — a HART command over a serial port

`client.rs` of `audesys-hart`. The serial port and the codec are other people's: `SerialPort` is what the client calls
of the one, `HartProtocol` what it calls of the other. A loop that has not ended within its number of rounds is `none`.

A command first drains what is left from before. A serial port does not report that nothing is left by a read of no
bytes but by the error of a timeout (`TimesOut`), which the drain takes for a failure; so no command is ever sent
(`sendCommand_never`).
-/

namespace Audesys.Hart

/-! ## The port and the codec -/

/-- An `std::io::Error`. -/
structure IoError where
  timedOut : Bool
  text : String
  deriving DecidableEq

/-- `serialport::SerialPort`: reading into a buffer of some size, `write_all` and `flush`. -/
structure SerialPort (S : Type) where
  read : Nat → S → Except IoError (List UInt8) × S
  writeAll : List UInt8 → S → Except IoError Unit × S
  flush : S → Except IoError Unit × S

/-- `hart_protocol::decode::RawFrame`, as far as the client reads it. -/
structure RawFrame (FrameType : Type) where
  frameType : FrameType
  data : List UInt8
  deriving DecidableEq

/-- `hart_protocol`. Errors are their `Debug` texts. -/
class HartProtocol where
  FrameType : Type
  decEq : DecidableEq FrameType
  request : FrameType
  response : FrameType
  debug : FrameType → String
  Address : Type
  /-- `encode_frame` with `MIN_PREAMBLE_COUNT` preambles, into a buffer of so many bytes. -/
  encodeFrame : FrameType → Address → UInt8 → List UInt8 → Nat → Except String (List UInt8)
  Decoder : Type
  /-- `Decoder::new` -/
  decoder : Decoder
  /-- `Decoder::feed` -/
  feed : Decoder → UInt8 → Except String (Decoder × Option (RawFrame FrameType))

instance [HartProtocol] : DecidableEq HartProtocol.FrameType := HartProtocol.decEq

/-! ## The client -/

structure HartResponse where
  statusByte0 : UInt8
  statusByte1 : UInt8
  data : List UInt8
  deriving DecidableEq

variable [HartProtocol] {S : Type}

structure HartClient (S : Type) where
  port : S
  address : HartProtocol.Address

/-- `parse_response` -/
def parseResponse (frame : RawFrame HartProtocol.FrameType) : Except HartError HartResponse :=
  if frame.frameType ≠ HartProtocol.response then
    .error (.protocol ("expected response frame, got " ++ HartProtocol.debug frame.frameType))
  else
    match frame.data with
    | statusByte0 :: statusByte1 :: data => .ok ⟨statusByte0, statusByte1, data⟩
    | _ => .error (.protocol "response too short for status bytes")

variable (port : SerialPort S)

omit [HartProtocol] in
/-- `drain_rx` -/
def drainRx : Nat → S → Option (Except IoError Unit × S)
  | 0, _ => none
  | rounds + 1, s =>
    match port.read 64 s with
    | (.error e, s) => some (.error e, s)
    | (.ok bytes, s) => if bytes.length = 0 then some (.ok (), s) else drainRx rounds s

/-- The loop of `send_command` that reads the response byte by byte. -/
def receive : Nat → HartProtocol.Decoder → S → Option (Except HartError HartResponse × S)
  | 0, _, _ => none
  | rounds + 1, decoder, s =>
    match port.read 1 s with
    | (.error e, s) => some (.error (.io ("read failed: " ++ e.text)), s)
    | (.ok [], s) => some (.error (.timeout "no response from device"), s)
    | (.ok (byte :: _), s) =>
      match HartProtocol.feed decoder byte with
      | .error e => some (.error (.protocol ("decode error: " ++ e)), s)
      | .ok (_, some frame) => some (parseResponse frame, s)
      | .ok (decoder, none) => receive rounds decoder s

/-- `send_command`, with so many rounds for each loop. -/
def sendCommand (rounds : Nat) (client : HartClient S) (command : UInt8) (data : List UInt8) :
    Option (Except HartError HartResponse × S) :=
  match HartProtocol.encodeFrame HartProtocol.request client.address command data 297 with
  | .error e => some (.error (.protocol ("frame encode failed: " ++ e)), client.port)
  | .ok tx =>
    match drainRx port rounds client.port with
    | none => none
    | some (.error e, s) => some (.error (.io ("drain failed: " ++ e.text)), s)
    | some (.ok (), s) =>
      match port.writeAll tx s with
      | (.error e, s) => some (.error (.io ("write failed: " ++ e.text)), s)
      | (.ok (), s) =>
        match port.flush s with
        | (.error e, s) => some (.error (.io ("flush failed: " ++ e.text)), s)
        | (.ok (), s) => receive port rounds HartProtocol.decoder s

/-! ## Ports that time out -/

/-- How a serial port reads: some of what is pending, at most a buffer full, and where nothing is pending the error of a
timeout. -/
structure SerialPort.TimesOut (pending : S → List UInt8) : Prop where
  empty : ∀ size s, 0 < size → pending s = [] →
    ∃ e s', port.read size s = (.error e, s') ∧ e.timedOut = true ∧ pending s' = []
  some : ∀ size s, 0 < size → pending s ≠ [] →
    ∃ chunk s', port.read size s = (.ok chunk, s') ∧ chunk ≠ [] ∧ chunk.length ≤ size ∧ pending s = chunk ++ pending s'

/-- The frame that a decoder makes of some bytes, at the last of them. -/
def Decodes : HartProtocol.Decoder → List UInt8 → RawFrame HartProtocol.FrameType → Prop
  | _, [], _ => False
  | decoder, [byte], frame => ∃ decoder', HartProtocol.feed decoder byte = .ok (decoder', some frame)
  | decoder, byte :: bytes, frame =>
    ∃ decoder', HartProtocol.feed decoder byte = .ok (decoder', none) ∧ Decodes decoder' bytes frame

/-- A command returns what the device answers. -/
def GetsThrough (client : HartClient S) (command : UInt8) (data : List UInt8) (response : HartResponse) : Prop :=
  ∃ rounds s, sendCommand port rounds client command data = some (.ok response, s)

variable {port} {pending : S → List UInt8}

omit [HartProtocol] in
theorem drainRx_ne_ok (h : port.TimesOut pending) (rounds : Nat) (s s' : S) :
    drainRx port rounds s ≠ some (.ok (), s') := by
  induction rounds generalizing s with
  | zero => exact fun heq => Option.noConfusion rfl (heq_of_eq heq)
  | succ rounds ih =>
    unfold drainRx
    by_cases hnil : pending s = []
    · obtain ⟨e, s'', hread, -, -⟩ := h.empty 64 s (by decide) hnil
      rw [hread]
      intro heq
      cases heq
    · obtain ⟨chunk, s'', hread, hne, -, -⟩ := h.some 64 s (by decide) hnil
      rw [hread]
      dsimp only
      rw [if_neg (Nat.ne_of_gt (List.length_pos_iff.2 hne))]
      exact ih s''

theorem sendCommand_ne_ok (h : port.TimesOut pending) (rounds : Nat) (client : HartClient S) (command : UInt8)
    (data : List UInt8) (response : HartResponse) (s : S) :
    sendCommand port rounds client command data ≠ some (.ok response, s) := by
  intro hsend
  unfold sendCommand at hsend
  split at hsend
  · cases hsend
  · split at hsend
    · cases hsend
    · cases hsend
    · next hdrain => exact drainRx_ne_ok h rounds _ _ hdrain

/-- **No command gets through.** -/
theorem sendCommand_never (h : port.TimesOut pending) (client : HartClient S) (command : UInt8) (data : List UInt8)
    (response : HartResponse) : ¬ GetsThrough port client command data response := by
  rintro ⟨rounds, s, hsend⟩
  exact sendCommand_ne_ok h rounds client command data response s hsend

end Audesys.Hart

/-! ## A device on the line -/

namespace Audesys.Hart

/-- The frames of devices with short addresses: preambles, delimiter, address, command, number of data bytes, data, and
a byte that makes all since the delimiter cancel out. A decoder has the bytes since the delimiter. -/
@[reducible] def shortFrames : HartProtocol where
  FrameType := UInt8
  decEq := inferInstance
  request := 2
  response := 6
  debug type := toString type.toNat
  Address := UInt8
  encodeFrame type address command data size :=
    let body := [type, address, command, UInt8.ofNat data.length] ++ data
    let frame := List.replicate 5 255 ++ body ++ [body.foldl (· ^^^ ·) 0]
    if frame.length ≤ size then .ok frame else .error "BufferTooSmall"
  Decoder := List UInt8
  decoder := []
  feed decoder byte :=
    if decoder = [] ∧ byte = 255 then .ok ([], none)
    else
      match decoder ++ [byte] with
      | type :: address :: command :: count :: rest =>
        if rest.length = count.toNat + 1 then
          if (type :: address :: command :: count :: rest).foldl (· ^^^ ·) 0 = 0 then
            .ok ([], some ⟨type, rest.take count.toNat⟩)
          else .error "ChecksumMismatch"
        else .ok (type :: address :: command :: count :: rest, none)
      | decoder => .ok (decoder, none)

local instance shortFramesOnly : HartProtocol := shortFrames

/-- The bytes that wait at a port, and those that a device sends once it is written to. -/
structure Line where
  pending : List UInt8
  answer : List UInt8

/-- A port to a device. -/
def linePort : SerialPort Line where
  read size line :=
    if line.pending = [] then (.error ⟨true, "Operation timed out"⟩, line)
    else (.ok (line.pending.take size), { line with pending := line.pending.drop size })
  writeAll _ line := (.ok (), { line with pending := line.pending ++ line.answer })
  flush line := (.ok (), line)

theorem linePort_timesOut : linePort.TimesOut Line.pending where
  empty size line hsize hnil := ⟨⟨true, "Operation timed out"⟩, line, if_pos hnil, rfl, hnil⟩
  some size line hsize hne := by
    refine ⟨line.pending.take size, { line with pending := line.pending.drop size }, if_neg hne, ?_,
      List.length_take_le _ _, (List.take_append_drop size line.pending).symm⟩
    rw [Ne, List.take_eq_nil_iff, not_or]
    exact ⟨Nat.ne_of_gt hsize, hne⟩

/-- A device that identifies itself, and one byte left from before. -/
def stale : Line := ⟨[0], List.replicate 5 255 ++ [6, 128, 0, 4, 0, 0, 254, 7, 123]⟩

/-- The device would be understood, but is not asked. -/
theorem device_not_reached :
    linePort.TimesOut Line.pending ∧
      (∃ tx, HartProtocol.encodeFrame HartProtocol.request (128 : UInt8) 0 [] 297 = .ok tx) ∧
      HartProtocol.encodeFrame HartProtocol.response (128 : UInt8) 0 [0, 0, 254, 7] 297 = .ok stale.answer ∧
      Decodes HartProtocol.decoder stale.answer ⟨HartProtocol.response, [0, 0, 254, 7]⟩ ∧
      ¬ GetsThrough linePort ⟨stale, (128 : UInt8)⟩ 0 [] ⟨0, 0, [254, 7]⟩ := by
  refine ⟨linePort_timesOut, ⟨_, rfl⟩, rfl, ?_, ?_⟩
  · show Decodes HartProtocol.decoder [255, 255, 255, 255, 255, 6, 128, 0, 4, 0, 0, 254, 7, 123] _
    exact ⟨_, rfl, _, rfl, _, rfl, _, rfl, _, rfl, _, rfl, _, rfl, _, rfl, _, rfl, _, rfl, _, rfl, _, rfl, _, rfl, _,
      rfl⟩
  · rintro ⟨rounds, s, hsend⟩
    exact sendCommand_ne_ok linePort_timesOut rounds _ _ _ _ s hsend

theorem identify_not_through : ¬ GetsThrough linePort ⟨stale, (128 : UInt8)⟩ 0 [] ⟨0, 0, [254, 7]⟩ :=
  sendCommand_never linePort_timesOut ⟨stale, (128 : UInt8)⟩ 0 [] ⟨0, 0, [254, 7]⟩

end Audesys.Hart
