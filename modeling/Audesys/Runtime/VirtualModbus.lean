import Audesys.Hal.Encoding
import Audesys.Runtime.Ipc.Connection

/-!
# `Runtime.VirtualModbus` — the virtual Modbus device, twice

`virtual_modbus.rs` holds the request handling in two copies: `VirtualModbusTcpDevice`, which the tests call, and
`ThreadDevice`, which `start` builds from it and the listener thread serves. Both are embedded here as they
stand. A handler comes back with its response (`none`: the thread panicked) and the publications it made.

The copies ask for different lengths in one place only: `Write Multiple Registers` takes seven data bytes in the
device and eight in its thread, so a request for a single register, which has seven, is answered by the one and
refused by the other (`handleRequest_agree_iff`).
-/

namespace Audesys.Runtime.VirtualModbus

open Audesys.Hal
open Audesys.Runtime.Ipc (Timestamp)

variable [Target]

/-! ## Transport, frames and maps -/

/-- The calls of `HalTransport` that the device makes, as they answer during one request. -/
structure HalTransport where
  readSignal : String → Except HalError (Option (HalValue × Timestamp))
  publishSignal : String → HalValue → Timestamp → Except HalError Unit

/-- `as u16` on an `f32`, which saturates. -/
class FloatCast where
  toU16 : Target.F32 → UInt16

structure Publication where
  name : String
  value : HalValue
  ts : Timestamp
  deriving DecidableEq

/-- What a request leads to. -/
structure Handled where
  response : Option (List UInt8)
  published : List Publication
  deriving DecidableEq

/-- A request that is answered without publishing. -/
def Handled.answer (response : List UInt8) : Handled := ⟨some response, []⟩

/-- The seven bytes in front of a request. -/
structure Mbap where
  bytes : List UInt8
  length_eq : bytes.length = 7

/-- `mbap[..2]` -/
def Mbap.transaction (mbap : Mbap) : List UInt8 := mbap.bytes.take 2

/-- `mbap[6]` -/
def Mbap.unit (mbap : Mbap) : UInt8 := mbap.bytes.getD 6 0

def illegalFunction : UInt8 := 0x01
def illegalDataAddress : UInt8 := 0x02
def illegalDataValue : UInt8 := 0x03

/-- The maps of a device, from addresses to signal names. -/
structure SignalMaps where
  coils : UInt16 → Option String
  holdingRegs : UInt16 → Option String
  inputRegs : UInt16 → Option String
  discreteInputs : UInt16 → Option String

/-- `u16::from_be_bytes([data[k], data[k + 1]])` -/
def beWord (data : List UInt8) (k : Nat) : UInt16 :=
  UInt16.ofNat ((data.getD k 0).toNat * 256 + (data.getD (k + 1) 0).toNat)

/-- `result[i / 8] |= 1 << (i % 8)` -/
def setBit (result : List UInt8) (i : Nat) : List UInt8 :=
  result.modify (i / 8) (fun b => b ||| 1 <<< UInt8.ofNat (i % 8))

/-- The two bytes of `value` at `result[2 * i]`. -/
def setWord (result : List UInt8) (i : Nat) (value : UInt16) : List UInt8 :=
  (result.set (i * 2) (value >>> 8).toUInt8).set (i * 2 + 1) (value &&& 0xFF).toUInt8

/-- The boolean that a coil read makes of a value. -/
def coilOf : HalValue → Bool
  | .bool b => b
  | .u16 v => v != 0
  | .u32 v => v != 0
  | _ => false

/-- The word that a register read makes of a value. -/
def registerOf [FloatCast] : HalValue → UInt16
  | .u16 v => v
  | .u32 v => v.toUInt16
  | .s32 v => UInt16.ofInt v.toInt
  | .f32 v => FloatCast.toU16 v
  | .bool b => if b then 1 else 0
  | _ => 0

def epoch : Timestamp := ⟨0, 0⟩

/-! ## The device -/

/-- The fields of `VirtualModbusTcpDevice` that requests meet. -/
structure VirtualModbusTcpDevice where
  transport : Option HalTransport
  maps : SignalMaps

namespace VirtualModbusTcpDevice

/-- `none`: the transport is not bound. -/
def readCoilSignal (d : VirtualModbusTcpDevice) (addr : UInt16) : Option (Except UInt8 Bool) :=
  match d.maps.coils addr with
  | none => some (.error illegalDataAddress)
  | some name =>
    match d.transport with
    | none => none
    | some transport =>
      match transport.readSignal name with
      | .error _ => some (.error illegalDataAddress)
      | .ok reading => some (.ok (coilOf (reading.getD (.bool false, epoch)).1))

def writeCoilSignal (d : VirtualModbusTcpDevice) (addr : UInt16) (value : Bool) :
    Option (Except UInt8 Unit) × List Publication :=
  match d.maps.coils addr with
  | none => (some (.error illegalDataAddress), [])
  | some name =>
    match d.transport with
    | none => (none, [])
    | some transport =>
      match transport.publishSignal name (.bool value) epoch with
      | .error _ => (some (.error illegalDataAddress), [⟨name, .bool value, epoch⟩])
      | .ok () => (some (.ok ()), [⟨name, .bool value, epoch⟩])

def readRegisterSignal [FloatCast] (d : VirtualModbusTcpDevice) (map : UInt16 → Option String) (addr : UInt16) :
    Option (Except UInt8 UInt16) :=
  match map addr with
  | none => some (.error illegalDataAddress)
  | some name =>
    match d.transport with
    | none => none
    | some transport =>
      match transport.readSignal name with
      | .error _ => some (.error illegalDataAddress)
      | .ok reading => some (.ok (registerOf (reading.getD (.u16 0, epoch)).1))

def writeRegisterSignal (d : VirtualModbusTcpDevice) (map : UInt16 → Option String) (addr value : UInt16) :
    Option (Except UInt8 Unit) × List Publication :=
  match map addr with
  | none => (some (.error illegalDataAddress), [])
  | some name =>
    match d.transport with
    | none => (none, [])
    | some transport =>
      match transport.publishSignal name (.u16 value) epoch with
      | .error _ => (some (.error illegalDataAddress), [⟨name, .u16 value, epoch⟩])
      | .ok () => (some (.ok ()), [⟨name, .u16 value, epoch⟩])

def exceptionResponse (mbap : Mbap) (funcCode excCode : UInt8) : List UInt8 :=
  mbap.transaction ++ [0, 0] ++ [0, 3] ++ [mbap.unit] ++ [funcCode ||| 0x80] ++ [excCode]

def readResponse (mbap : Mbap) (funcCode : UInt8) (data : List UInt8) : List UInt8 :=
  let pduLen := 2 + data.length
  let totalLen := pduLen + 1
  let lenHi := UInt8.ofNat ((totalLen >>> 8) &&& 0xFF)
  let lenLo := UInt8.ofNat (totalLen &&& 0xFF)
  mbap.transaction ++ [0, 0] ++ [lenHi, lenLo] ++ [mbap.unit] ++ [funcCode] ++ [UInt8.ofNat data.length] ++ data

def echoResponse (mbap : Mbap) (funcCode : UInt8) (data : List UInt8) : List UInt8 :=
  let pduLen := 1 + data.length
  let totalLen := pduLen + 1
  let lenHi := UInt8.ofNat ((totalLen >>> 8) &&& 0xFF)
  let lenLo := UInt8.ofNat (totalLen &&& 0xFF)
  mbap.transaction ++ [0, 0] ++ [lenHi, lenLo] ++ [mbap.unit] ++ [funcCode] ++ data

/-- The loop of `handle_read_coils` with `n` rounds to go. `none`: `start + i` overflowed where that is checked,
    or the transport is not bound. -/
def coilLoop (d : VirtualModbusTcpDevice) (start : UInt16) :
    Nat → Nat → List UInt8 → Option (Except UInt8 (List UInt8))
  | 0, _, result => some (.ok result)
  | n + 1, i, result =>
    (MachineInt.add start (UInt16.ofNat i)).bind fun addr =>
      (d.readCoilSignal addr).bind fun
        | .ok true => d.coilLoop start n (i + 1) (setBit result i)
        | .ok false => d.coilLoop start n (i + 1) result
        | .error exc => some (.error exc)

def handleReadCoils (d : VirtualModbusTcpDevice) (mbap : Mbap) (data : List UInt8) : Handled :=
  if data.length < 4 then
    .answer (exceptionResponse mbap 0x01 illegalDataValue)
  else
    let start := beWord data 0
    let count := beWord data 2
    if count = 0 ∨ count > 2000 then
      .answer (exceptionResponse mbap 0x01 illegalDataValue)
    else
      match d.coilLoop start count.toNat 0 (List.replicate ((count.toNat + 7) / 8) 0) with
      | none => ⟨none, []⟩
      | some (.ok result) => .answer (readResponse mbap 0x01 result)
      | some (.error exc) => .answer (exceptionResponse mbap 0x01 exc)

/-- The loop of `handle_read_discrete_inputs`. -/
def discreteLoop (d : VirtualModbusTcpDevice) (start : UInt16) : Nat → Nat → List UInt8 → Option (List UInt8)
  | 0, _, result => some result
  | n + 1, i, result =>
    (MachineInt.add start (UInt16.ofNat i)).bind fun addr =>
      match d.maps.discreteInputs addr with
      | none => d.discreteLoop start n (i + 1) result
      | some name =>
        match d.transport with
        | none => d.discreteLoop start n (i + 1) result
        | some transport =>
          match transport.readSignal name with
          | .ok (some (.bool true, _)) => d.discreteLoop start n (i + 1) (setBit result i)
          | _ => d.discreteLoop start n (i + 1) result

def handleReadDiscreteInputs (d : VirtualModbusTcpDevice) (mbap : Mbap) (data : List UInt8) : Handled :=
  if data.length < 4 then
    .answer (exceptionResponse mbap 0x02 illegalDataValue)
  else
    let start := beWord data 0
    let count := beWord data 2
    if count = 0 ∨ count > 2000 then
      .answer (exceptionResponse mbap 0x02 illegalDataValue)
    else
      match d.discreteLoop start count.toNat 0 (List.replicate ((count.toNat + 7) / 8) 0) with
      | none => ⟨none, []⟩
      | some result => .answer (readResponse mbap 0x02 result)

/-- The loop of `handle_read_registers`. -/
def registerLoop [FloatCast] (d : VirtualModbusTcpDevice) (map : UInt16 → Option String) (start : UInt16) :
    Nat → Nat → List UInt8 → Option (Except UInt8 (List UInt8))
  | 0, _, result => some (.ok result)
  | n + 1, i, result =>
    (MachineInt.add start (UInt16.ofNat i)).bind fun addr =>
      (d.readRegisterSignal map addr).bind fun
        | .ok val => d.registerLoop map start n (i + 1) (setWord result i val)
        | .error exc => some (.error exc)

def handleReadRegisters [FloatCast] (d : VirtualModbusTcpDevice) (mbap : Mbap) (funcCode : UInt8)
    (data : List UInt8) (map : UInt16 → Option String) : Handled :=
  if data.length < 4 then
    .answer (exceptionResponse mbap funcCode illegalDataValue)
  else
    let start := beWord data 0
    let count := beWord data 2
    if count = 0 ∨ count > 125 then
      .answer (exceptionResponse mbap funcCode illegalDataValue)
    else
      match d.registerLoop map start count.toNat 0 (List.replicate (count.toNat * 2) 0) with
      | none => ⟨none, []⟩
      | some (.ok result) => .answer (readResponse mbap funcCode result)
      | some (.error exc) => .answer (exceptionResponse mbap funcCode exc)

def handleReadHoldingRegisters [FloatCast] (d : VirtualModbusTcpDevice) (mbap : Mbap) (data : List UInt8) :
    Handled :=
  d.handleReadRegisters mbap 0x03 data d.maps.holdingRegs

def handleReadInputRegisters [FloatCast] (d : VirtualModbusTcpDevice) (mbap : Mbap) (data : List UInt8) : Handled :=
  d.handleReadRegisters mbap 0x04 data d.maps.inputRegs

/-- The `match` at the end of the write handlers: `echo` on success. -/
def written (mbap : Mbap) (funcCode : UInt8) (echo : List UInt8) :
    Option (Except UInt8 Unit) × List Publication → Handled
  | (none, published) => ⟨none, published⟩
  | (some (.ok ()), published) => ⟨some (echoResponse mbap funcCode echo), published⟩
  | (some (.error exc), published) => ⟨some (exceptionResponse mbap funcCode exc), published⟩

def handleWriteSingleCoil (d : VirtualModbusTcpDevice) (mbap : Mbap) (data : List UInt8) : Handled :=
  if data.length < 4 then
    .answer (exceptionResponse mbap 0x05 illegalDataValue)
  else
    let addr := beWord data 0
    if beWord data 2 = 0xFF00 then
      written mbap 0x05 data (d.writeCoilSignal addr true)
    else if beWord data 2 = 0x0000 then
      written mbap 0x05 data (d.writeCoilSignal addr false)
    else
      .answer (exceptionResponse mbap 0x05 illegalDataValue)

def handleWriteSingleRegister (d : VirtualModbusTcpDevice) (mbap : Mbap) (data : List UInt8) : Handled :=
  if data.length < 4 then
    .answer (exceptionResponse mbap 0x06 illegalDataValue)
  else
    let addr := beWord data 0
    let value := beWord data 2
    written mbap 0x06 data (d.writeRegisterSignal d.maps.holdingRegs addr value)

def handleWriteMultipleCoils (d : VirtualModbusTcpDevice) (mbap : Mbap) (data : List UInt8) : Handled :=
  if data.length < 5 then
    .answer (exceptionResponse mbap 0x0F illegalDataValue)
  else
    let addr := beWord data 0
    if data.length < 6 then
      .answer (exceptionResponse mbap 0x0F illegalDataValue)
    else
      let value := data.getD 5 0 &&& 0x01
      written mbap 0x0F (data.take 4) (d.writeCoilSignal addr (value != 0))

def handleWriteMultipleRegisters (d : VirtualModbusTcpDevice) (mbap : Mbap) (data : List UInt8) : Handled :=
  if data.length < 7 then
    .answer (exceptionResponse mbap 0x10 illegalDataValue)
  else
    let addr := beWord data 0
    let value := beWord data 5
    written mbap 0x10 (data.take 4) (d.writeRegisterSignal d.maps.holdingRegs addr value)

/-- `handle_request` -/
def handleRequest [FloatCast] (d : VirtualModbusTcpDevice) (mbap : Mbap) : List UInt8 → Handled
  | [] => .answer (exceptionResponse mbap 0 illegalFunction)
  | funcCode :: data =>
    match funcCode with
    | 0x01 => d.handleReadCoils mbap data
    | 0x02 => d.handleReadDiscreteInputs mbap data
    | 0x03 => d.handleReadHoldingRegisters mbap data
    | 0x04 => d.handleReadInputRegisters mbap data
    | 0x05 => d.handleWriteSingleCoil mbap data
    | 0x06 => d.handleWriteSingleRegister mbap data
    | 0x0F => d.handleWriteMultipleCoils mbap data
    | 0x10 => d.handleWriteMultipleRegisters mbap data
    | _ => .answer (exceptionResponse mbap funcCode illegalFunction)

end VirtualModbusTcpDevice

/-! ## The thread's copy -/

structure ThreadDevice where
  transport : HalTransport
  maps : SignalMaps

/-- The handle that `start` moves into the listener thread. `none`: `start` panics, for want of a transport. -/
def VirtualModbusTcpDevice.threadDevice (d : VirtualModbusTcpDevice) : Option ThreadDevice :=
  d.transport.map fun transport => ⟨transport, d.maps⟩

def exceptionResponse (mbap : Mbap) (fc exc : UInt8) : List UInt8 :=
  mbap.transaction ++ [0, 0, 0, 3] ++ [mbap.unit] ++ [fc ||| 0x80] ++ [exc]

def readResponse (mbap : Mbap) (fc : UInt8) (data : List UInt8) : List UInt8 :=
  let pduLen := 2 + data.length
  let totalLen := pduLen + 1
  let lenHi := UInt8.ofNat (totalLen >>> 8)
  let lenLo := UInt8.ofNat (totalLen &&& 0xFF)
  mbap.transaction ++ [0, 0] ++ [lenHi] ++ [lenLo] ++ [mbap.unit] ++ [fc] ++ [UInt8.ofNat data.length] ++ data

def echoResponse (mbap : Mbap) (fc : UInt8) (data : List UInt8) : List UInt8 :=
  let pduLen := 1 + data.length
  let totalLen := pduLen + 1
  let lenHi := UInt8.ofNat (totalLen >>> 8)
  let lenLo := UInt8.ofNat (totalLen &&& 0xFF)
  mbap.transaction ++ [0, 0] ++ [lenHi] ++ [lenLo] ++ [mbap.unit] ++ [fc] ++ data

namespace ThreadDevice

def readCoilSignal (d : ThreadDevice) (addr : UInt16) : Except UInt8 Bool :=
  match d.maps.coils addr with
  | none => .error illegalDataAddress
  | some name =>
    match d.transport.readSignal name with
    | .error _ => .error illegalDataAddress
    | .ok reading => .ok (coilOf (reading.getD (.bool false, epoch)).1)

def writeCoilSignal (d : ThreadDevice) (addr : UInt16) (value : Bool) : Except UInt8 Unit × List Publication :=
  match d.maps.coils addr with
  | none => (.error illegalDataAddress, [])
  | some name =>
    match d.transport.publishSignal name (.bool value) epoch with
    | .error _ => (.error illegalDataAddress, [⟨name, .bool value, epoch⟩])
    | .ok () => (.ok (), [⟨name, .bool value, epoch⟩])

def readRegisterSignal [FloatCast] (d : ThreadDevice) (map : UInt16 → Option String) (addr : UInt16) :
    Except UInt8 UInt16 :=
  match map addr with
  | none => .error illegalDataAddress
  | some name =>
    match d.transport.readSignal name with
    | .error _ => .error illegalDataAddress
    | .ok reading => .ok (registerOf (reading.getD (.u16 0, epoch)).1)

def writeRegisterSignal (d : ThreadDevice) (map : UInt16 → Option String) (addr value : UInt16) :
    Except UInt8 Unit × List Publication :=
  match map addr with
  | none => (.error illegalDataAddress, [])
  | some name =>
    match d.transport.publishSignal name (.u16 value) epoch with
    | .error _ => (.error illegalDataAddress, [⟨name, .u16 value, epoch⟩])
    | .ok () => (.ok (), [⟨name, .u16 value, epoch⟩])

def coilLoop (d : ThreadDevice) (start : UInt16) :
    Nat → Nat → List UInt8 → Option (Except UInt8 (List UInt8))
  | 0, _, result => some (.ok result)
  | n + 1, i, result =>
    (MachineInt.add start (UInt16.ofNat i)).bind fun addr =>
      match d.readCoilSignal addr with
      | .ok true => d.coilLoop start n (i + 1) (setBit result i)
      | .ok false => d.coilLoop start n (i + 1) result
      | .error exc => some (.error exc)

def handleReadCoils (d : ThreadDevice) (mbap : Mbap) (data : List UInt8) : Handled :=
  if data.length < 4 then
    .answer (exceptionResponse mbap 0x01 illegalDataValue)
  else
    let start := beWord data 0
    let count := beWord data 2
    if count = 0 ∨ count > 2000 then
      .answer (exceptionResponse mbap 0x01 illegalDataValue)
    else
      match d.coilLoop start count.toNat 0 (List.replicate ((count.toNat + 7) / 8) 0) with
      | none => ⟨none, []⟩
      | some (.ok result) => .answer (readResponse mbap 0x01 result)
      | some (.error exc) => .answer (exceptionResponse mbap 0x01 exc)

def discreteLoop (d : ThreadDevice) (start : UInt16) : Nat → Nat → List UInt8 → Option (List UInt8)
  | 0, _, result => some result
  | n + 1, i, result =>
    (MachineInt.add start (UInt16.ofNat i)).bind fun addr =>
      match d.maps.discreteInputs addr with
      | none => d.discreteLoop start n (i + 1) result
      | some name =>
        match d.transport.readSignal name with
        | .ok (some (.bool true, _)) => d.discreteLoop start n (i + 1) (setBit result i)
        | _ => d.discreteLoop start n (i + 1) result

def handleReadDiscreteInputs (d : ThreadDevice) (mbap : Mbap) (data : List UInt8) : Handled :=
  if data.length < 4 then
    .answer (exceptionResponse mbap 0x02 illegalDataValue)
  else
    let start := beWord data 0
    let count := beWord data 2
    if count = 0 ∨ count > 2000 then
      .answer (exceptionResponse mbap 0x02 illegalDataValue)
    else
      match d.discreteLoop start count.toNat 0 (List.replicate ((count.toNat + 7) / 8) 0) with
      | none => ⟨none, []⟩
      | some result => .answer (readResponse mbap 0x02 result)

def registerLoop [FloatCast] (d : ThreadDevice) (map : UInt16 → Option String) (start : UInt16) :
    Nat → Nat → List UInt8 → Option (Except UInt8 (List UInt8))
  | 0, _, result => some (.ok result)
  | n + 1, i, result =>
    (MachineInt.add start (UInt16.ofNat i)).bind fun addr =>
      match d.readRegisterSignal map addr with
      | .ok val => d.registerLoop map start n (i + 1) (setWord result i val)
      | .error exc => some (.error exc)

def handleReadRegisters [FloatCast] (d : ThreadDevice) (mbap : Mbap) (fc : UInt8) (data : List UInt8)
    (map : UInt16 → Option String) : Handled :=
  if data.length < 4 then
    .answer (exceptionResponse mbap fc illegalDataValue)
  else
    let start := beWord data 0
    let count := beWord data 2
    if count = 0 ∨ count > 125 then
      .answer (exceptionResponse mbap fc illegalDataValue)
    else
      match d.registerLoop map start count.toNat 0 (List.replicate (count.toNat * 2) 0) with
      | none => ⟨none, []⟩
      | some (.ok result) => .answer (readResponse mbap fc result)
      | some (.error exc) => .answer (exceptionResponse mbap fc exc)

/-- The `match` at the end of the write handlers. -/
def written (mbap : Mbap) (fc : UInt8) (echo : List UInt8) : Except UInt8 Unit × List Publication → Handled
  | (.ok (), published) => ⟨some (echoResponse mbap fc echo), published⟩
  | (.error exc, published) => ⟨some (exceptionResponse mbap fc exc), published⟩

def handleWriteSingleCoil (d : ThreadDevice) (mbap : Mbap) (data : List UInt8) : Handled :=
  if data.length < 4 then
    .answer (exceptionResponse mbap 0x05 illegalDataValue)
  else
    let addr := beWord data 0
    if beWord data 2 = 0xFF00 then
      written mbap 0x05 data (d.writeCoilSignal addr true)
    else if beWord data 2 = 0x0000 then
      written mbap 0x05 data (d.writeCoilSignal addr false)
    else
      .answer (exceptionResponse mbap 0x05 illegalDataValue)

def handleWriteSingleRegister (d : ThreadDevice) (mbap : Mbap) (data : List UInt8) : Handled :=
  if data.length < 4 then
    .answer (exceptionResponse mbap 0x06 illegalDataValue)
  else
    let addr := beWord data 0
    let value := beWord data 2
    written mbap 0x06 data (d.writeRegisterSignal d.maps.holdingRegs addr value)

def handleWriteMultipleCoils (d : ThreadDevice) (mbap : Mbap) (data : List UInt8) : Handled :=
  if data.length < 6 then
    .answer (exceptionResponse mbap 0x0F illegalDataValue)
  else
    let addr := beWord data 0
    let value := data.getD 5 0 &&& 0x01
    written mbap 0x0F (data.take 4) (d.writeCoilSignal addr (value != 0))

def handleWriteMultipleRegisters (d : ThreadDevice) (mbap : Mbap) (data : List UInt8) : Handled :=
  if data.length < 8 then
    .answer (exceptionResponse mbap 0x10 illegalDataValue)
  else
    let addr := beWord data 0
    let value := beWord data 5
    written mbap 0x10 (data.take 4) (d.writeRegisterSignal d.maps.holdingRegs addr value)

/-- `handle_request` -/
def handleRequest [FloatCast] (d : ThreadDevice) (mbap : Mbap) : List UInt8 → Handled
  | [] => .answer (exceptionResponse mbap 0 illegalFunction)
  | fc :: data =>
    match fc with
    | 0x01 => d.handleReadCoils mbap data
    | 0x02 => d.handleReadDiscreteInputs mbap data
    | 0x03 => d.handleReadRegisters mbap 0x03 data d.maps.holdingRegs
    | 0x04 => d.handleReadRegisters mbap 0x04 data d.maps.inputRegs
    | 0x05 => d.handleWriteSingleCoil mbap data
    | 0x06 => d.handleWriteSingleRegister mbap data
    | 0x0F => d.handleWriteMultipleCoils mbap data
    | 0x10 => d.handleWriteMultipleRegisters mbap data
    | _ => .answer (exceptionResponse mbap fc illegalFunction)

end ThreadDevice

/-! ## The two copies side by side -/

section Frames

omit [Target]

theorem exceptionResponse_eq (mbap : Mbap) (fc exc : UInt8) :
    VirtualModbusTcpDevice.exceptionResponse mbap fc exc = exceptionResponse mbap fc exc := by
  simp [VirtualModbusTcpDevice.exceptionResponse, exceptionResponse]

/-- The high byte of a length needs no mask: the cast cuts it. -/
theorem lenHi_eq (n : Nat) : UInt8.ofNat (n &&& 0xFF) = UInt8.ofNat n := by
  apply UInt8.toNat_inj.1
  have mask : n &&& 255 = n % 2 ^ 8 := Nat.and_two_pow_sub_one_eq_mod n 8
  rw [mask, UInt8.toNat_ofNat', UInt8.toNat_ofNat', Nat.mod_mod]

theorem readResponse_eq (mbap : Mbap) (fc : UInt8) (data : List UInt8) :
    VirtualModbusTcpDevice.readResponse mbap fc data = readResponse mbap fc data := by
  simp only [VirtualModbusTcpDevice.readResponse, readResponse, lenHi_eq, List.append_assoc, List.cons_append,
    List.nil_append]

theorem echoResponse_eq (mbap : Mbap) (fc : UInt8) (data : List UInt8) :
    VirtualModbusTcpDevice.echoResponse mbap fc data = echoResponse mbap fc data := by
  simp only [VirtualModbusTcpDevice.echoResponse, echoResponse, lenHi_eq, List.append_assoc, List.cons_append,
    List.nil_append]

end Frames

section Handlers

variable {d : VirtualModbusTcpDevice} {thread : ThreadDevice}

theorem threadDevice_some (h : d.threadDevice = some thread) :
    d.transport = some thread.transport ∧ d.maps = thread.maps := by
  obtain ⟨transport, ht, rfl⟩ := Option.map_eq_some_iff.1 h
  exact ⟨ht, rfl⟩

theorem readCoilSignal_eq (h : d.threadDevice = some thread) (addr : UInt16) :
    d.readCoilSignal addr = some (thread.readCoilSignal addr) := by
  obtain ⟨ht, hm⟩ := threadDevice_some h
  simp only [VirtualModbusTcpDevice.readCoilSignal, ThreadDevice.readCoilSignal, ht, hm]
  cases thread.maps.coils addr with
  | none => rfl
  | some name =>
    simp only
    cases thread.transport.readSignal name <;> rfl

theorem readRegisterSignal_eq [FloatCast] (h : d.threadDevice = some thread) (map : UInt16 → Option String)
    (addr : UInt16) : d.readRegisterSignal map addr = some (thread.readRegisterSignal map addr) := by
  obtain ⟨ht, -⟩ := threadDevice_some h
  simp only [VirtualModbusTcpDevice.readRegisterSignal, ThreadDevice.readRegisterSignal, ht]
  cases map addr with
  | none => rfl
  | some name =>
    simp only
    cases thread.transport.readSignal name <;> rfl

theorem writeCoilSignal_eq (h : d.threadDevice = some thread) (addr : UInt16) (value : Bool) :
    d.writeCoilSignal addr value =
      (some (thread.writeCoilSignal addr value).1, (thread.writeCoilSignal addr value).2) := by
  obtain ⟨ht, hm⟩ := threadDevice_some h
  simp only [VirtualModbusTcpDevice.writeCoilSignal, ThreadDevice.writeCoilSignal, ht, hm]
  cases thread.maps.coils addr with
  | none => rfl
  | some name =>
    simp only
    cases thread.transport.publishSignal name (.bool value) epoch <;> rfl

theorem writeRegisterSignal_eq (h : d.threadDevice = some thread) (map : UInt16 → Option String)
    (addr value : UInt16) :
    d.writeRegisterSignal map addr value =
      (some (thread.writeRegisterSignal map addr value).1, (thread.writeRegisterSignal map addr value).2) := by
  obtain ⟨ht, -⟩ := threadDevice_some h
  simp only [VirtualModbusTcpDevice.writeRegisterSignal, ThreadDevice.writeRegisterSignal, ht]
  cases map addr with
  | none => rfl
  | some name =>
    simp only
    cases thread.transport.publishSignal name (.u16 value) epoch <;> rfl

/-- A loop of the device and the loop of its thread agree round by round. -/
theorem coilLoop_eq (h : d.threadDevice = some thread) (start : UInt16) (n i : Nat) (result : List UInt8) :
    d.coilLoop start n i result = thread.coilLoop start n i result := by
  induction n generalizing i result with
  | zero => rfl
  | succ n ih =>
    simp only [VirtualModbusTcpDevice.coilLoop, ThreadDevice.coilLoop, readCoilSignal_eq h, Option.bind_some, ih]

theorem discreteLoop_eq (h : d.threadDevice = some thread) (start : UInt16) (n i : Nat) (result : List UInt8) :
    d.discreteLoop start n i result = thread.discreteLoop start n i result := by
  obtain ⟨ht, hm⟩ := threadDevice_some h
  induction n generalizing i result with
  | zero => rfl
  | succ n ih => simp only [VirtualModbusTcpDevice.discreteLoop, ThreadDevice.discreteLoop, ht, hm, ih]

theorem registerLoop_eq [FloatCast] (h : d.threadDevice = some thread) (map : UInt16 → Option String)
    (start : UInt16) (n i : Nat) (result : List UInt8) :
    d.registerLoop map start n i result = thread.registerLoop map start n i result := by
  induction n generalizing i result with
  | zero => rfl
  | succ n ih =>
    simp only [VirtualModbusTcpDevice.registerLoop, ThreadDevice.registerLoop, readRegisterSignal_eq h,
      Option.bind_some, ih]

theorem written_eq (mbap : Mbap) (fc : UInt8) (echo : List UInt8) (r : Except UInt8 Unit × List Publication) :
    VirtualModbusTcpDevice.written mbap fc echo (some r.1, r.2) = ThreadDevice.written mbap fc echo r := by
  obtain ⟨result, published⟩ := r
  cases result with
  | ok u => simp only [VirtualModbusTcpDevice.written, ThreadDevice.written, echoResponse_eq]
  | error exc => simp only [VirtualModbusTcpDevice.written, ThreadDevice.written, exceptionResponse_eq]

theorem handleReadCoils_eq (h : d.threadDevice = some thread) (mbap : Mbap) (data : List UInt8) :
    d.handleReadCoils mbap data = thread.handleReadCoils mbap data := by
  simp only [VirtualModbusTcpDevice.handleReadCoils, ThreadDevice.handleReadCoils, coilLoop_eq h,
    exceptionResponse_eq, readResponse_eq]

theorem handleReadDiscreteInputs_eq (h : d.threadDevice = some thread) (mbap : Mbap) (data : List UInt8) :
    d.handleReadDiscreteInputs mbap data = thread.handleReadDiscreteInputs mbap data := by
  simp only [VirtualModbusTcpDevice.handleReadDiscreteInputs, ThreadDevice.handleReadDiscreteInputs,
    discreteLoop_eq h, exceptionResponse_eq, readResponse_eq]

theorem handleReadRegisters_eq [FloatCast] (h : d.threadDevice = some thread) (mbap : Mbap) (fc : UInt8)
    (data : List UInt8) (map : UInt16 → Option String) :
    d.handleReadRegisters mbap fc data map = thread.handleReadRegisters mbap fc data map := by
  simp only [VirtualModbusTcpDevice.handleReadRegisters, ThreadDevice.handleReadRegisters, registerLoop_eq h,
    exceptionResponse_eq, readResponse_eq]

theorem handleWriteSingleCoil_eq (h : d.threadDevice = some thread) (mbap : Mbap) (data : List UInt8) :
    d.handleWriteSingleCoil mbap data = thread.handleWriteSingleCoil mbap data := by
  simp only [VirtualModbusTcpDevice.handleWriteSingleCoil, ThreadDevice.handleWriteSingleCoil,
    writeCoilSignal_eq h, written_eq, exceptionResponse_eq]

theorem handleWriteSingleRegister_eq (h : d.threadDevice = some thread) (mbap : Mbap) (data : List UInt8) :
    d.handleWriteSingleRegister mbap data = thread.handleWriteSingleRegister mbap data := by
  obtain ⟨-, hm⟩ := threadDevice_some h
  simp only [VirtualModbusTcpDevice.handleWriteSingleRegister, ThreadDevice.handleWriteSingleRegister, hm,
    writeRegisterSignal_eq h, written_eq, exceptionResponse_eq]

/-- The device checks for five bytes and then for six, its thread for six at once. -/
theorem handleWriteMultipleCoils_eq (h : d.threadDevice = some thread) (mbap : Mbap) (data : List UInt8) :
    d.handleWriteMultipleCoils mbap data = thread.handleWriteMultipleCoils mbap data := by
  simp only [VirtualModbusTcpDevice.handleWriteMultipleCoils, ThreadDevice.handleWriteMultipleCoils,
    writeCoilSignal_eq h, written_eq, exceptionResponse_eq]
  by_cases short : data.length < 5
  · rw [if_pos short, if_pos (by omega)]
  · rw [if_neg short]

/-- A register write is refused for its address only. -/
theorem writeRegisterSignal_result (thread : ThreadDevice) (map : UInt16 → Option String) (addr value : UInt16) :
    (thread.writeRegisterSignal map addr value).1 = .ok () ∨
      (thread.writeRegisterSignal map addr value).1 = .error illegalDataAddress := by
  rw [ThreadDevice.writeRegisterSignal]
  cases map addr with
  | none => exact Or.inr rfl
  | some name =>
    simp only
    cases thread.transport.publishSignal name (.u16 value) epoch with
    | error e => exact Or.inr rfl
    | ok u => exact Or.inl rfl

/-- What a register write is answered with is never the refusal of its value: an echo is longer, an address
    error ends otherwise. -/
theorem written_ne_illegalDataValue (mbap : Mbap) (echo : List UInt8) (len : echo.length = 4)
    {r : Except UInt8 Unit × List Publication} (hr : r.1 = .ok () ∨ r.1 = .error illegalDataAddress) :
    ThreadDevice.written mbap 0x10 echo r ≠ .answer (exceptionResponse mbap 0x10 illegalDataValue) := by
  obtain ⟨result, published⟩ := r
  intro h
  have same := congrArg Handled.response h
  rcases hr with hr | hr <;> simp only at hr <;> subst hr
  · have lengths := congrArg List.length (Option.some.inj same)
    simp [echoResponse, exceptionResponse, len] at lengths
  · have ends := congrArg List.getLast? (Option.some.inj same)
    simp [exceptionResponse, illegalDataAddress, illegalDataValue] at ends

/-- The device takes a request with seven data bytes, its thread does not. -/
theorem handleWriteMultipleRegisters_eq_iff (h : d.threadDevice = some thread) (mbap : Mbap) (data : List UInt8) :
    d.handleWriteMultipleRegisters mbap data = thread.handleWriteMultipleRegisters mbap data ↔
      data.length ≠ 7 := by
  obtain ⟨-, hm⟩ := threadDevice_some h
  simp only [VirtualModbusTcpDevice.handleWriteMultipleRegisters, ThreadDevice.handleWriteMultipleRegisters, hm,
    writeRegisterSignal_eq h, written_eq, exceptionResponse_eq]
  by_cases seven : data.length = 7
  · rw [if_neg (by omega), if_pos (by omega)]
    have differ := written_ne_illegalDataValue mbap (data.take 4) (by simp [seven])
      (writeRegisterSignal_result thread thread.maps.holdingRegs (beWord data 0) (beWord data 5))
    exact ⟨fun same => absurd same differ, fun ne => absurd seven ne⟩
  · refine ⟨fun _ => seven, fun _ => ?_⟩
    by_cases short : data.length < 7
    · rw [if_pos short, if_pos (by omega)]
    · rw [if_neg short, if_neg (by omega)]

/-- The other requests are handled alike. -/
theorem handleRequest_eq [FloatCast] (h : d.threadDevice = some thread) (mbap : Mbap) {fc : UInt8} (hfc : fc ≠ 0x10)
    (data : List UInt8) : d.handleRequest mbap (fc :: data) = thread.handleRequest mbap (fc :: data) := by
  obtain ⟨-, hm⟩ := threadDevice_some h
  simp only [VirtualModbusTcpDevice.handleRequest, ThreadDevice.handleRequest,
    VirtualModbusTcpDevice.handleReadHoldingRegisters, VirtualModbusTcpDevice.handleReadInputRegisters,
    handleReadCoils_eq h, handleReadDiscreteInputs_eq h, handleReadRegisters_eq h, handleWriteSingleCoil_eq h,
    handleWriteSingleRegister_eq h, handleWriteMultipleCoils_eq h, exceptionResponse_eq, hm]
  split <;> first | rfl | exact absurd rfl hfc

/-- **The device and its thread agree on every request but one kind**: `Write Multiple Registers` with seven data
    bytes. -/
theorem handleRequest_agree_iff [FloatCast] (d : VirtualModbusTcpDevice) (thread : ThreadDevice)
    (h : d.threadDevice = some thread) (mbap : Mbap) (pdu : List UInt8) :
    d.handleRequest mbap pdu = thread.handleRequest mbap pdu ↔ ¬ (pdu.head? = some 0x10 ∧ pdu.length = 8) := by
  cases pdu with
  | nil => simp [VirtualModbusTcpDevice.handleRequest, ThreadDevice.handleRequest, exceptionResponse_eq]
  | cons fc data =>
    by_cases multiple : fc = 0x10
    · subst multiple
      rw [VirtualModbusTcpDevice.handleRequest, ThreadDevice.handleRequest, handleWriteMultipleRegisters_eq_iff h]
      simp
    · exact ⟨fun _ => by simp [multiple], fun _ => handleRequest_eq h mbap multiple data⟩

end Handlers

end Audesys.Runtime.VirtualModbus

/-! ## One register, written twice -/

namespace Audesys.Runtime.VirtualModbus

open Audesys.Hal

local instance releaseModbus : Target := host false

/-- No request below reads a float. -/
local instance zeroCast : FloatCast := ⟨fun _ => 0⟩

/-- An empty signal table. -/
def emptyTable : HalTransport := ⟨fun _ => .ok none, fun _ _ _ => .ok ()⟩

/-- Holding register 0 is the signal `speed`. -/
def speedMaps : SignalMaps :=
  ⟨fun _ => none, fun addr => if addr = 0 then some "speed" else none, fun _ => none, fun _ => none⟩

def speedDevice : VirtualModbusTcpDevice := ⟨some emptyTable, speedMaps⟩

def speedThread : ThreadDevice := ⟨emptyTable, speedMaps⟩

def speedHeader : Mbap := ⟨[0, 1, 0, 0, 0, 9, 1], rfl⟩

/-- `Write Multiple Registers`: one register from address 0, two bytes, `0x1234`. -/
def writeSpeed : List UInt8 := [0x10, 0, 0, 0, 1, 2, 0x12, 0x34]

/-- The device publishes the value and echoes; its thread refuses the value. -/
theorem writeSpeed_differs :
    speedDevice.threadDevice = some speedThread ∧
      speedDevice.handleRequest speedHeader writeSpeed =
        ⟨some [0, 1, 0, 0, 0, 6, 1, 0x10, 0, 0, 0, 1], [⟨"speed", .u16 0x1234, epoch⟩]⟩ ∧
      speedThread.handleRequest speedHeader writeSpeed = ⟨some [0, 1, 0, 0, 0, 3, 1, 0x90, 0x03], []⟩ ∧
      speedDevice.handleRequest speedHeader writeSpeed ≠ speedThread.handleRequest speedHeader writeSpeed := by
  have device : speedDevice.handleRequest speedHeader writeSpeed =
      ⟨some [0, 1, 0, 0, 0, 6, 1, 0x10, 0, 0, 0, 1], [⟨"speed", .u16 0x1234, epoch⟩]⟩ := rfl
  have thread : speedThread.handleRequest speedHeader writeSpeed =
      ⟨some [0, 1, 0, 0, 0, 3, 1, 0x90, 0x03], []⟩ := rfl
  refine ⟨rfl, device, thread, ?_⟩
  rw [device, thread]
  intro h
  have published := congrArg (fun r => r.published.length) h
  simp at published

/-- Both answer `Write Single Register` alike. -/
theorem writeSingleSpeed_agrees :
    speedDevice.threadDevice = some speedThread ∧
      speedDevice.handleRequest speedHeader [0x06, 0, 0, 0x12, 0x34] =
        speedThread.handleRequest speedHeader [0x06, 0, 0, 0x12, 0x34] :=
  ⟨rfl, (handleRequest_agree_iff speedDevice speedThread rfl speedHeader _).2 (by decide)⟩

end Audesys.Runtime.VirtualModbus
