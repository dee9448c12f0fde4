import Audesys.Hal.Value

/-!
# `Modbus.Mapping` — registers and values

`mapping.rs` and the register calls of `client.rs` of `audesys-modbus`. Registers are in host order; a value of
several registers has its high word first. What `libmodbus` answers is the environment's.
-/

namespace Audesys.Modbus

open Audesys.Hal

variable [Target]

inductive ModbusError where
  | connection (text : String)
  | io (text : String)
  | protocol (text : String)
  | timeout (text : String)
  | invalidAddress (address : UInt16)
  | invalidData (text : String)
  | notConnected
  | unsupported (text : String)
  | internal (text : String)
  deriving DecidableEq

/-- Target register interpretation. -/
inductive RegisterType where
  | u16 | s16 | u32 | s32 | f32 | f64 | coil | arrayU16
  deriving DecidableEq

/-- The `Debug` text of a pin type. -/
def debugPinType : HalPinType → String
  | .bool => "Bool" | .s8 => "S8" | .u8 => "U8" | .s16 => "S16" | .u16 => "U16" | .s32 => "S32" | .u32 => "U32"
  | .s64 => "S64" | .u64 => "U64" | .f32 => "F32" | .f64 => "F64" | .blob => "Blob" | .string => "String"

/-! ## Values -/

/-- The words of a 32-bit pattern. -/
def words32 (bits : Nat) : List UInt16 := [UInt16.ofNat (bits / 2 ^ 16), UInt16.ofNat bits]

/-- The words of a 64-bit pattern. -/
def words64 (bits : Nat) : List UInt16 :=
  [UInt16.ofNat (bits / 2 ^ 48), UInt16.ofNat (bits / 2 ^ 32), UInt16.ofNat (bits / 2 ^ 16), UInt16.ofNat bits]

/-- `chunks(2)` read as little-endian words; the callers check for an even length. -/
def wordsOfBytes : List UInt8 → List UInt16
  | a :: b :: rest => UInt16.ofNat (a.toNat + b.toNat * 256) :: wordsOfBytes rest
  | _ => []

/-- A byte sequence as registers; `what` names it in the error. -/
def bytesToRegisters (what : String) (bytes : List UInt8) (tail : String) :
    Except ModbusError (List UInt16 × RegisterType) :=
  if bytes.length % 2 ≠ 0 then
    .error (.invalidData (what ++ toString bytes.length ++ " not a multiple of 2" ++ tail))
  else
    .ok (wordsOfBytes bytes, .arrayU16)

/-- `halvalue_to_registers` -/
def halvalueToRegisters : HalValue → Except ModbusError (List UInt16 × RegisterType)
  | .bool v => .ok ([if v then 1 else 0], .coil)
  | .s8 v => .ok ([UInt16.ofInt v.toInt], .s16)
  | .u8 v => .ok ([v.toUInt16], .u16)
  | .s16 v => .ok ([UInt16.ofInt v.toInt], .s16)
  | .u16 v => .ok ([v], .u16)
  | .s32 v => .ok (words32 (v.toInt % 2 ^ 32).toNat, .s32)
  | .u32 v => .ok (words32 v.toNat, .u32)
  | .s64 v => .ok (words64 (v.toInt % 2 ^ 64).toNat, .f64)
  | .u64 v => .ok (words64 v.toNat, .f64)
  | .f32 v => .ok (words32 (MachineInt.leNat (FloatFormat.toLeBytes v)), .f32)
  | .f64 v => .ok (words64 (MachineInt.leNat (FloatFormat.toLeBytes v)), .f64)
  | .blob v => bytesToRegisters "Blob length " v " (u16)"
  | .array elementType data =>
    if elementType ≠ .u16 then
      .error (.unsupported ("Array element type " ++ debugPinType elementType ++ " not supported for Modbus"))
    else
      bytesToRegisters "Array data length " data ""
  | .string s => bytesToRegisters "String length " s.toUTF8.toList ""

/-- `coils_to_halvalue` -/
def coilsToHalvalue : List UInt8 → HalValue
  | [] => .bool false
  | [coil] => .bool (coil != 0)
  | coils => .array .bool coils

/-- `registers_to_halvalue` for the interpretation that the adapter asks for (`RegisterType::U16`). -/
def registersToU16 : List UInt16 → Except ModbusError HalValue
  | [] => .error (.invalidData "empty register slice for U16")
  | reg :: _ => .ok (.u16 reg)

/-- `regs[0] << 16 | regs[1]` -/
def pattern32 (hi lo : UInt16) : Nat := hi.toNat * 2 ^ 16 + lo.toNat

/-- `regs[0] << 48 | regs[1] << 32 | regs[2] << 16 | regs[3]` -/
def pattern64 (a b c d : UInt16) : Nat := a.toNat * 2 ^ 48 + b.toNat * 2 ^ 32 + c.toNat * 2 ^ 16 + d.toNat

/-- A value made of the first two registers; `what` names it in the error. -/
def fromPair (what : String) (value : Nat → HalValue) (regs : List UInt16) : Except ModbusError HalValue :=
  match regs with
  | hi :: lo :: _ => .ok (value (pattern32 hi lo))
  | _ => .error (.invalidData ("need 2 registers for " ++ what ++ ", got " ++ toString regs.length))

/-- The bytes of registers, the low byte of each first. -/
def bytesOfWords (regs : List UInt16) : List UInt8 := regs.flatMap fun r => MachineInt.leBytes 2 r.toNat

/-- `registers_to_halvalue` -/
def registersToHalvalue (regs : List UInt16) : RegisterType → Except ModbusError HalValue
  | .u16 => registersToU16 regs
  | .s16 =>
    match regs with
    | [] => .error (.invalidData "empty register slice for S16")
    | reg :: _ => .ok (.s16 (Int16.ofInt reg.toNat))
  | .u32 => fromPair "U32" (fun bits => .u32 (.ofNat bits)) regs
  | .s32 => fromPair "S32" (fun bits => .s32 (.ofInt bits)) regs
  | .f32 => fromPair "F32" (fun bits => .f32 (FloatFormat.ofLeBytes (MachineInt.leBytes 4 bits))) regs
  | .f64 =>
    match regs with
    | a :: b :: c :: d :: _ => .ok (.f64 (FloatFormat.ofLeBytes (MachineInt.leBytes 8 (pattern64 a b c d))))
    | _ => .error (.invalidData ("need 4 registers for F64, got " ++ toString regs.length))
  | .coil => .ok (coilsToHalvalue (bytesOfWords regs))
  | .arrayU16 => .ok (.array .u16 (bytesOfWords regs))

/-! ## The client -/

def modbusMaxReadRegisters : Nat := 125
def modbusMaxWriteRegisters : Nat := 123

/-- What the connection and `libmodbus` do in one poll. -/
structure Ffi where
  connected : Bool
  readBits : Except String (List Bool)
  readRegisters : Except String (List UInt16)
  writeRegisters : Except String Unit

/-- How a register write ended. -/
inductive WriteOutcome where
  /-- Refused before anything was sent. -/
  | refused (e : ModbusError)
  /-- Sent, and answered with an error or not at all. -/
  | failed (e : ModbusError)
  | done
  deriving DecidableEq

namespace Ffi

/-- `read_coils` and `read_discrete_inputs`. -/
def bits (f : Ffi) (count : UInt16) : Except ModbusError (List Bool) :=
  if !f.connected then .error .notConnected
  else if count = 0 then .error (.invalidData "count must be > 0")
  else f.readBits.mapError .io

/-- `read_holding_registers` and `read_input_registers`. -/
def registers (f : Ffi) (count : UInt16) : Except ModbusError (List UInt16) :=
  if !f.connected then .error .notConnected
  else if count = 0 ∨ count.toNat > modbusMaxReadRegisters then
    .error (.invalidData ("count " ++ toString count.toNat ++ " not in 1..=" ++ toString modbusMaxReadRegisters))
  else f.readRegisters.mapError .io

/-- What comes of a call that `libmodbus` makes. -/
def sent (f : Ffi) : WriteOutcome :=
  match f.writeRegisters with
  | .error e => .failed (.io e)
  | .ok () => .done

def writeSingleRegister (f : Ffi) : WriteOutcome :=
  if !f.connected then .refused .notConnected else f.sent

def writeMultipleRegisters (f : Ffi) (values : List UInt16) : WriteOutcome :=
  if !f.connected then .refused .notConnected
  else if values.length = 0 ∨ values.length > modbusMaxWriteRegisters then
    .refused (.invalidData ("count " ++ toString values.length ++ " not in 1..=" ++
      toString modbusMaxWriteRegisters))
  else f.sent

end Ffi

end Audesys.Modbus
