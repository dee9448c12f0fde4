import Audesys.Hal.Value

/-!
# `Hart.Mapping` — HART variables and values

`mapping.rs` of `audesys-hart`: the values that HART variables carry, big-endian on the wire.
-/

namespace Audesys.Hart

open Audesys.Hal

inductive HartError where
  | connection (text : String)
  | io (text : String)
  | protocol (text : String)
  | timeout (text : String)
  | invalidAddress (address : UInt8)
  | invalidData (text : String)
  | notConnected
  | unsupported (text : String)
  | internal (text : String)
  deriving DecidableEq

inductive VariableType where
  | float | u8 | u16 | u24 | status
  deriving DecidableEq

variable [Target]

/-- `encode_f32_be` -/
def encodeF32Be (val : Target.F32) : List UInt8 := (FloatFormat.toLeBytes val).reverse

/-- `decode_f32_be`; the callers check for four bytes. -/
def decodeF32Be (bytes : List UInt8) : Target.F32 := FloatFormat.ofLeBytes (bytes.take 4).reverse

/-- A big-endian number; `decode_u16_be` and `decode_u24_be` read one of two and of three bytes. -/
def decodeBe (bytes : List UInt8) : Nat := MachineInt.leNat bytes.reverse

/-- A value made of the first bytes, of which there have to be some; `what` names it in the error. -/
def decoded (what : String) (size : Nat) (value : List UInt8 → HalValue) (data : List UInt8) :
    Except HartError HalValue :=
  if data.length < size then
    .error (.invalidData (what ++ " requires " ++ toString size ++ if size = 1 then " byte" else " bytes"))
  else .ok (value (data.take size))

/-- `variables_to_halvalue` -/
def variablesToHalvalue (data : List UInt8) : VariableType → Except HartError HalValue
  | .float => decoded "float" 4 (fun bytes => .f32 (decodeF32Be bytes)) data
  | .u8 => decoded "u8" 1 (fun bytes => .u8 (bytes.headD 0)) data
  | .u16 => decoded "u16" 2 (fun bytes => .u16 (.ofNat (decodeBe bytes))) data
  | .u24 => decoded "u24" 3 (fun bytes => .u32 (.ofNat (decodeBe bytes))) data
  | .status => decoded "status" 2 (fun bytes => .u16 (.ofNat (decodeBe bytes))) data

/-- `halvalue_to_variables`, with the `Debug` texts of values. Of a `U32` the low three bytes are sent. -/
def halvalueToVariables (debug : HalValue → String) : HalValue → Except HartError (List UInt8 × VariableType)
  | .f32 v => .ok (encodeF32Be v, .float)
  | .u8 v => .ok ([v], .u8)
  | .u16 v => .ok ((MachineInt.leBytes 2 v.toNat).reverse, .u16)
  | .u32 v => .ok ((MachineInt.leBytes 4 v.toNat).reverse.tail, .u24)
  | other => .error (.unsupported ("HalValue variant " ++ debug other ++ " has no HART wire equivalent"))

end Audesys.Hart
