import Mathlib.Algebra.Order.Ring.Int

/-!
# `Hal.Value` — `HalValue` and the arithmetic the register VM does on it

The unified value of the HAL (`audesys-hal-core`, `value.rs`): eleven scalars and three containers, with
the operator implementations the VM calls. Two things of the build are parameters of the whole model,
collected in `Target`: the IEEE formats (`F32`, `F64`, so that nothing here depends on how a float is
represented) and whether integer overflow checks are compiled in (they are in a debug build, where `+`,
`-`, `*` and unary `-` panic on overflow; a release build wraps). Integer division and remainder panic on a
zero divisor and on `MIN / -1` in either build.

A panicking operation is `none`; everything else is total, including the documented "type mismatch gives
`S32(0)`" of the mixed-variant cases.
-/

namespace Audesys.Hal

/-! ## Target -/

/-- The operations of an IEEE format that the VM uses. `partialCmp` and `beq` are separate because neither
    is an order nor an equality in the presence of NaN. -/
class FloatFormat (F : Type) where
  zero : F
  add : F → F → F
  sub : F → F → F
  mul : F → F → F
  div : F → F → F
  rem : F → F → F
  neg : F → F
  partialCmp : F → F → Option Ordering
  beq : F → F → Bool
  toLeBytes : F → List UInt8
  ofLeBytes : List UInt8 → F
  decEq : DecidableEq F

/-- What the compiled runtime fixes: the float formats and the overflow checks. -/
class Target where
  overflowChecks : Bool
  F32 : Type
  F64 : Type
  f32 : FloatFormat F32
  f64 : FloatFormat F64
  /-- `as f32` on an `f64`. -/
  narrow : F64 → F32

instance [Target] : FloatFormat Target.F32 := Target.f32
instance [Target] : FloatFormat Target.F64 := Target.f64
instance [Target] : DecidableEq Target.F32 := Target.f32.decEq
instance [Target] : DecidableEq Target.F64 := Target.f64.decEq

/-! ## Machine integers -/

/-- A fixed-width integer type: its mathematical value, the wrapping cast into it, and the bitwise
    operators. -/
class MachineInt (α : Type) where
  width : Nat
  toInt : α → Int
  ofInt : Int → α
  minVal : Int
  maxVal : Int
  land : α → α → α
  lor : α → α → α
  lxor : α → α → α
  lnot : α → α

instance : MachineInt Int8 where
  width := 8
  toInt := Int8.toInt
  ofInt := Int8.ofInt
  minVal := -2 ^ 7
  maxVal := 2 ^ 7 - 1
  land a b := a &&& b
  lor a b := a ||| b
  lxor a b := a ^^^ b
  lnot a := ~~~a

instance : MachineInt UInt8 where
  width := 8
  toInt a := a.toNat
  ofInt := UInt8.ofInt
  minVal := 0
  maxVal := 2 ^ 8 - 1
  land a b := a &&& b
  lor a b := a ||| b
  lxor a b := a ^^^ b
  lnot a := ~~~a

instance : MachineInt Int16 where
  width := 16
  toInt := Int16.toInt
  ofInt := Int16.ofInt
  minVal := -2 ^ 15
  maxVal := 2 ^ 15 - 1
  land a b := a &&& b
  lor a b := a ||| b
  lxor a b := a ^^^ b
  lnot a := ~~~a

instance : MachineInt UInt16 where
  width := 16
  toInt a := a.toNat
  ofInt := UInt16.ofInt
  minVal := 0
  maxVal := 2 ^ 16 - 1
  land a b := a &&& b
  lor a b := a ||| b
  lxor a b := a ^^^ b
  lnot a := ~~~a

instance : MachineInt Int32 where
  width := 32
  toInt := Int32.toInt
  ofInt := Int32.ofInt
  minVal := -2 ^ 31
  maxVal := 2 ^ 31 - 1
  land a b := a &&& b
  lor a b := a ||| b
  lxor a b := a ^^^ b
  lnot a := ~~~a

instance : MachineInt UInt32 where
  width := 32
  toInt a := a.toNat
  ofInt := UInt32.ofInt
  minVal := 0
  maxVal := 2 ^ 32 - 1
  land a b := a &&& b
  lor a b := a ||| b
  lxor a b := a ^^^ b
  lnot a := ~~~a

instance : MachineInt Int64 where
  width := 64
  toInt := Int64.toInt
  ofInt := Int64.ofInt
  minVal := -2 ^ 63
  maxVal := 2 ^ 63 - 1
  land a b := a &&& b
  lor a b := a ||| b
  lxor a b := a ^^^ b
  lnot a := ~~~a

instance : MachineInt UInt64 where
  width := 64
  toInt a := a.toNat
  ofInt := UInt64.ofInt
  minVal := 0
  maxVal := 2 ^ 64 - 1
  land a b := a &&& b
  lor a b := a ||| b
  lxor a b := a ^^^ b
  lnot a := ~~~a

namespace MachineInt

variable {α : Type} [MachineInt α]

/-- `r` is representable in `α`. -/
def InRange (α : Type) [MachineInt α] (r : Int) : Prop := minVal α ≤ r ∧ r ≤ maxVal α

instance (r : Int) : Decidable (InRange α r) := inferInstanceAs (Decidable (_ ∧ _))

/-- The result of `+`, `-`, `*` whose exact value is `r`: an overflow panics or wraps, as the build says. -/
def checked [Target] (r : Int) : Option α :=
  if InRange α r then some (ofInt r)
  else if Target.overflowChecks then none
  else some (ofInt r)

def add [Target] (a b : α) : Option α := checked (toInt a + toInt b)
def sub [Target] (a b : α) : Option α := checked (toInt a - toInt b)
def mul [Target] (a b : α) : Option α := checked (toInt a * toInt b)
def neg [Target] (a : α) : Option α := checked (-toInt a)

/-- Rust `/`: truncated, with the two unconditional panics. -/
def div (a b : α) : Option α :=
  if toInt b = 0 then none
  else if InRange α ((toInt a).tdiv (toInt b)) then some (ofInt ((toInt a).tdiv (toInt b)))
  else none

/-- Rust `%`: it panics exactly where `/` does. -/
def rem (a b : α) : Option α :=
  if toInt b = 0 then none
  else if InRange α ((toInt a).tdiv (toInt b)) then some (ofInt ((toInt a).tmod (toInt b)))
  else none

/-- The exact result is representable, so no build changes it. -/
theorem checked_of_inRange [Target] {r : Int} (h : InRange α r) : (checked r : Option α) = some (ofInt r) := by
  simp only [checked, if_pos h]

/-- `to_le_bytes`. -/
def leBytes : Nat → Nat → List UInt8
  | 0,     _ => []
  | k + 1, x => UInt8.ofNat x :: leBytes k (x / 256)

/-- `from_le_bytes`, as a natural number. -/
def leNat : List UInt8 → Nat
  | []      => 0
  | b :: bs => b.toNat + 256 * leNat bs

def toLeBytes (a : α) : List UInt8 := leBytes (width α / 8) (toInt a % 2 ^ width α).toNat

def ofLeBytes (bs : List UInt8) : α := ofInt (leNat bs)

end MachineInt

/-! ## Values -/

/-- The discriminator of a HAL value. -/
inductive HalPinType where
  | bool | s8 | u8 | s16 | u16 | s32 | u32 | s64 | u64 | f32 | f64 | blob | string
  deriving DecidableEq

/-- The unified HAL value. -/
inductive HalValue [Target] where
  | bool (b : Bool)
  | s8 (n : Int8)
  | u8 (n : UInt8)
  | s16 (n : Int16)
  | u16 (n : UInt16)
  | s32 (n : Int32)
  | u32 (n : UInt32)
  | s64 (n : Int64)
  | u64 (n : UInt64)
  | f32 (x : Target.F32)
  | f64 (x : Target.F64)
  | blob (data : List UInt8)
  | string (s : String)
  | array (elementType : HalPinType) (data : List UInt8)
  deriving DecidableEq

namespace HalValue

variable [Target]

/-- The pin type of a value. An array reports its element type. -/
def pinType : HalValue → HalPinType
  | bool _ => .bool
  | s8 _ => .s8
  | u8 _ => .u8
  | s16 _ => .s16
  | u16 _ => .u16
  | s32 _ => .s32
  | u32 _ => .u32
  | s64 _ => .s64
  | u64 _ => .u64
  | f32 _ => .f32
  | f64 _ => .f64
  | blob _ => .blob
  | string _ => .string
  | array t _ => t

/-- `HalValue::zero`. -/
def zero : HalPinType → HalValue
  | .bool => bool false
  | .s8 => s8 0
  | .u8 => u8 0
  | .s16 => s16 0
  | .u16 => u16 0
  | .s32 => s32 0
  | .u32 => u32 0
  | .s64 => s64 0
  | .u64 => u64 0
  | .f32 => f32 FloatFormat.zero
  | .f64 => f64 FloatFormat.zero
  | .blob => blob []
  | .string => string ""

/-! ### Array elements -/

/-- Bytes an element of the given type takes in an array. -/
def byteSize : HalPinType → Nat
  | .bool | .s8 | .u8 => 1
  | .s16 | .u16 => 2
  | .s32 | .u32 | .f32 => 4
  | .s64 | .u64 | .f64 => 8
  | .blob | .string => 8

def toBytes : HalValue → List UInt8
  | bool b => [if b then 1 else 0]
  | s8 n => MachineInt.toLeBytes n
  | u8 n => MachineInt.toLeBytes n
  | s16 n => MachineInt.toLeBytes n
  | u16 n => MachineInt.toLeBytes n
  | s32 n => MachineInt.toLeBytes n
  | u32 n => MachineInt.toLeBytes n
  | s64 n => MachineInt.toLeBytes n
  | u64 n => MachineInt.toLeBytes n
  | f32 x => FloatFormat.toLeBytes x
  | f64 x => FloatFormat.toLeBytes x
  | blob data => MachineInt.leBytes 4 data.length ++ data
  | string s => s.toUTF8.toList
  | array _ data => data

def fromBytes (t : HalPinType) (bytes : List UInt8) : HalValue :=
  match t with
  | .bool => bool (bytes.headD 0 != 0)
  | .s8 => s8 (MachineInt.ofLeBytes bytes)
  | .u8 => u8 (MachineInt.ofLeBytes bytes)
  | .s16 => s16 (MachineInt.ofLeBytes bytes)
  | .u16 => u16 (MachineInt.ofLeBytes bytes)
  | .s32 => s32 (MachineInt.ofLeBytes bytes)
  | .u32 => u32 (MachineInt.ofLeBytes bytes)
  | .s64 => s64 (MachineInt.ofLeBytes bytes)
  | .u64 => u64 (MachineInt.ofLeBytes bytes)
  | .f32 => f32 (FloatFormat.ofLeBytes bytes)
  | .f64 => f64 (FloatFormat.ofLeBytes bytes)
  | .blob | .string => s32 0

/-- `&data[lo..hi]`: panics unless `lo ≤ hi ≤ len`. -/
def slice (data : List UInt8) (lo hi : Nat) : Option (List UInt8) :=
  if lo ≤ hi ∧ hi ≤ data.length then some ((data.drop lo).take (hi - lo)) else none

/-- Element `idx`, with the offset computed in `usize`. -/
def index (v : HalValue) (idx : UInt64) : Option HalValue :=
  match v with
  | array t data => do
    let size : UInt64 := UInt64.ofNat (byteSize t)
    let offset ← MachineInt.mul idx size
    let stop ← MachineInt.add offset size
    if stop.toNat > data.length then some (zero t)
    else do
      let bytes ← slice data offset.toNat stop.toNat
      some (fromBytes t bytes)
  | _ => some (zero v.pinType)

/-- Element `idx` replaced. The bytes of `value` are cut to the element size, which panics when there are
    too few of them. -/
def setIndex (v : HalValue) (idx : UInt64) (value : HalValue) : Option HalValue :=
  match v with
  | array t data => do
    let size : UInt64 := UInt64.ofNat (byteSize t)
    let offset ← MachineInt.mul idx size
    let stop ← MachineInt.add offset size
    if stop.toNat > data.length then some v
    else do
      let _ ← slice data offset.toNat stop.toNat
      let bytes ← slice value.toBytes 0 size.toNat
      some (array t (data.take offset.toNat ++ bytes ++ data.drop stop.toNat))
  | _ => some v

/-! ### Operators -/

/-- The body of the `hal_binop!` macro: same-variant numbers are combined, anything else is `S32(0)`. -/
def binop (opI : {α : Type} → [MachineInt α] → α → α → Option α)
    (opF : {F : Type} → [FloatFormat F] → F → F → F) : HalValue → HalValue → Option HalValue
  | s8 a, s8 b => (opI a b).map s8
  | u8 a, u8 b => (opI a b).map u8
  | s16 a, s16 b => (opI a b).map s16
  | u16 a, u16 b => (opI a b).map u16
  | s32 a, s32 b => (opI a b).map s32
  | u32 a, u32 b => (opI a b).map u32
  | s64 a, s64 b => (opI a b).map s64
  | u64 a, u64 b => (opI a b).map u64
  | f32 a, f32 b => some (f32 (opF a b))
  | f64 a, f64 b => some (f64 (opF a b))
  | _, _ => some (s32 0)

def add : HalValue → HalValue → Option HalValue := binop MachineInt.add FloatFormat.add
def sub : HalValue → HalValue → Option HalValue := binop MachineInt.sub FloatFormat.sub
def mul : HalValue → HalValue → Option HalValue := binop MachineInt.mul FloatFormat.mul
def div : HalValue → HalValue → Option HalValue := binop MachineInt.div FloatFormat.div
def rem : HalValue → HalValue → Option HalValue := binop MachineInt.rem FloatFormat.rem

/-- The body of the `hal_bitop!` macro. -/
def bitop (opB : Bool → Bool → Bool) (opI : {α : Type} → [MachineInt α] → α → α → α) :
    HalValue → HalValue → HalValue
  | bool a, bool b => bool (opB a b)
  | s8 a, s8 b => s8 (opI a b)
  | u8 a, u8 b => u8 (opI a b)
  | s16 a, s16 b => s16 (opI a b)
  | u16 a, u16 b => u16 (opI a b)
  | s32 a, s32 b => s32 (opI a b)
  | u32 a, u32 b => u32 (opI a b)
  | s64 a, s64 b => s64 (opI a b)
  | u64 a, u64 b => u64 (opI a b)
  | _, _ => s32 0

def bitand : HalValue → HalValue → HalValue := bitop and MachineInt.land
def bitor : HalValue → HalValue → HalValue := bitop or MachineInt.lor
def bitxor : HalValue → HalValue → HalValue := bitop Bool.xor MachineInt.lxor

def neg : HalValue → Option HalValue
  | s8 v => (MachineInt.neg v).map s8
  | s16 v => (MachineInt.neg v).map s16
  | s32 v => (MachineInt.neg v).map s32
  | s64 v => (MachineInt.neg v).map s64
  | f32 v => some (f32 (FloatFormat.neg v))
  | f64 v => some (f64 (FloatFormat.neg v))
  | _ => some (s32 0)

def not : HalValue → HalValue
  | bool v => bool (!v)
  | s8 v => s8 (MachineInt.lnot v)
  | u8 v => u8 (MachineInt.lnot v)
  | s16 v => s16 (MachineInt.lnot v)
  | u16 v => u16 (MachineInt.lnot v)
  | s32 v => s32 (MachineInt.lnot v)
  | u32 v => u32 (MachineInt.lnot v)
  | s64 v => s64 (MachineInt.lnot v)
  | u64 v => u64 (MachineInt.lnot v)
  | _ => s32 0

/-- The derived `PartialEq`: floats compare by their own equality, all else structurally. -/
def beq : HalValue → HalValue → Bool
  | f32 a, f32 b => FloatFormat.beq a b
  | f64 a, f64 b => FloatFormat.beq a b
  | a, b => decide (a = b)

/-- `PartialOrd`: only two numbers of one variant are comparable. -/
def partialCmp : HalValue → HalValue → Option Ordering
  | s8 a, s8 b => some (compare a.toInt b.toInt)
  | u8 a, u8 b => some (compare a.toNat b.toNat)
  | s16 a, s16 b => some (compare a.toInt b.toInt)
  | u16 a, u16 b => some (compare a.toNat b.toNat)
  | s32 a, s32 b => some (compare a.toInt b.toInt)
  | u32 a, u32 b => some (compare a.toNat b.toNat)
  | s64 a, s64 b => some (compare a.toInt b.toInt)
  | u64 a, u64 b => some (compare a.toNat b.toNat)
  | f32 a, f32 b => FloatFormat.partialCmp a b
  | f64 a, f64 b => FloatFormat.partialCmp a b
  | _, _ => none

def gt (a b : HalValue) : Bool := partialCmp a b == some .gt
def lt (a b : HalValue) : Bool := partialCmp a b == some .lt
def ge (a b : HalValue) : Bool := partialCmp a b == some .gt || partialCmp a b == some .eq
def le (a b : HalValue) : Bool := partialCmp a b == some .lt || partialCmp a b == some .eq

/-- `b == S32(0) || b == F32(0.0) || b == F64(0.0)`, the divisors the VM saturates on. -/
def isZeroDivisor (b : HalValue) : Bool :=
  beq b (s32 0) || beq b (f32 FloatFormat.zero) || beq b (f64 FloatFormat.zero)

end HalValue

end Audesys.Hal
