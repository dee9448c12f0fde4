import Audesys.Hal.Host
import Audesys.Hal.Executor

/-!
# `Hal.Division` — when `Div` and `Mod` complete

The two instructions saturate on three divisors only (`S32(0)`, `F32(0.0)`, `F64(0.0)`) and hand everything
else to Rust's `/` and `%`, which panic on a zero divisor and where the quotient overflows. `Faults` names the
operand pairs that reach such a panic; on all others of one integer type the result is the truncated quotient
or remainder.
-/

namespace Audesys.Hal

/-! ## Machine integers -/

/-- The values of the type lie between its limits, which are those of an unsigned or a two's complement
    representation. -/
class BoundedMachineInt (α : Type) [MachineInt α] : Prop where
  inRange_toInt : ∀ a : α, MachineInt.InRange α (MachineInt.toInt a)
  limits : MachineInt.minVal α = 0 ∨ MachineInt.minVal α = -(MachineInt.maxVal α + 1)
  one_le_maxVal : 1 ≤ MachineInt.maxVal α

instance : BoundedMachineInt Int8 where
  inRange_toInt a := ⟨a.le_toInt, Int.le_sub_one_of_lt a.toInt_lt⟩
  limits := .inr (by decide)
  one_le_maxVal := by decide

instance : BoundedMachineInt UInt8 where
  inRange_toInt a := ⟨Int.natCast_nonneg _, Int.le_sub_one_of_lt (Int.ofNat_lt.2 a.toNat_lt)⟩
  limits := .inl rfl
  one_le_maxVal := by decide

instance : BoundedMachineInt Int16 where
  inRange_toInt a := ⟨a.le_toInt, Int.le_sub_one_of_lt a.toInt_lt⟩
  limits := .inr (by decide)
  one_le_maxVal := by decide

instance : BoundedMachineInt UInt16 where
  inRange_toInt a := ⟨Int.natCast_nonneg _, Int.le_sub_one_of_lt (Int.ofNat_lt.2 a.toNat_lt)⟩
  limits := .inl rfl
  one_le_maxVal := by decide

instance : BoundedMachineInt Int32 where
  inRange_toInt a := ⟨a.le_toInt, Int.le_sub_one_of_lt a.toInt_lt⟩
  limits := .inr (by decide)
  one_le_maxVal := by decide

instance : BoundedMachineInt UInt32 where
  inRange_toInt a := ⟨Int.natCast_nonneg _, Int.le_sub_one_of_lt (Int.ofNat_lt.2 a.toNat_lt)⟩
  limits := .inl rfl
  one_le_maxVal := by decide

instance : BoundedMachineInt Int64 where
  inRange_toInt a := ⟨a.le_toInt, Int.le_sub_one_of_lt a.toInt_lt⟩
  limits := .inr (by decide)
  one_le_maxVal := by decide

instance : BoundedMachineInt UInt64 where
  inRange_toInt a := ⟨Int.natCast_nonneg _, Int.le_sub_one_of_lt (Int.ofNat_lt.2 a.toNat_lt)⟩
  limits := .inl rfl
  one_le_maxVal := by decide

namespace MachineInt

variable {α : Type} [MachineInt α]

/-- Rust's `/` and `%` panic: the divisor is zero, or the quotient is one above the largest value. -/
def DivFault (a b : α) : Prop := toInt b = 0 ∨ toInt b = -1 ∧ toInt a = minVal α

instance (a b : α) : Decidable (DivFault a b) := inferInstanceAs (Decidable (_ ∨ _))

variable [BoundedMachineInt α]

/-- The quotient of two values is a value again, away from the two faults. -/
theorem tdiv_inRange {a b : α} (h : ¬ DivFault a b) : InRange α ((toInt a).tdiv (toInt b)) := by
  obtain ⟨hb, hmin⟩ := not_or.1 h
  obtain ⟨ha₁, ha₂⟩ := BoundedMachineInt.inRange_toInt a
  obtain ⟨hb₁, hb₂⟩ := BoundedMachineInt.inRange_toInt b
  have hmax := BoundedMachineInt.one_le_maxVal (α := α)
  have habs := Int.natAbs_tdiv_le_natAbs (toInt a) (toInt b)
  rcases BoundedMachineInt.limits (α := α) with hlo | hlo
  · -- unsigned: nothing is negative and the quotient is at most the dividend
    have hnonneg := Int.tdiv_nonneg (show 0 ≤ toInt a by omega) (show 0 ≤ toInt b by omega)
    exact ⟨by omega, by omega⟩
  · by_cases ha : toInt a = minVal α
    · rcases Int.lt_or_gt_of_ne hb with hneg | hpos
      · -- a divisor below -1 at least halves the absolute value
        have hle : toInt b ≤ -2 := by have := fun hm => hmin ⟨hm, ha⟩; omega
        have hhalf : ((toInt a).tdiv (toInt b)).natAbs ≤ (toInt a).natAbs / 2 := by
          rw [Int.natAbs_tdiv]
          exact Nat.div_le_div_left (by omega) (by decide)
        exact ⟨by omega, by omega⟩
      · -- a positive divisor keeps the sign
        have hsign : (toInt a).tdiv (toInt b) = -((-toInt a).tdiv (toInt b)) := by rw [Int.neg_tdiv, Int.neg_neg]
        have hnonneg := Int.tdiv_nonneg (show 0 ≤ -toInt a by omega) (Int.le_of_lt hpos)
        exact ⟨by omega, by omega⟩
    · exact ⟨by omega, by omega⟩

/-- A fault is a panic: of the zero test, or of the overflow test. -/
theorem not_tdiv_inRange {a b : α} (h : DivFault a b) (hb : toInt b ≠ 0) :
    ¬ InRange α ((toInt a).tdiv (toInt b)) := by
  obtain ⟨hb₁, ha⟩ := h.resolve_left hb
  obtain ⟨hlow, _⟩ := BoundedMachineInt.inRange_toInt b
  have hquot : (toInt a).tdiv (toInt b) = -toInt a := by rw [hb₁, Int.tdiv_neg, Int.tdiv_one]
  rintro ⟨_, hhigh⟩
  rcases BoundedMachineInt.limits (α := α) with hlo | hlo <;> omega

theorem div_eq (a b : α) :
    div a b = if DivFault a b then none else some (ofInt ((toInt a).tdiv (toInt b))) := by
  unfold div
  by_cases hb : toInt b = 0
  · rw [if_pos hb, if_pos (.inl hb)]
  · by_cases h : DivFault a b
    · rw [if_neg hb, if_neg (not_tdiv_inRange h hb), if_pos h]
    · rw [if_neg hb, if_pos (tdiv_inRange h), if_neg h]

theorem rem_eq (a b : α) :
    rem a b = if DivFault a b then none else some (ofInt ((toInt a).tmod (toInt b))) := by
  unfold rem
  by_cases hb : toInt b = 0
  · rw [if_pos hb, if_pos (.inl hb)]
  · by_cases h : DivFault a b
    · rw [if_neg hb, if_neg (not_tdiv_inRange h hb), if_pos h]
    · rw [if_neg hb, if_pos (tdiv_inRange h), if_neg h]

end MachineInt

/-! ## Operands of one integer type -/

/-- The least value of an integer type. -/
def HalPinType.minInt : HalPinType → Int
  | .s8 => MachineInt.minVal Int8
  | .s16 => MachineInt.minVal Int16
  | .s32 => MachineInt.minVal Int32
  | .s64 => MachineInt.minVal Int64
  | _ => 0

variable [Target]

namespace HalValue

/-- The type and the mathematical value of an integer. -/
def asInt : HalValue → Option (HalPinType × Int)
  | s8 n => some (.s8, MachineInt.toInt n)
  | u8 n => some (.u8, MachineInt.toInt n)
  | s16 n => some (.s16, MachineInt.toInt n)
  | u16 n => some (.u16, MachineInt.toInt n)
  | s32 n => some (.s32, MachineInt.toInt n)
  | u32 n => some (.u32, MachineInt.toInt n)
  | s64 n => some (.s64, MachineInt.toInt n)
  | u64 n => some (.u64, MachineInt.toInt n)
  | _ => none

/-- The value of an integer type that is `r` modulo the type's width. -/
def castInt (t : HalPinType) (r : Int) : HalValue :=
  match t with
  | .s8 => s8 (MachineInt.ofInt r)
  | .u8 => u8 (MachineInt.ofInt r)
  | .s16 => s16 (MachineInt.ofInt r)
  | .u16 => u16 (MachineInt.ofInt r)
  | .s32 => s32 (MachineInt.ofInt r)
  | .u32 => u32 (MachineInt.ofInt r)
  | .s64 => s64 (MachineInt.ofInt r)
  | .u64 => u64 (MachineInt.ofInt r)
  | t => zero t

/-- An integer operation that fails on the division faults and else computes `f`. -/
def Divides (opI : {α : Type} → [MachineInt α] → α → α → Option α) (f : Int → Int → Int) : Prop :=
  ∀ {α : Type} [MachineInt α] [BoundedMachineInt α] (a b : α),
    opI a b = if MachineInt.DivFault a b then none
      else some (MachineInt.ofInt (f (MachineInt.toInt a) (MachineInt.toInt b)))

variable {opI : {α : Type} → [MachineInt α] → α → α → Option α}
  {opF : {F : Type} → [FloatFormat F] → F → F → F} {f : Int → Int → Int} {x y : HalValue} {t : HalPinType}
  {m n : Int}

/-- The macro's arm of two integers of one type. -/
theorem binop_asInt (hop : Divides opI f) (hx : x.asInt = some (t, m)) (hy : y.asInt = some (t, n)) :
    binop opI opF x y = if n = 0 ∨ n = -1 ∧ m = t.minInt then none else some (castInt t (f m n)) := by
  have harm : ∀ {α : Type} [MachineInt α] [BoundedMachineInt α] (mk : α → HalValue) (a b : α),
      (opI a b).map mk = if MachineInt.DivFault a b then none
        else some (mk (MachineInt.ofInt (f (MachineInt.toInt a) (MachineInt.toInt b)))) := by
    intro α _ _ mk a b
    have hab : opI a b = if MachineInt.DivFault a b then none
        else some (MachineInt.ofInt (f (MachineInt.toInt a) (MachineInt.toInt b))) := hop a b
    rw [hab]
    split <;> rfl
  cases x <;> cases hx <;> cases y <;> cases hy <;> exact harm _ _ _

/-- Operands that are not two integers of one type never fail. -/
theorem binop_ne_none (h : ∀ t m n, x.asInt = some (t, m) → y.asInt ≠ some (t, n)) :
    ∃ r, binop opI opF x y = some r := by
  cases x <;> cases y <;> first | exact ⟨_, rfl⟩ | exact absurd rfl (h _ _ _ rfl)

/-- The saturating test fires on one integer only. -/
theorem isZeroDivisor_asInt (hy : y.asInt = some (t, n)) : y.isZeroDivisor = true ↔ t = .s32 ∧ n = 0 := by
  cases y with
  | s32 k =>
    cases hy
    have hk : k = 0 ↔ k.toInt = 0 := by rw [← Int32.toInt_inj]; rfl
    simp [isZeroDivisor, beq, hk, MachineInt.toInt]
  | s8 k | u8 k | s16 k | u16 k | u32 k | s64 k | u64 k => cases hy; simp [isZeroDivisor, beq]
  | _ => cases hy

/-- The operand pairs on which the VM panics: integers of one type, the divisor a zero of a type other than
    `S32`, or the dividend the least value and the divisor -1. -/
def Faults (x y : HalValue) : Prop :=
  ∃ t m n, x.asInt = some (t, m) ∧ y.asInt = some (t, n) ∧ (n = 0 ∧ t ≠ .s32 ∨ n = -1 ∧ m = t.minInt)

/-- The result that integers of one type should give: zero for a zero divisor, else the exact result, reduced
    to the width of the type. -/
def quotient (f : Int → Int → Int) (t : HalPinType) (m n : Int) : HalValue :=
  castInt t (if n = 0 then 0 else f m n)

/-- The operation is total and agrees with `f` on integers of one type. -/
def TotalAt (op : HalValue → HalValue → Option HalValue) (f : Int → Int → Int) (x y : HalValue) : Prop :=
  ∃ r, op x y = some r ∧ ∀ t m n, x.asInt = some (t, m) → y.asInt = some (t, n) → r = quotient f t m n

/-- **Saturation and division together**: the test in front of the operator leaves exactly the faults. -/
theorem saturating_total_iff (hop : Divides opI f) :
    TotalAt (fun a b => if b.isZeroDivisor then some (s32 0) else binop opI opF a b) f x y ↔ ¬ Faults x y := by
  by_cases hint : ∃ t m n, x.asInt = some (t, m) ∧ y.asInt = some (t, n)
  · obtain ⟨t, m, n, hx, hy⟩ := hint
    have hop := @binop_asInt _ opI opF f x y t m n hop hx hy
    have hzero := isZeroDivisor_asInt hy
    constructor
    · rintro ⟨r, hr, _⟩ ⟨t', m', n', hx', hy', hfault⟩
      obtain ⟨rfl, rfl⟩ : t = t' ∧ m = m' := by rw [hx] at hx'; cases hx'; exact ⟨rfl, rfl⟩
      obtain rfl : n = n' := by rw [hy] at hy'; cases hy'; rfl
      -- a fault passes the saturating test
      have hpass : ¬ y.isZeroDivisor = true := by
        rw [hzero]
        rintro ⟨rfl, rfl⟩
        rcases hfault with ⟨_, hne⟩ | ⟨hneg, _⟩
        · exact hne rfl
        · cases hneg
      simp only [if_neg hpass, hop] at hr
      rw [if_pos (hfault.imp And.left id)] at hr
      cases hr
    · intro hno
      by_cases hz : y.isZeroDivisor = true
      · obtain ⟨rfl, rfl⟩ := hzero.1 hz
        refine ⟨s32 0, by simp only [if_pos hz], ?_⟩
        intro t' m' n' hx' hy'
        rw [hx] at hx'
        rw [hy] at hy'
        cases hx'
        cases hy'
        rfl
      · have hsound : ¬ (n = 0 ∨ n = -1 ∧ m = t.minInt) := by
          rintro (rfl | hmin)
          · exact hno ⟨t, m, 0, hx, hy, .inl ⟨rfl, fun ht => hz (hzero.2 ⟨ht, rfl⟩)⟩⟩
          · exact hno ⟨t, m, n, hx, hy, .inr hmin⟩
        refine ⟨castInt t (f m n), by simp only [if_neg hz, hop, if_neg hsound], ?_⟩
        intro t' m' n' hx' hy'
        rw [hx] at hx'
        rw [hy] at hy'
        cases hx'
        cases hy'
        rw [quotient, if_neg fun h0 => hsound (.inl h0)]
  · -- nothing is promised about the result, and nothing fails
    have hother : ∀ t m n, x.asInt = some (t, m) → y.asInt ≠ some (t, n) :=
      fun t m n hx hy => hint ⟨t, m, n, hx, hy⟩
    obtain ⟨r, hr⟩ := @binop_ne_none _ opI opF x y hother
    refine iff_of_true ?_ fun ⟨t, m, n, hx, hy, _⟩ => hint ⟨t, m, n, hx, hy⟩
    by_cases hz : y.isZeroDivisor = true
    · exact ⟨s32 0, by simp only [if_pos hz], fun t m n hx hy => absurd ⟨t, m, n, hx, hy⟩ hint⟩
    · exact ⟨r, by simp only [if_neg hz, hr], fun t m n hx hy => absurd ⟨t, m, n, hx, hy⟩ hint⟩

theorem divOp_total_iff : TotalAt Exec.divOp Int.tdiv x y ↔ ¬ Faults x y :=
  saturating_total_iff MachineInt.div_eq

theorem modOp_total_iff : TotalAt Exec.modOp Int.tmod x y ↔ ¬ Faults x y :=
  saturating_total_iff MachineInt.rem_eq

end HalValue

/-! ## The instructions -/

/-- Executing `op a, b, out` completes, and for two integers of one type it leaves the result of `f` in
    `out`. -/
def Completes (op : Opcode) (f : Int → Int → Int) (vm : Vm) (a b out : UInt8) (x y : HalValue) : Prop :=
  ∃ vm', Exec.execPlain vm (.arith op a b out) = some vm' ∧
    ∀ t m n, x.asInt = some (t, m) → y.asInt = some (t, n) →
      vm'.readRegister out = some (HalValue.quotient f t m n)

theorem Vm.writeRegister_lt (vm : Vm) {r : UInt8} (h : r.toNat < registerCount) (v : HalValue) :
    ∃ vm', vm.writeRegister r v = some vm' ∧ vm'.readRegister r = some v := by
  refine ⟨_, if_pos h, ?_⟩
  simp only [Vm.readRegister, dif_pos h, if_true]

/-- An arithmetic instruction is its operation on the registers. -/
theorem completes_iff {op : Opcode} {g : HalValue → HalValue → Option HalValue} {f : Int → Int → Int} {vm : Vm}
    {a b out : UInt8} {x y : HalValue} (hop : ∀ vm args, Exec.execPlain vm ⟨op, args⟩ = Exec.execArithBinop g vm args)
    (ha : vm.readRegister a = some x) (hb : vm.readRegister b = some y) (hout : out.toNat < registerCount) :
    Completes op f vm a b out x y ↔ HalValue.TotalAt g f x y := by
  have hexec : Exec.execPlain vm (.arith op a b out) = (g x y).bind (vm.writeRegister out) := by
    rw [Instruction.arith, hop]
    simp only [Exec.execArithBinop, Exec.readReg, Exec.destReg, ha, hb, Option.bind_eq_bind, Option.bind_some]
  constructor
  · rintro ⟨vm', hvm', hres⟩
    rw [hexec] at hvm'
    obtain ⟨r, hr, hw⟩ := Option.bind_eq_some_iff.1 hvm'
    obtain ⟨vm₁, hw₁, hread⟩ := Vm.writeRegister_lt vm hout r
    rw [hw₁] at hw
    cases hw
    refine ⟨r, hr, fun t m n hx hy => ?_⟩
    have := hres t m n hx hy
    rw [hread] at this
    exact Option.some.inj this
  · rintro ⟨r, hr, hres⟩
    obtain ⟨vm₁, hw₁, hread⟩ := Vm.writeRegister_lt vm hout r
    refine ⟨vm₁, by rw [hexec, hr, Option.bind_some, hw₁], fun t m n hx hy => ?_⟩
    rw [hread, hres t m n hx hy]

/-- **`Div` and `Mod` on the VM.** Either completes with the truncated result exactly when the operands are
    not one of the faults. -/
theorem divMod_total_iff {vm : Vm} {a b out : UInt8} {x y : HalValue} (ha : vm.readRegister a = some x)
    (hb : vm.readRegister b = some y) (hout : out.toNat < registerCount) :
    (Completes .div Int.tdiv vm a b out x y ↔ ¬ HalValue.Faults x y) ∧
      (Completes .mod Int.tmod vm a b out x y ↔ ¬ HalValue.Faults x y) :=
  ⟨(completes_iff (fun _ _ => rfl) ha hb hout).trans HalValue.divOp_total_iff,
    (completes_iff (fun _ _ => rfl) ha hb hout).trans HalValue.modOp_total_iff⟩

end Audesys.Hal

namespace Audesys.Hal

local instance releaseDivision : Target := host false

/-- A machine with `x` in `r0` and `y` in `r1`. -/
def divVm (x y : HalValue) : Vm :=
  { Vm.new with registers := fun r => if r.val = 0 then x else if r.val = 1 then y else .s32 0 }

theorem divMod_total_iff_negative :
    Completes .div Int.tdiv (divVm (.s16 (-7)) (.s16 2)) 0 1 2 (.s16 (-7)) (.s16 2) ∧
      Completes .mod Int.tmod (divVm (.s16 (-7)) (.s16 2)) 0 1 2 (.s16 (-7)) (.s16 2) := by
  have hno : ¬ HalValue.Faults (.s16 (-7)) (.s16 2) := by
    rintro ⟨t, m, n, hx, hy, hfault⟩
    cases hy
    rcases hfault with ⟨h0, _⟩ | ⟨h1, _⟩
    · exact absurd h0 (by decide)
    · exact absurd h1 (by decide)
  have h := @divMod_total_iff _ (divVm (.s16 (-7)) (.s16 2)) 0 1 2 (.s16 (-7)) (.s16 2) rfl rfl (by decide)
  exact ⟨h.1.2 hno, h.2.2 hno⟩

/-- The zero of `INT` is not one of the three divisors that saturate, and the least `DINT` overflows. -/
theorem divMod_panics :
    ¬ Completes .div Int.tdiv (divVm (.s16 7) (.s16 0)) 0 1 2 (.s16 7) (.s16 0) ∧
      ¬ Completes .mod Int.tmod (divVm (.s32 (-2147483648)) (.s32 (-1))) 0 1 2 (.s32 (-2147483648)) (.s32 (-1)) := by
  constructor
  · rintro ⟨vm', h, _⟩
    have hnone : Exec.execPlain (divVm (.s16 7) (.s16 0)) (.arith .div 0 1 2) = none := rfl
    rw [hnone] at h
    cases h
  · rintro ⟨vm', h, _⟩
    have hnone : Exec.execPlain (divVm (.s32 (-2147483648)) (.s32 (-1))) (.arith .mod 0 1 2) = none := rfl
    rw [hnone] at h
    cases h

end Audesys.Hal
