import Audesys.Hal.Bytes
import Audesys.Hal.Division
import Audesys.Lib.Window

/-!
# `Hal.ArrayAccess` — indexing arrays by byte ranges

`HalValue::index` and `set_index` compute the byte range of an element in `usize` and only then compare it with
the data. `start` is that computation: where it stays within `usize` it is the range of the element; where it
leaves it, a debug build panics, and a release build panics or lands on the range of some other element. All
results about arrays are stated through it.
-/

namespace Audesys.Hal

open Audesys.Lib

variable [Target]

/-! ## The byte range of an element -/

/-- A `usize` operation whose exact result is `n`. -/
theorem checked_usize (n : Nat) : (MachineInt.checked (n : Int) : Option UInt64) =
    if n < 2 ^ 64 ∨ Target.overflowChecks = false then some (UInt64.ofNat n) else none := by
  have hin : MachineInt.InRange UInt64 (n : Int) ↔ n < 2 ^ 64 := by
    show (0 : Int) ≤ n ∧ (n : Int) ≤ 2 ^ 64 - 1 ↔ _
    omega
  have hof : (MachineInt.ofInt (n : Int) : UInt64) = UInt64.ofNat n := by
    have hmod : ((n : Int) % 2 ^ 64).toNat = n % 2 ^ 64 := by omega
    show UInt64.ofNat ((n : Int) % 2 ^ 64).toNat = _
    rw [hmod]
    exact UInt64.ofNat_mod_size
  unfold MachineInt.checked
  rw [hof]
  by_cases h : n < 2 ^ 64
  · rw [if_pos (hin.2 h), if_pos (.inl h)]
  · rw [if_neg (mt hin.1 h)]
    cases Target.overflowChecks with
    | true => rw [if_pos rfl, if_neg (by simp only [h, Bool.true_eq_false, or_self, not_false_eq_true])]
    | false => rw [if_neg (by decide), if_pos (.inr rfl)]

/-- The offset of element `u`, as the code computes it: `none` is a panic. An offset that has wrapped around
    to the last bytes of the address space makes an empty range that ends in front of its start. -/
def start (size u : Nat) : Option Nat :=
  if (u + 1) * size < 2 ^ 64 then some (u * size)
  else if Target.overflowChecks then none
  else if (u + 1) * size % 2 ^ 64 = 0 then none
  else some (u * size % 2 ^ 64)

omit [Target] in
theorem byteSize_cases (t : HalPinType) :
    HalValue.byteSize t = 1 ∨ HalValue.byteSize t = 2 ∨ HalValue.byteSize t = 4 ∨ HalValue.byteSize t = 8 := by
  cases t <;> decide

/-- Offset and end of an element, in the order of the code: a continuation that agrees with `kn` on a proper
    range and fails on the inverted one sees `start`. -/
theorem range_eq {β : Type} {size : Nat} (hsize : size = 1 ∨ size = 2 ∨ size = 4 ∨ size = 8) (u : UInt64)
    {k : UInt64 → UInt64 → Option β} {kn : Nat → Option β}
    (hk : ∀ lo, lo + size < 2 ^ 64 → k (UInt64.ofNat lo) (UInt64.ofNat (lo + size)) = kn lo)
    (hinverted : k (UInt64.ofNat (2 ^ 64 - size)) 0 = none) :
    ((MachineInt.mul u (UInt64.ofNat size)).bind fun offset =>
      (MachineInt.add offset (UInt64.ofNat size)).bind (k offset)) = (start size u.toNat).bind kn := by
  have hsmall : (UInt64.ofNat size).toNat = size := by
    rw [UInt64.toNat_ofNat']
    omega
  have hmul : (MachineInt.mul u (UInt64.ofNat size) : Option UInt64) =
      if u.toNat * size < 2 ^ 64 ∨ Target.overflowChecks = false then some (UInt64.ofNat (u.toNat * size))
      else none := by
    show MachineInt.checked ((u.toNat : Int) * ((UInt64.ofNat size).toNat : Int)) = _
    rw [hsmall, ← Int.natCast_mul, checked_usize]
  have hadd : ∀ n : Nat, (MachineInt.add (UInt64.ofNat n) (UInt64.ofNat size) : Option UInt64) =
      if n % 2 ^ 64 + size < 2 ^ 64 ∨ Target.overflowChecks = false then
        some (UInt64.ofNat (n % 2 ^ 64 + size))
      else none := by
    intro n
    show MachineInt.checked (((UInt64.ofNat n).toNat : Int) + ((UInt64.ofNat size).toNat : Int)) = _
    rw [hsmall, UInt64.toNat_ofNat', ← Int.natCast_add, checked_usize]
  have hnext : (u.toNat + 1) * size = u.toNat * size + size := Nat.succ_mul _ _
  unfold start
  by_cases hfit : (u.toNat + 1) * size < 2 ^ 64
  · -- the exact range
    have hmod : u.toNat * size % 2 ^ 64 = u.toNat * size := Nat.mod_eq_of_lt (by omega)
    rw [if_pos hfit, hmul, if_pos (.inl (by omega)), Option.bind_some, hadd, hmod, if_pos (.inl (by omega)),
      Option.bind_some, Option.bind_some, hk _ (by omega)]
  · rw [if_neg hfit]
    cases hchecks : Target.overflowChecks with
    | true =>
      rw [if_pos rfl, Option.bind_none, hmul, hchecks]
      by_cases hoff : u.toNat * size < 2 ^ 64
      · rw [if_pos (.inl hoff), Option.bind_some, hadd, hchecks, if_neg, Option.bind_none]
        rw [Nat.mod_eq_of_lt hoff]
        simp only [Bool.true_eq_false, or_false]
        omega
      · rw [if_neg, Option.bind_none]
        simp only [hoff, Bool.true_eq_false, or_self, not_false_eq_true]
    | false =>
      rw [hmul, hchecks, if_pos (.inr rfl), Option.bind_some, hadd, hchecks, if_pos (.inr rfl), Option.bind_some,
        if_neg (by decide), hnext]
      have hwrap : UInt64.ofNat (u.toNat * size) = UInt64.ofNat (u.toNat * size % 2 ^ 64) :=
        UInt64.ofNat_mod_size.symm
      rw [hwrap]
      -- the offset is a multiple of the size, so it ends at 2 ^ 64 or below
      by_cases hzero : (u.toNat * size + size) % 2 ^ 64 = 0
      · have hlast : u.toNat * size % 2 ^ 64 = 2 ^ 64 - size := by
          rcases hsize with rfl | rfl | rfl | rfl <;> omega
        have hover : UInt64.ofNat (2 ^ 64 - size + size) = 0 := by
          rcases hsize with rfl | rfl | rfl | rfl <;> decide
        rw [if_pos hzero, Option.bind_none, hlast, hover, hinverted]
      · have hend : u.toNat * size % 2 ^ 64 + size < 2 ^ 64 := by
          rcases hsize with rfl | rfl | rfl | rfl <;> omega
        rw [if_neg hzero, Option.bind_some, hk _ hend]

/-- An offset is the product up to a wrap-around, which only an unchecked build lets happen, and the element
    ends within `usize`. -/
theorem start_spec {size u lo : Nat} (hsize : size = 1 ∨ size = 2 ∨ size = 4 ∨ size = 8) (h : start size u = some lo) :
    lo = u * size % 2 ^ 64 ∧ lo + size < 2 ^ 64 ∧ (lo ≠ u * size → Target.overflowChecks = false) := by
  have hnext : (u + 1) * size = u * size + size := Nat.succ_mul _ _
  unfold start at h
  split at h
  · cases Option.some.inj h
    exact ⟨(Nat.mod_eq_of_lt (by omega)).symm, by omega, fun hne => absurd rfl hne⟩
  · split at h
    · cases h
    · rename_i hchecks
      split at h
      · cases h
      · cases Option.some.inj h
        refine ⟨rfl, ?_, fun _ => Bool.eq_false_iff.2 hchecks⟩
        rcases hsize with rfl | rfl | rfl | rfl <;> omega

theorem start_of_fits {size u : Nat} (h : (u + 1) * size < 2 ^ 64) : start size u = some (u * size) := if_pos h

theorem start_of_unchecked {size u : Nat} (hchecks : Target.overflowChecks = false)
    (h : (u + 1) * size % 2 ^ 64 ≠ 0) : start size u = some (u * size % 2 ^ 64) := by
  have hnext : (u + 1) * size = u * size + size := Nat.succ_mul _ _
  unfold start
  split
  · rw [Nat.mod_eq_of_lt (by omega)]
  · rw [hchecks, if_neg (by decide)]

namespace HalValue

omit [Target] in
theorem slice_window {data : List UInt8} {lo size : Nat} (hlo : lo + size < 2 ^ 64) :
    slice data (UInt64.ofNat lo).toNat (UInt64.ofNat (lo + size)).toNat =
      if lo + size ≤ data.length then some (window data lo size) else none := by
  have h₁ : (UInt64.ofNat lo).toNat = lo := by rw [UInt64.toNat_ofNat']; omega
  have h₂ : (UInt64.ofNat (lo + size)).toNat = lo + size := by rw [UInt64.toNat_ofNat']; omega
  rw [h₁, h₂, slice, window, Nat.add_sub_cancel_left]
  simp only [Nat.le_add_right, true_and]

omit [Target] in
/-- The inverted range is no slice. -/
theorem slice_inverted {data : List UInt8} {size : Nat} (hsize : size = 1 ∨ size = 2 ∨ size = 4 ∨ size = 8) :
    slice data (UInt64.ofNat (2 ^ 64 - size)).toNat (0 : UInt64).toNat = none := by
  rw [slice, if_neg]
  rintro ⟨hle, _⟩
  rw [UInt64.toNat_ofNat'] at hle
  have hzero : (0 : UInt64).toNat = 0 := rfl
  omega

variable (t : HalPinType) (data : List UInt8) (u : UInt64)

/-- **Reading an element**: zero where the range ends behind the data. -/
theorem index_array : (array t data).index u = (start (byteSize t) u.toNat).map fun lo =>
    if lo + byteSize t ≤ data.length then fromBytes t (window data lo (byteSize t)) else zero t := by
  have hsize := byteSize_cases t
  rw [Option.map_eq_bind]
  refine range_eq hsize u (fun lo hlo => ?_) ?_
  · have hstop : (UInt64.ofNat (lo + byteSize t)).toNat = lo + byteSize t := by rw [UInt64.toNat_ofNat']; omega
    by_cases hin : lo + byteSize t ≤ data.length
    · rw [if_neg (by omega), slice_window hlo, if_pos hin]
      show some (fromBytes t (window data lo (byteSize t))) = _
      rw [Function.comp_apply, if_pos hin]
    · rw [if_pos (by omega), Function.comp_apply, if_neg hin]
  · rw [if_neg (show ¬ (0 : UInt64).toNat > data.length from Nat.not_lt_zero _), slice_inverted hsize]
    rfl

/-- **Writing an element**: nothing where the range ends behind the data, else the first bytes of the value,
    which must be there. -/
theorem setIndex_array (v : HalValue) : (array t data).setIndex u v =
    (start (byteSize t) u.toNat).bind fun lo =>
      if lo + byteSize t ≤ data.length then
        if byteSize t ≤ v.toBytes.length then some (array t (overwrite data lo (v.toBytes.take (byteSize t))))
        else none
      else some (array t data) := by
  have hsize := byteSize_cases t
  refine range_eq hsize u (fun lo hlo => ?_) ?_
  · have hstart : (UInt64.ofNat lo).toNat = lo := by rw [UInt64.toNat_ofNat']; omega
    have hstop : (UInt64.ofNat (lo + byteSize t)).toNat = lo + byteSize t := by rw [UInt64.toNat_ofNat']; omega
    have hcut : slice v.toBytes 0 (UInt64.ofNat (byteSize t)).toNat =
        if byteSize t ≤ v.toBytes.length then some (v.toBytes.take (byteSize t)) else none := by
      have hb : (UInt64.ofNat (byteSize t)).toNat = byteSize t := by rw [UInt64.toNat_ofNat']; omega
      rw [hb, slice, List.drop_zero, Nat.sub_zero]
      simp only [Nat.zero_le, true_and]
    by_cases hin : lo + byteSize t ≤ data.length
    · rw [if_neg (by omega), slice_window hlo, if_pos hin, if_pos hin]
      simp only [Option.bind_eq_bind, Option.bind_some, hcut]
      by_cases hbytes : byteSize t ≤ v.toBytes.length
      · have hlen : (v.toBytes.take (byteSize t)).length = byteSize t := List.length_take_of_le hbytes
        rw [if_pos hbytes, if_pos hbytes, Option.bind_some, overwrite, hlen, hstart, hstop]
      · rw [if_neg hbytes, if_neg hbytes, Option.bind_none]
    · rw [if_pos (by omega), if_neg hin]
  · rw [if_neg (show ¬ (0 : UInt64).toNat > data.length from Nat.not_lt_zero _), slice_inverted hsize]
    rfl

/-! ## Reading over writing -/

/-- One of the eleven scalar variants. -/
def isScalar : HalValue → Bool
  | blob _ | string _ | array _ _ => false
  | _ => true

section
variable [LawfulTarget] {v : HalValue}

theorem length_toBytes (h : v.isScalar = true) : v.toBytes.length = byteSize v.pinType := by
  cases v with
  | bool b => rfl
  | s8 n | u8 n | s16 n | u16 n | s32 n | u32 n | s64 n | u64 n => exact length_toLeBytes n
  | f32 x => exact LawfulTarget.f32_length x
  | f64 x => exact LawfulTarget.f64_length x
  | blob _ | string _ | array _ _ => cases h

/-- `from_bytes` undoes `to_bytes`. -/
theorem fromBytes_toBytes (h : v.isScalar = true) : fromBytes v.pinType v.toBytes = v := by
  cases v with
  | bool b => cases b <;> rfl
  | s8 n => exact congrArg s8 (ofLeBytes_toLeBytes n)
  | u8 n => exact congrArg u8 (ofLeBytes_toLeBytes n)
  | s16 n => exact congrArg s16 (ofLeBytes_toLeBytes n)
  | u16 n => exact congrArg u16 (ofLeBytes_toLeBytes n)
  | s32 n => exact congrArg s32 (ofLeBytes_toLeBytes n)
  | u32 n => exact congrArg u32 (ofLeBytes_toLeBytes n)
  | s64 n => exact congrArg s64 (ofLeBytes_toLeBytes n)
  | u64 n => exact congrArg u64 (ofLeBytes_toLeBytes n)
  | f32 x => exact congrArg f32 (LawfulTarget.f32_bytes x)
  | f64 x => exact congrArg f64 (LawfulTarget.f64_bytes x)
  | blob _ | string _ | array _ _ => cases h

/-- What a write of `v` at `i` should do to the reads at `i` and `j`. -/
def ReadOverWrite (t : HalPinType) (data : List UInt8) (i j : UInt64) (v : HalValue) : Prop :=
  ∃ data', (array t data).setIndex i v = some (array t data') ∧ data'.length = data.length ∧
    (array t data').index i = some v ∧ (j ≠ i → (array t data').index j = (array t data).index j)

/-- The offset of `j` wraps around to that of `i`, in a build that lets it. -/
def Aliases (size : Nat) (i j : UInt64) : Prop :=
  j ≠ i ∧ Target.overflowChecks = false ∧ j.toNat * size % 2 ^ 64 = i.toNat * size

omit [LawfulTarget] in
/-- Another index has the offset of `i` exactly when it aliases it. -/
theorem start_eq_iff {size : Nat} {i j : UInt64} (hsize : size = 1 ∨ size = 2 ∨ size = 4 ∨ size = 8) (hne : j ≠ i)
    (hi : i.toNat * size + size < 2 ^ 64) : start size j.toNat = some (i.toNat * size) ↔ Aliases size i j := by
  have hnat : j.toNat * size ≠ i.toNat * size := by
    intro h
    refine hne (UInt64.toNat_inj.1 (Nat.eq_of_mul_eq_mul_right ?_ h))
    omega
  constructor
  · intro h
    obtain ⟨hmod, _, hchecks⟩ := start_spec hsize h
    exact ⟨hne, hchecks hnat.symm, hmod.symm⟩
  · rintro ⟨_, hchecks, hmod⟩
    have hnext : (j.toNat + 1) * size = j.toNat * size + size := Nat.succ_mul _ _
    rw [← hmod]
    exact start_of_unchecked hchecks (by omega)

omit [LawfulTarget] in
/-- An element with another offset is not touched by a write. -/
theorem index_overwrite_other {t : HalPinType} {data bytes : List UInt8} {i j : UInt64}
    (hbytes : bytes.length = byteSize t) (hi : i.toNat * byteSize t + byteSize t ≤ data.length)
    (hj : start (byteSize t) j.toNat ≠ some (i.toNat * byteSize t)) :
    (array t (overwrite data (i.toNat * byteSize t) bytes)).index j = (array t data).index j := by
  have hsize := byteSize_cases t
  have hlen : (overwrite data (i.toNat * byteSize t) bytes).length = data.length := length_overwrite (by omega)
  rw [index_array, index_array, hlen]
  cases hlo : start (byteSize t) j.toNat with
  | none => rfl
  | some lo =>
    have hne : lo ≠ i.toNat * byteSize t := fun h => hj (h ▸ hlo)
    obtain ⟨hmod, _, _⟩ := start_spec hsize hlo
    -- two different multiples of the size are a size apart
    have hdisjoint : lo + byteSize t ≤ i.toNat * byteSize t ∨ i.toNat * byteSize t + byteSize t ≤ lo := by
      rcases hsize with h | h | h | h <;> rw [h] at hne hmod ⊢ <;> omega
    rw [Option.map_some, Option.map_some, window_overwrite_other (by omega) (by omega)]

/-- **Read over write.** The element written is read back, the data keep type and length, and every other
    element is as before, unless a wrapped offset reads the element that was written and this held another
    value. -/
theorem readOverWrite_iff {t : HalPinType} {data : List UInt8} {i j : UInt64} (hlen : data.length < 2 ^ 63)
    (hi : (i.toNat + 1) * byteSize t ≤ data.length) (hv : v.isScalar = true ∧ v.pinType = t) :
    ReadOverWrite t data i j v ↔
      (Aliases (byteSize t) i j → fromBytes t (window data (i.toNat * byteSize t) (byteSize t)) = v) := by
  obtain ⟨hscalar, rfl⟩ := hv
  have hsize := byteSize_cases v.pinType
  have hbytes : v.toBytes.length = byteSize v.pinType := length_toBytes hscalar
  have hnext : (i.toNat + 1) * byteSize v.pinType = i.toNat * byteSize v.pinType + byteSize v.pinType :=
    Nat.succ_mul _ _
  have hin : i.toNat * byteSize v.pinType + byteSize v.pinType ≤ data.length := by omega
  have hstart : start (byteSize v.pinType) i.toNat = some (i.toNat * byteSize v.pinType) := start_of_fits (by omega)
  have hset : (array v.pinType data).setIndex i v =
      some (array v.pinType (overwrite data (i.toNat * byteSize v.pinType) v.toBytes)) := by
    rw [setIndex_array, hstart, Option.bind_some, if_pos hin, if_pos (by omega), List.take_of_length_le (by omega)]
  have hlen' : (overwrite data (i.toNat * byteSize v.pinType) v.toBytes).length = data.length :=
    length_overwrite (hbytes ▸ hin)
  have hself : (array v.pinType (overwrite data (i.toNat * byteSize v.pinType) v.toBytes)).index i = some v := by
    have hwin : window (overwrite data (i.toNat * byteSize v.pinType) v.toBytes) (i.toNat * byteSize v.pinType)
        (byteSize v.pinType) = v.toBytes := by
      rw [← hbytes]
      exact window_overwrite_self (by rw [hbytes]; omega)
    rw [index_array, hstart, Option.map_some, hlen', if_pos hin, hwin, fromBytes_toBytes hscalar]
  -- only the other element is left to compare
  have hread : ReadOverWrite v.pinType data i j v ↔
      (j ≠ i → (array v.pinType (overwrite data (i.toNat * byteSize v.pinType) v.toBytes)).index j =
        (array v.pinType data).index j) := by
    constructor
    · rintro ⟨data', hd, _, _, hother⟩
      rw [hset] at hd
      cases hd
      exact hother
    · exact fun hother => ⟨_, hset, hlen', hself, hother⟩
  rw [hread]
  by_cases hne : j = i
  · exact iff_of_true (fun h => absurd hne h) fun h => absurd hne h.1
  · have halias := start_eq_iff hsize hne (show i.toNat * byteSize v.pinType + byteSize v.pinType < 2 ^ 64 by omega)
    by_cases hj : start (byteSize v.pinType) j.toNat = some (i.toNat * byteSize v.pinType)
    · have hnew : (array v.pinType (overwrite data (i.toNat * byteSize v.pinType) v.toBytes)).index j = some v := by
        rw [← hself, index_array, index_array, hj, hstart]
      have hold : (array v.pinType data).index j =
          some (fromBytes v.pinType (window data (i.toNat * byteSize v.pinType) (byteSize v.pinType))) := by
        rw [index_array, hj, Option.map_some, if_pos hin]
      rw [hnew, hold]
      constructor
      · exact fun h _ => (Option.some.inj (h hne)).symm
      · exact fun h _ => congrArg some (h (halias.1 hj)).symm
    · exact iff_of_true (fun _ => index_overwrite_other hbytes hin hj) fun h => absurd (halias.2 h) hj

end

/-! ## Accesses that never fail -/

/-- The integer in an index register; a value of another type counts as 0. -/
def asIndex (v : HalValue) : Int := (v.asInt.map (·.2)).getD 0

/-- Element `i` lies inside the data. -/
def InBounds (t : HalPinType) (data : List UInt8) (i : Int) : Prop := 0 ≤ i ∧ (i + 1) * byteSize t ≤ data.length

/-- A load of element `u` completes, with the type's zero outside the data: the range is computed without a
    wrap-around, or the wrapped range of an unchecked build happens to read zero. -/
def LoadSafe (t : HalPinType) (data : List UInt8) (u : Nat) : Prop :=
  (u + 1) * byteSize t < 2 ^ 64 ∨
    Target.overflowChecks = false ∧ (u + 1) * byteSize t % 2 ^ 64 ≠ 0 ∧
      (u * byteSize t % 2 ^ 64 + byteSize t ≤ data.length →
        fromBytes t (window data (u * byteSize t % 2 ^ 64) (byteSize t)) = zero t)

/-- A store of `v` to element `u` completes, without a change outside the data: a value stored inside the data
    has the bytes of an element, and a wrapped range already holds what is stored. -/
def StoreSafe (t : HalPinType) (data : List UInt8) (u : Nat) (v : HalValue) : Prop :=
  (u + 1) * byteSize t < 2 ^ 64 ∧ ((u + 1) * byteSize t ≤ data.length → byteSize t ≤ v.toBytes.length) ∨
    2 ^ 64 ≤ (u + 1) * byteSize t ∧ Target.overflowChecks = false ∧ (u + 1) * byteSize t % 2 ^ 64 ≠ 0 ∧
      (u * byteSize t % 2 ^ 64 + byteSize t ≤ data.length →
        byteSize t ≤ v.toBytes.length ∧
          window data (u * byteSize t % 2 ^ 64) (byteSize t) = v.toBytes.take (byteSize t))

/-- Outside `usize` there is an offset only in an unchecked build, away from the last element. -/
theorem start_of_overflow {size u : Nat} (h : ¬ (u + 1) * size < 2 ^ 64) :
    start size u =
      if Target.overflowChecks = false ∧ (u + 1) * size % 2 ^ 64 ≠ 0 then some (u * size % 2 ^ 64) else none := by
  unfold start
  rw [if_neg h]
  cases hchecks : Target.overflowChecks with
  | true => rfl
  | false =>
    rw [if_neg (by decide)]
    by_cases hzero : (u + 1) * size % 2 ^ 64 = 0
    · rw [if_pos hzero, if_neg fun hc => hc.2 hzero]
    · rw [if_neg hzero, if_pos ⟨rfl, hzero⟩]

section
variable {t : HalPinType} {data : List UInt8} {u : UInt64}

theorem loadSafe_iff (hlen : data.length < 2 ^ 63) :
    (∃ r, (array t data).index u = some r ∧ (¬ (u.toNat + 1) * byteSize t ≤ data.length → r = zero t)) ↔
      LoadSafe t data u.toNat := by
  have hnext : (u.toNat + 1) * byteSize t = u.toNat * byteSize t + byteSize t := Nat.succ_mul _ _
  rw [index_array]
  by_cases hfit : (u.toNat + 1) * byteSize t < 2 ^ 64
  · refine iff_of_true ⟨_, by rw [start_of_fits hfit]; rfl, fun hout => ?_⟩ (.inl hfit)
    exact if_neg (by omega)
  · rw [start_of_overflow hfit, LoadSafe, or_iff_right hfit]
    by_cases hwrap : Target.overflowChecks = false ∧ (u.toNat + 1) * byteSize t % 2 ^ 64 ≠ 0
    · rw [if_pos hwrap, Option.map_some]
      have hout : ¬ (u.toNat + 1) * byteSize t ≤ data.length := by omega
      constructor
      · rintro ⟨r, hr, hzero⟩
        refine ⟨hwrap.1, hwrap.2, fun hin => ?_⟩
        rw [if_pos hin] at hr
        rw [Option.some.inj hr]
        exact hzero hout
      · rintro ⟨_, _, hharmless⟩
        refine ⟨_, rfl, fun _ => ?_⟩
        split
        · rename_i hin
          exact hharmless hin
        · rfl
    · rw [if_neg hwrap]
      exact iff_of_false (fun ⟨_, hr, _⟩ => nomatch hr) fun h => hwrap ⟨h.1, h.2.1⟩

theorem storeSafe_iff {v : HalValue} (hlen : data.length < 2 ^ 63) :
    (∃ r, (array t data).setIndex u v = some r ∧
      (¬ (u.toNat + 1) * byteSize t ≤ data.length → r = array t data)) ↔ StoreSafe t data u.toNat v := by
  have hnext : (u.toNat + 1) * byteSize t = u.toNat * byteSize t + byteSize t := Nat.succ_mul _ _
  have hsize := byteSize_cases t
  rw [setIndex_array]
  -- the end of the element as it is, or past the machine word
  by_cases hfit : (u.toNat + 1) * byteSize t < 2 ^ 64
  · rw [start_of_fits hfit, Option.bind_some, StoreSafe, or_iff_left fun h => absurd h.1 (by omega), ← hnext]
    by_cases hin : (u.toNat + 1) * byteSize t ≤ data.length
    · rw [if_pos hin]
      by_cases hbytes : byteSize t ≤ v.toBytes.length
      · rw [if_pos hbytes]
        exact iff_of_true ⟨_, rfl, fun hout => absurd hin hout⟩ ⟨hfit, fun _ => hbytes⟩
      · rw [if_neg hbytes]
        exact iff_of_false (fun ⟨_, hr, _⟩ => nomatch hr) fun h => hbytes (h.2 hin)
    · rw [if_neg hin]
      exact iff_of_true ⟨_, rfl, fun _ => rfl⟩ ⟨hfit, fun h => absurd h hin⟩
  · rw [start_of_overflow hfit, StoreSafe, or_iff_right fun h => hfit h.1]
    -- past it, the access goes on only where the sums wrap around
    by_cases hwrap : Target.overflowChecks = false ∧ (u.toNat + 1) * byteSize t % 2 ^ 64 ≠ 0
    · rw [if_pos hwrap, Option.bind_some]
      have hout : ¬ (u.toNat + 1) * byteSize t ≤ data.length := by omega
      have hover : 2 ^ 64 ≤ (u.toNat + 1) * byteSize t := Nat.le_of_not_lt hfit
      by_cases hin : u.toNat * byteSize t % 2 ^ 64 + byteSize t ≤ data.length
      · rw [if_pos hin]
        by_cases hbytes : byteSize t ≤ v.toBytes.length
        · have hlen' : (v.toBytes.take (byteSize t)).length = byteSize t := List.length_take_of_le hbytes
          rw [if_pos hbytes]
          constructor
          · rintro ⟨r, hr, hkeep⟩
            cases hr
            refine ⟨hover, hwrap.1, hwrap.2, fun _ => ⟨hbytes, ?_⟩⟩
            -- the write must leave the bytes that were there
            have hsame : overwrite data (u.toNat * byteSize t % 2 ^ 64) (v.toBytes.take (byteSize t)) = data := by
              injection hkeep hout
            have hlo : u.toNat * byteSize t % 2 ^ 64 ≤ data.length := by omega
            have hwin := @window_overwrite_self _ data (v.toBytes.take (byteSize t)) _ hlo
            rwa [hsame, hlen'] at hwin
          · rintro ⟨_, _, _, hharmless⟩
            refine ⟨_, rfl, fun _ => ?_⟩
            rw [← (hharmless hin).2, overwrite_window hin]
        · rw [if_neg hbytes]
          exact iff_of_false (fun ⟨_, hr, _⟩ => nomatch hr) fun h => hbytes (h.2.2.2 hin).1
      · rw [if_neg hin]
        exact iff_of_true ⟨_, rfl, fun _ => rfl⟩ ⟨hover, hwrap.1, hwrap.2, fun h => absurd h hin⟩
    · rw [if_neg hwrap]
      exact iff_of_false (fun ⟨_, hr, _⟩ => nomatch hr) fun h => hwrap ⟨h.2.1, h.2.2.1⟩

end

/-! ## The index register -/

theorem asIndex_range (v : HalValue) : -2 ^ 63 ≤ v.asIndex ∧ v.asIndex < 2 ^ 64 := by
  have hrange : ∀ {α : Type} [MachineInt α] [BoundedMachineInt α] (a : α), -2 ^ 63 ≤ MachineInt.minVal α →
      MachineInt.maxVal α < 2 ^ 64 → -2 ^ 63 ≤ MachineInt.toInt a ∧ MachineInt.toInt a < 2 ^ 64 := by
    intro α _ _ a hmin hmax
    have h := BoundedMachineInt.inRange_toInt a
    exact ⟨le_trans hmin h.1, lt_of_le_of_lt h.2 hmax⟩
  cases v with
  | s8 n | u8 n | s16 n | u16 n | s32 n | u32 n | s64 n | u64 n => exact hrange n (by decide) (by decide)
  | _ => exact ⟨show (-2 ^ 63 : Int) ≤ 0 by decide, show (0 : Int) < 2 ^ 64 by decide⟩

/-- `as usize` is the residue modulo `2 ^ 64`. -/
theorem valueAsUsize_toNat (v : HalValue) : ((Exec.valueAsUsize v).toNat : Int) = v.asIndex % 2 ^ 64 := by
  have hof : ∀ r : Int, ((UInt64.ofInt r).toNat : Int) = r % 2 ^ 64 := by
    intro r
    show ((UInt64.ofNat (r % 2 ^ 64).toNat).toNat : Int) = _
    rw [UInt64.toNat_ofNat']
    omega
  have hnat : ∀ n : Nat, ((UInt64.ofNat n).toNat : Int) = (n : Int) % 2 ^ 64 := by
    intro n
    rw [UInt64.toNat_ofNat']
    omega
  cases v with
  | s8 n => exact hof n.toInt
  | s16 n => exact hof n.toInt
  | s32 n => exact hof n.toInt
  | s64 n => exact hof n.toInt
  | u8 n => exact hnat n.toNat
  | u16 n => exact hnat n.toNat
  | u32 n => exact hnat n.toNat
  | u64 n =>
    have hlt := n.toNat_lt
    show (n.toNat : Int) = (n.toNat : Int) % 2 ^ 64
    omega
  | _ => rfl

/-- A negative index becomes one behind all data. -/
theorem inBounds_iff {t : HalPinType} {data : List UInt8} (hlen : data.length < 2 ^ 63) (v : HalValue) :
    InBounds t data v.asIndex ↔ ((Exec.valueAsUsize v).toNat + 1) * byteSize t ≤ data.length := by
  have hrange := asIndex_range v
  have husize := valueAsUsize_toNat v
  unfold InBounds
  rcases byteSize_cases t with h | h | h | h <;> rw [h] <;> omega

end HalValue

/-! ## The instructions -/

/-- `LoadIndex` completes, with the element type's zero for an index outside the array. -/
def LoadKept (vm : Vm) (dest arr idx : UInt8) (x i : HalValue) : Prop :=
  ∃ vm', Exec.execPlain vm (.loadIndex dest arr idx) = some vm' ∧
    ∀ t data, x = .array t data → ¬ HalValue.InBounds t data i.asIndex →
      vm'.readRegister dest = some (.zero t)

/-- `StoreIndex` completes, and leaves the array as it was for an index outside. -/
def StoreKept (vm : Vm) (arr idx value : UInt8) (x i : HalValue) : Prop :=
  ∃ vm', Exec.execPlain vm (.storeIndex arr idx value) = some vm' ∧
    ∀ t data, x = .array t data → ¬ HalValue.InBounds t data i.asIndex → vm'.readRegister arr = some x

/-- An instruction that ends by writing `o` completes when `o` does, and the register then holds it. -/
theorem written_iff {vm : Vm} {r : UInt8} (hr : r.toNat < registerCount) {o : Option HalValue} {C : Prop}
    {w : HalValue} : (∃ vm', o.bind (vm.writeRegister r) = some vm' ∧ (C → vm'.readRegister r = some w)) ↔
      ∃ v, o = some v ∧ (C → v = w) := by
  constructor
  · rintro ⟨vm', hvm', hread'⟩
    obtain ⟨v, rfl, hw⟩ := Option.bind_eq_some_iff.1 hvm'
    obtain ⟨vm₁, hw₁, hread⟩ := Vm.writeRegister_lt vm hr v
    rw [hw₁] at hw
    cases hw
    exact ⟨v, rfl, fun hC => Option.some.inj (hread.symm.trans (hread' hC))⟩
  · rintro ⟨v, rfl, hv⟩
    obtain ⟨vm₁, hw₁, hread⟩ := Vm.writeRegister_lt vm hr v
    exact ⟨vm₁, hw₁, fun hC => by rw [hread, hv hC]⟩

theorem forall_array {t : HalPinType} {data : List UInt8} {P : HalPinType → List UInt8 → Prop} :
    (∀ t' data', HalValue.array t data = .array t' data' → P t' data') ↔ P t data := by
  constructor
  · exact fun h => h t data rfl
  · rintro h t' data' heq
    cases heq
    exact h

/-- A value that is no array is read as a zero and written as it was. -/
theorem index_of_not_array {x : HalValue} (h : ∀ t data, x ≠ .array t data) (u : UInt64) (v : HalValue) :
    x.index u = some (.zero x.pinType) ∧ x.setIndex u v = some x := by
  cases x with
  | array t data => exact absurd rfl (h t data)
  | _ => exact ⟨rfl, rfl⟩

/-- **Array access.** For any contents of the registers, a load or a store keeps its promise exactly when it
    is safe for the array; other values are never indexed. -/
theorem arrayAccess_iff {vm : Vm} {dest arr idx value : UInt8} {x i v : HalValue}
    (harr : vm.readRegister arr = some x) (hidx : vm.readRegister idx = some i)
    (hval : vm.readRegister value = some v) (hdest : dest.toNat < registerCount)
    (hlen : ∀ t data, x = .array t data → data.length < 2 ^ 63) :
    (LoadKept vm dest arr idx x i ↔
        ∀ t data, x = .array t data → HalValue.LoadSafe t data (Exec.valueAsUsize i).toNat) ∧
      (StoreKept vm arr idx value x i ↔
        ∀ t data, x = .array t data → HalValue.StoreSafe t data (Exec.valueAsUsize i).toNat v) := by
  have hreg : arr.toNat < registerCount := by
    unfold Vm.readRegister at harr
    split at harr
    · assumption
    · cases harr
  have hload : Exec.execPlain vm (.loadIndex dest arr idx) =
      (x.index (Exec.valueAsUsize i)).bind (vm.writeRegister dest) := by
    simp only [Instruction.loadIndex, Exec.execPlain, Exec.execLoadIndex, harr, hidx, Option.bind_eq_bind,
      Option.bind_some]
  have hstore : Exec.execPlain vm (.storeIndex arr idx value) =
      (x.setIndex (Exec.valueAsUsize i) v).bind (vm.writeRegister arr) := by
    simp only [Instruction.storeIndex, Exec.execPlain, Exec.execStoreIndex, harr, hidx, hval, Option.bind_eq_bind,
      Option.bind_some]
  unfold LoadKept StoreKept
  rw [hload, hstore]
  by_cases hx : ∃ t data, x = .array t data
  · obtain ⟨t, data, rfl⟩ := hx
    have hlen' := hlen t data rfl
    simp only [forall_array, written_iff hdest, written_iff hreg, HalValue.inBounds_iff hlen']
    exact ⟨HalValue.loadSafe_iff hlen', HalValue.storeSafe_iff hlen'⟩
  · have hno : ∀ t data, x ≠ .array t data := fun t data h => hx ⟨t, data, h⟩
    obtain ⟨hread, hwrite⟩ := index_of_not_array hno (Exec.valueAsUsize i) v
    obtain ⟨vm₁, hw₁, _⟩ := Vm.writeRegister_lt vm hdest (.zero x.pinType)
    obtain ⟨vm₂, hw₂, _⟩ := Vm.writeRegister_lt vm hreg x
    rw [hread, hwrite]
    exact ⟨iff_of_true ⟨vm₁, hw₁, fun t data h => absurd h (hno t data)⟩ fun t data h => absurd h (hno t data),
      iff_of_true ⟨vm₂, hw₂, fun t data h => absurd h (hno t data)⟩ fun t data h => absurd h (hno t data)⟩

end Audesys.Hal

namespace Audesys.Hal

local instance releaseArray : Target := host false

/-- A machine with `x` in `r0`, `i` in `r1` and `v` in `r2`. -/
def arrayVm (x i v : HalValue) : Vm :=
  { Vm.new with registers := fun r => if r.val = 0 then x else if r.val = 1 then i else if r.val = 2 then v else .s32 0 }

/-- Two `DINT` elements, 1 and 2. -/
def twoElements : HalValue := .array .s32 [1, 0, 0, 0, 2, 0, 0, 0]

theorem arrayAccess_iff_beyond :
    LoadKept (arrayVm twoElements (.s16 2) (.s32 7)) 3 0 1 twoElements (.s16 2) ∧
      StoreKept (arrayVm twoElements (.s16 2) (.s32 7)) 0 1 2 twoElements (.s16 2) := by
  have h := @arrayAccess_iff _ (arrayVm twoElements (.s16 2) (.s32 7)) 3 0 1 2 twoElements (.s16 2) (.s32 7)
    rfl rfl rfl (by decide) (by rintro t data h; cases h; decide)
  refine ⟨h.1.2 fun t data ht => ?_, h.2.2 fun t data ht => ?_⟩
  · cases ht
    exact .inl (by decide)
  · cases ht
    exact .inl ⟨by decide, by decide⟩

/-- Index -1 is the last element of the address space, whose range ends before it starts; and a `UINT` is two
    bytes short of a `DINT` element. -/
theorem arrayAccess_panics :
    ¬ LoadKept (arrayVm twoElements (.s16 (-1)) (.s32 7)) 3 0 1 twoElements (.s16 (-1)) ∧
      ¬ StoreKept (arrayVm twoElements (.s16 0) (.u16 7)) 0 1 2 twoElements (.s16 0) := by
  constructor
  · rintro ⟨vm', h, _⟩
    have hnone : Exec.execPlain (arrayVm twoElements (.s16 (-1)) (.s32 7)) (.loadIndex 3 0 1) = none := rfl
    rw [hnone] at h
    cases h
  · rintro ⟨vm', h, _⟩
    have hnone : Exec.execPlain (arrayVm twoElements (.s16 0) (.u16 7)) (.storeIndex 0 1 2) = none := rfl
    rw [hnone] at h
    cases h

theorem readOverWrite_iff_next : HalValue.ReadOverWrite .s32 [1, 0, 0, 0, 2, 0, 0, 0] 1 0 (.s32 7) := by
  have hlawful : LawfulTarget := lawful_host false
  have h := @HalValue.readOverWrite_iff _ hlawful (.s32 7) .s32 [1, 0, 0, 0, 2, 0, 0, 0] 1 0 (by decide) (by decide)
    ⟨rfl, rfl⟩
  refine h.2 ?_
  rintro ⟨_, _, h⟩
  exact absurd h (by decide)

/-- In a release build element `2 ^ 62` of a `DINT` array is element 0. -/
theorem readOverWrite_aliased :
    ¬ HalValue.ReadOverWrite .s32 [1, 0, 0, 0, 2, 0, 0, 0] 0 4611686018427387904 (.s32 7) := by
  rintro ⟨data', hset, _, _, hother⟩
  have hdata : (twoElements.setIndex 0 (.s32 7)) = some (.array .s32 [7, 0, 0, 0, 2, 0, 0, 0]) := by decide
  rw [show HalValue.array .s32 [1, 0, 0, 0, 2, 0, 0, 0] = twoElements from rfl, hdata] at hset
  cases hset
  exact absurd (hother (by decide)) (by decide)

end Audesys.Hal
