import Audesys.Lib.Bits
import Audesys.Runtime.VirtualModbus
import Mathlib.Data.List.Basic

/-!
# `Runtime.ModbusReads` — the reads of the virtual Modbus device

The four read handlers run one loop (`readLoop`): in round `i` they form `start + i` in 16 bits and read there. The sum
overflows exactly where the range goes past the last address and nothing in front of its end is refused
(`sums_lt_iff`): such a request panics or reads on from address zero, where it should be answered with an exception
(`reads_stay_iff`). What is answered is well formed, and a range inside the address space carries the values of its
signals (`answers_iff`).
-/

namespace Audesys.Runtime.VirtualModbus

open Audesys.Hal Audesys.Lib

variable [Target]

/-! ## The loop of the read handlers -/

section Loop

variable {α : Type} (refused : UInt16 → Bool) (value : UInt16 → α) (put : Nat → α → List UInt8 → List UInt8)
  (start : UInt16)

/-- The rounds from `i` on, with `n` of them to go: what is read at `start + i` goes into the result. -/
def readLoop : Nat → Nat → List UInt8 → Option (Except UInt8 (List UInt8))
  | 0, _, result => some (.ok result)
  | n + 1, i, result =>
    (MachineInt.add start (UInt16.ofNat i)).bind fun addr =>
      if refused addr then some (.error illegalDataAddress) else readLoop n (i + 1) (put i (value addr) result)

/-- The sums that the loop forms, in order. -/
def sums : Nat → Nat → List Nat
  | 0, _ => []
  | n + 1, i =>
    (start.toNat + i) ::
      match MachineInt.add start (UInt16.ofNat i) with
      | none => []
      | some addr => if refused addr then [] else sums n (i + 1)

/-- The addresses that the loop reads, in order. -/
def reads : Nat → Nat → List UInt16
  | 0, _ => []
  | n + 1, i =>
    match MachineInt.add start (UInt16.ofNat i) with
    | none => []
    | some addr => addr :: if refused addr then [] else reads n (i + 1)

/-- The result with the values of the rounds `i` to `i + n - 1`. -/
def putAll : Nat → Nat → List UInt8 → List UInt8
  | 0, _, result => result
  | n + 1, i, result => putAll n (i + 1) (put i (value (UInt16.ofNat (start.toNat + i))) result)

variable {start}

theorem add_ofNat {i : Nat} (h : start.toNat + i < 2 ^ 16) :
    MachineInt.add start (UInt16.ofNat i) = some (UInt16.ofNat (start.toNat + i)) := by
  have hi : (UInt16.ofNat i).toNat = i := UInt16.toNat_ofNat_of_lt' (by show i < 2 ^ 16; omega)
  have hsum : MachineInt.toInt start + MachineInt.toInt (UInt16.ofNat i) = ((start.toNat + i : Nat) : Int) := by
    show (start.toNat : Int) + ((UInt16.ofNat i).toNat : Int) = _
    rw [hi, Int.natCast_add]
  have hrange : MachineInt.InRange UInt16 ((start.toNat + i : Nat) : Int) := by
    constructor
    · exact Int.natCast_nonneg _
    · show ((start.toNat + i : Nat) : Int) ≤ 2 ^ 16 - 1
      omega
  have hmod : (((start.toNat + i : Nat) : Int) % 2 ^ 16).toNat = start.toNat + i := by omega
  unfold MachineInt.add
  rw [hsum, MachineInt.checked_of_inRange hrange]
  show some (UInt16.ofNat (((start.toNat + i : Nat) : Int) % 2 ^ 16).toNat) = _
  rw [hmod]

theorem add_overflow {i : Nat} (h : 2 ^ 16 ≤ start.toNat + i) (hi : i < 2 ^ 16)
    (hchecks : Target.overflowChecks = true) : MachineInt.add start (UInt16.ofNat i) = none := by
  have hi' : (UInt16.ofNat i).toNat = i := UInt16.toNat_ofNat_of_lt' hi
  have hrange : ¬ MachineInt.InRange UInt16 (MachineInt.toInt start + MachineInt.toInt (UInt16.ofNat i)) := by
    rintro ⟨_, hle⟩
    have hmax : (start.toNat : Int) + ((UInt16.ofNat i).toNat : Int) ≤ 2 ^ 16 - 1 := hle
    rw [hi'] at hmax
    omega
  unfold MachineInt.add MachineInt.checked
  rw [if_neg hrange, if_pos hchecks]

theorem add_isSome {i : Nat} (hchecks : Target.overflowChecks = false) :
    ∃ addr, MachineInt.add start (UInt16.ofNat i) = some addr := by
  unfold MachineInt.add MachineInt.checked
  rw [hchecks]
  split
  · exact ⟨_, rfl⟩
  · exact ⟨_, rfl⟩

/-- **The sums fit** exactly if the range ends within the address space, or something in it is refused. -/
theorem sums_lt_iff {n i : Nat} (hi : start.toNat + i ≤ 2 ^ 16) :
    (∀ a ∈ sums refused start n i, a < 2 ^ 16) ↔
      start.toNat + (i + n) ≤ 2 ^ 16 ∨ ∃ addr : UInt16, start.toNat + i ≤ addr.toNat ∧ refused addr = true := by
  induction n generalizing i with
  | zero => exact iff_of_true (fun a ha => absurd ha List.not_mem_nil) (.inl hi)
  | succ n ih =>
    unfold sums
    by_cases hfit : start.toNat + i < 2 ^ 16
    · have haddr : (UInt16.ofNat (start.toNat + i)).toNat = start.toNat + i := UInt16.toNat_ofNat_of_lt' hfit
      rw [add_ofNat hfit]
      dsimp only
      rw [List.forall_mem_cons]
      by_cases href : refused (UInt16.ofNat (start.toNat + i)) = true
      · rw [if_pos href]
        exact iff_of_true ⟨hfit, fun a ha => absurd ha List.not_mem_nil⟩ (.inr ⟨_, haddr.ge, href⟩)
      · rw [if_neg href, ih hfit, and_iff_right hfit]
        -- the address of this round is not refused
        have hnext : ∀ addr : UInt16, start.toNat + i ≤ addr.toNat → refused addr = true →
            start.toNat + (i + 1) ≤ addr.toNat := by
          intro addr hle hrefused
          refine Nat.lt_of_le_of_ne hle fun heq => href ?_
          have haddr' : UInt16.ofNat (start.toNat + i) = addr := (congrArg UInt16.ofNat heq).trans UInt16.ofNat_toNat
          rw [haddr']
          exact hrefused
        constructor
        · rintro (hend | ⟨addr, hle, hrefused⟩)
          · exact .inl (by omega)
          · exact .inr ⟨addr, by omega, hrefused⟩
        · rintro (hend | ⟨addr, hle, hrefused⟩)
          · exact .inl (by omega)
          · exact .inr ⟨addr, hnext addr hle hrefused, hrefused⟩
    · refine iff_of_false (fun h => hfit (h _ List.mem_cons_self)) ?_
      rintro (hend | ⟨addr, hle, _⟩)
      · omega
      · have := addr.toNat_lt
        omega

/-- **Nothing else is read**: the loop depends on the addresses that it reads only. -/
theorem readLoop_congr {refused' : UInt16 → Bool} {value' : UInt16 → α} {n i : Nat}
    (h : ∀ addr ∈ reads refused start n i, refused addr = refused' addr ∧ value addr = value' addr)
    (result : List UInt8) :
    readLoop refused value put start n i result = readLoop refused' value' put start n i result := by
  induction n generalizing i result with
  | zero => rfl
  | succ n ih =>
    unfold reads at h
    unfold readLoop
    cases hadd : MachineInt.add start (UInt16.ofNat i) with
    | none => rfl
    | some addr =>
      rw [hadd] at h
      dsimp only at h
      obtain ⟨hrefused, hvalue⟩ := h addr List.mem_cons_self
      rw [Option.bind_some, Option.bind_some, ← hrefused, ← hvalue]
      by_cases href : refused addr = true
      · rw [if_pos href, if_pos href]
      · rw [if_neg href, if_neg href]
        rw [if_neg href] at h
        exact ih (fun a ha => h a (List.mem_cons_of_mem _ ha)) _

/-- As long as the sums fit, the loop goes up from the start. -/
theorem le_of_mem_reads {n i : Nat} (h : ∀ a ∈ sums refused start n i, a < 2 ^ 16) {addr : UInt16}
    (haddr : addr ∈ reads refused start n i) : start ≤ addr := by
  induction n generalizing i with
  | zero => cases haddr
  | succ n ih =>
    unfold sums at h
    unfold reads at haddr
    obtain ⟨hfit, hrest⟩ := List.forall_mem_cons.1 h
    rw [add_ofNat hfit] at hrest haddr
    dsimp only at hrest haddr
    rcases List.mem_cons.1 haddr with rfl | htail
    · show start.toNat ≤ (UInt16.ofNat (start.toNat + i)).toNat
      rw [UInt16.toNat_ofNat_of_lt' hfit]
      exact Nat.le_add_right ..
    · split at htail
      · cases htail
      · rename_i hgo
        rw [if_neg hgo] at hrest
        exact ih hrest htail

/-- As long as the sums fit the loop ends, and past the last address it ends with an exception. -/
theorem readLoop_ends {n i : Nat} (h : ∀ a ∈ sums refused start n i, a < 2 ^ 16) (result : List UInt8) :
    readLoop refused value put start n i result = some (.error illegalDataAddress) ∨
      (start.toNat + i ≤ 2 ^ 16 → start.toNat + (i + n) ≤ 2 ^ 16) ∧
        ∃ bytes, readLoop refused value put start n i result = some (.ok bytes) := by
  induction n generalizing i result with
  | zero => exact .inr ⟨id, result, rfl⟩
  | succ n ih =>
    unfold sums at h
    obtain ⟨hfit, hrest⟩ := List.forall_mem_cons.1 h
    rw [add_ofNat hfit] at hrest
    unfold readLoop
    rw [add_ofNat hfit, Option.bind_some]
    by_cases href : refused (UInt16.ofNat (start.toNat + i)) = true
    · rw [if_pos href]
      exact .inl rfl
    · dsimp only at hrest
      rw [if_neg href] at hrest ⊢
      rcases ih hrest (put i (value (UInt16.ofNat (start.toNat + i))) result) with herror | ⟨hend, hok⟩
      · exact .inl herror
      · refine .inr ⟨fun _ => ?_, hok⟩
        have := hend hfit
        omega

/-- Without checks the loop ends. -/
theorem readLoop_of_unchecked (hchecks : Target.overflowChecks = false) (n i : Nat) (result : List UInt8) :
    ∃ r, readLoop refused value put start n i result = some r := by
  induction n generalizing i result with
  | zero => exact ⟨_, rfl⟩
  | succ n ih =>
    obtain ⟨addr, haddr⟩ := @add_isSome _ start i hchecks
    unfold readLoop
    rw [haddr, Option.bind_some]
    split
    · exact ⟨_, rfl⟩
    · exact ih ..

/-- With checks it panics at a sum that does not fit. -/
theorem readLoop_panics (hchecks : Target.overflowChecks = true) {n i : Nat} (hi : i + n ≤ 2 ^ 16)
    (h : ¬ ∀ a ∈ sums refused start n i, a < 2 ^ 16) (result : List UInt8) :
    readLoop refused value put start n i result = none := by
  induction n generalizing i result with
  | zero => exact absurd (fun a ha => absurd ha List.not_mem_nil) h
  | succ n ih =>
    unfold readLoop
    by_cases hfit : start.toNat + i < 2 ^ 16
    · unfold sums at h
      rw [add_ofNat hfit] at h ⊢
      dsimp only at h
      rw [List.forall_mem_cons, and_iff_right hfit] at h
      rw [Option.bind_some]
      by_cases href : refused (UInt16.ofNat (start.toNat + i)) = true
      · rw [if_pos href] at h
        exact absurd (fun a ha => absurd ha List.not_mem_nil) h
      · rw [if_neg href] at h ⊢
        exact ih (by omega) h _
    · rw [add_overflow (Nat.le_of_not_lt hfit) (by omega) hchecks]
      rfl

/-- **A range inside the address space** in which nothing is refused. -/
theorem readLoop_ok {n i : Nat} (hend : start.toNat + (i + n) ≤ 2 ^ 16)
    (h : ∀ j, i ≤ j → j < i + n → refused (UInt16.ofNat (start.toNat + j)) = false) (result : List UInt8) :
    readLoop refused value put start n i result = some (.ok (putAll value put start n i result)) := by
  induction n generalizing i result with
  | zero => rfl
  | succ n ih =>
    have hnot : ¬ refused (UInt16.ofNat (start.toNat + i)) = true := by
      rw [h i (Nat.le_refl i) (by omega)]
      decide
    unfold readLoop putAll
    rw [add_ofNat (by omega), Option.bind_some, if_neg hnot]
    exact ih (by omega) (fun j hle hlt => h j (by omega) (by omega)) _

/-- The rounds leave the length as it is. -/
theorem length_readLoop (hput : ∀ i a result, (put i a result).length = result.length) {n i : Nat}
    {result bytes : List UInt8} (h : readLoop refused value put start n i result = some (.ok bytes)) :
    bytes.length = result.length := by
  induction n generalizing i result with
  | zero =>
    cases h
    rfl
  | succ n ih =>
    unfold readLoop at h
    obtain ⟨addr, -, hround⟩ := Option.bind_eq_some_iff.1 h
    split at hround
    · cases hround
    · rw [ih hround, hput]

end Loop

/-! ## What the rounds leave -/

/-- The round of a coil read. -/
def putBit (i : Nat) (bit : Bool) (result : List UInt8) : List UInt8 := if bit then setBit result i else result

/-- The round of a register read. -/
def putWord (i : Nat) (word : UInt16) (result : List UInt8) : List UInt8 := setWord result i word

section Rounds

omit [Target]

theorem length_putBit (i : Nat) (bit : Bool) (result : List UInt8) : (putBit i bit result).length = result.length := by
  unfold putBit setBit
  split
  · exact List.length_modify ..
  · rfl

theorem length_putWord (i : Nat) (word : UInt16) (result : List UInt8) :
    (putWord i word result).length = result.length := by
  unfold putWord setWord
  rw [List.length_set, List.length_set]

theorem length_putAll {α : Type} {value : UInt16 → α} {put : Nat → α → List UInt8 → List UInt8} {start : UInt16}
    (hput : ∀ i a result, (put i a result).length = result.length) (n i : Nat) (result : List UInt8) :
    (putAll value put start n i result).length = result.length := by
  induction n generalizing i result with
  | zero => rfl
  | succ n ih =>
    unfold putAll
    rw [ih, hput]

theorem bitAt_putBit {result : List UInt8} {i : Nat} (h : i / 8 < result.length) (bit : Bool) (j : Nat) :
    bitAt (putBit i bit result) j = (decide (i = j) && bit || bitAt result j) := by
  unfold putBit setBit
  cases bit with
  | true => rw [if_pos rfl, bitAt_modify h, Bool.and_true]
  | false => rw [if_neg Bool.false_ne_true, Bool.and_false, Bool.false_or]

/-- A round sets its bit, the rounds behind it theirs. -/
theorem bitAt_putAll {value : UInt16 → Bool} {start : UInt16} {n i : Nat} {result : List UInt8}
    (h : ∀ j, j < i + n → j / 8 < result.length) (j : Nat) :
    bitAt (putAll value putBit start n i result) j =
      (decide (i ≤ j ∧ j < i + n) && value (UInt16.ofNat (start.toNat + j)) || bitAt result j) := by
  induction n generalizing i result with
  | zero =>
    have hnone : ¬ (i ≤ j ∧ j < i + 0) := by omega
    rw [decide_eq_false hnone, Bool.false_and, Bool.false_or]
    rfl
  | succ n ih =>
    unfold putAll
    rw [ih (fun k hk => by rw [length_putBit]; exact h k (by omega)), bitAt_putBit (h i (by omega))]
    by_cases hij : i = j
    · subst hij
      have hout : ¬ (i + 1 ≤ i ∧ i < i + 1 + n) := by omega
      have hin : i ≤ i ∧ i < i + (n + 1) := by omega
      rw [decide_eq_false hout, decide_eq_true hin, decide_eq_true rfl, Bool.false_and, Bool.false_or]
    · have hsame : (i + 1 ≤ j ∧ j < i + 1 + n) ↔ (i ≤ j ∧ j < i + (n + 1)) := by omega
      rw [decide_eq_false hij, Bool.false_and, Bool.false_or, decide_eq_decide.2 hsame]

/-- A word from its two bytes. -/
theorem word_of_bytes (w : UInt16) :
    UInt16.ofNat ((w >>> 8).toUInt8.toNat * 256 + (w &&& 0xFF).toUInt8.toNat) = w := by
  have hw := w.toNat_lt
  have hhi : (w >>> 8).toUInt8.toNat = w.toNat / 256 := by
    rw [UInt16.toNat_toUInt8, UInt16.toNat_shiftRight]
    show w.toNat >>> 8 % 2 ^ 8 = w.toNat / 256
    rw [Nat.shiftRight_eq_div_pow]
    omega
  have hlo : (w &&& 0xFF).toUInt8.toNat = w.toNat % 256 := by
    rw [UInt16.toNat_toUInt8, UInt16.toNat_and]
    show (w.toNat &&& (2 ^ 8 - 1)) % 2 ^ 8 = w.toNat % 256
    rw [Nat.and_two_pow_sub_one_eq_mod, Nat.mod_mod]
  have hword : (w >>> 8).toUInt8.toNat * 256 + (w &&& 0xFF).toUInt8.toNat = w.toNat := by
    rw [hhi, hlo]
    omega
  rw [hword, UInt16.ofNat_toNat]

theorem beWord_putWord {result : List UInt8} {i : Nat} (h : i * 2 + 1 < result.length) (word : UInt16) (j : Nat) :
    beWord (putWord i word result) (j * 2) = if i = j then word else beWord result (j * 2) := by
  unfold putWord setWord beWord
  have hlen : i * 2 < result.length := Nat.lt_of_succ_lt h
  simp only [List.getD_eq_getElem?_getD, List.getElem?_set, List.length_set]
  by_cases hij : i = j
  · subst hij
    have hlo : ¬ i * 2 + 1 = i * 2 := by omega
    rw [if_neg hlo, if_pos rfl, if_pos rfl, if_pos rfl, if_pos hlen, if_pos h]
    exact word_of_bytes word
  · have hlo : ¬ i * 2 + 1 = j * 2 := by omega
    have hlo' : ¬ i * 2 + 1 = j * 2 + 1 := by omega
    have hhi : ¬ i * 2 = j * 2 := by omega
    have hhi' : ¬ i * 2 = j * 2 + 1 := by omega
    rw [if_neg hlo, if_neg hhi, if_neg hlo', if_neg hhi', if_neg hij]

/-- A round writes its word, the rounds behind it theirs. -/
theorem beWord_putAll {value : UInt16 → UInt16} {start : UInt16} {n i : Nat} {result : List UInt8}
    (h : ∀ j, j < i + n → j * 2 + 1 < result.length) {j : Nat} (hj : j < i + n) :
    beWord (putAll value putWord start n i result) (j * 2) =
      if i ≤ j then value (UInt16.ofNat (start.toNat + j)) else beWord result (j * 2) := by
  induction n generalizing i result with
  | zero => exact (if_neg (Nat.not_le_of_lt hj)).symm
  | succ n ih =>
    unfold putAll
    rw [ih (fun k hk => by rw [length_putWord]; exact h k (by omega)) (by omega), beWord_putWord (h i (by omega))]
    by_cases hij : i = j
    · subst hij
      rw [if_neg (by omega), if_pos rfl, if_pos (Nat.le_refl i)]
    · have hsame : i + 1 ≤ j ↔ i ≤ j := by omega
      rw [if_neg hij, if_congr hsame rfl rfl]

end Rounds

/-! ## The read requests -/

/-- The function codes 1 to 4. -/
inductive ReadKind where
  | coils
  | discreteInputs
  | holdingRegisters
  | inputRegisters
  deriving DecidableEq

namespace ReadKind

def code : ReadKind → UInt8
  | coils => 0x01
  | discreteInputs => 0x02
  | holdingRegisters => 0x03
  | inputRegisters => 0x04

/-- The largest count that the handler admits. -/
def maxCount : ReadKind → UInt16
  | coils | discreteInputs => 2000
  | holdingRegisters | inputRegisters => 125

def map (maps : SignalMaps) : ReadKind → UInt16 → Option String
  | coils => maps.coils
  | discreteInputs => maps.discreteInputs
  | holdingRegisters => maps.holdingRegs
  | inputRegisters => maps.inputRegs

/-- Coils and discrete inputs are bits. -/
def IsBits : ReadKind → Prop
  | coils | discreteInputs => True
  | holdingRegisters | inputRegisters => False

/-- The data of a request that its handler admits. -/
structure Admits (kind : ReadKind) (data : List UInt8) : Prop where
  long : 4 ≤ data.length
  some : beWord data 2 ≠ 0
  few : beWord data 2 ≤ kind.maxCount

end ReadKind

namespace ThreadDevice

/-- The signal at `addr` cannot be read. -/
def unreadable (d : ThreadDevice) (map : UInt16 → Option String) (addr : UInt16) : Bool :=
  match map addr with
  | none => true
  | some name =>
    match d.transport.readSignal name with
    | .error _ => true
    | .ok _ => false

/-- Where a read of the kind ends with an exception: nowhere for discrete inputs, which are off then. -/
def refused (d : ThreadDevice) : ReadKind → UInt16 → Bool
  | .discreteInputs, _ => false
  | kind, addr => d.unreadable (kind.map d.maps) addr

/-- What the signal at `addr` holds, and `fallback` where it holds nothing. -/
def reading (d : ThreadDevice) (map : UInt16 → Option String) (fallback : HalValue) (addr : UInt16) : HalValue :=
  match (map addr).map d.transport.readSignal with
  | some (.ok (some (value, _))) => value
  | _ => fallback

/-- The bit at `addr`. -/
def bit (d : ThreadDevice) : ReadKind → UInt16 → Bool
  | .discreteInputs, addr => d.reading d.maps.discreteInputs (.bool false) addr == .bool true
  | kind, addr => coilOf (d.reading (kind.map d.maps) (.bool false) addr)

/-- The word at `addr`. -/
def word [FloatCast] (d : ThreadDevice) (kind : ReadKind) (addr : UInt16) : UInt16 :=
  registerOf (d.reading (kind.map d.maps) (.u16 0) addr)

/-- The loop of the handler for the kind. -/
def collect [FloatCast] (d : ThreadDevice) (kind : ReadKind) (start : UInt16) (count : Nat) :
    Option (Except UInt8 (List UInt8)) :=
  match kind with
  | .coils | .discreteInputs =>
    readLoop (d.refused kind) (d.bit kind) putBit start count 0 (List.replicate ((count + 7) / 8) 0)
  | .holdingRegisters | .inputRegisters =>
    readLoop (d.refused kind) (d.word kind) putWord start count 0 (List.replicate (count * 2) 0)

variable {d : ThreadDevice}

/-- An address has no signal, or one that cannot be read, or one with an answer. -/
theorem unreadable_cases (d : ThreadDevice) (map : UInt16 → Option String) (addr : UInt16) :
    (map addr = none ∧ d.unreadable map addr = true) ∨
      (∃ name e, map addr = some name ∧ d.transport.readSignal name = .error e ∧ d.unreadable map addr = true) ∨
        ∃ name r, map addr = some name ∧ d.transport.readSignal name = .ok r ∧ d.unreadable map addr = false := by
  unfold unreadable
  cases map addr with
  | none => exact .inl ⟨rfl, rfl⟩
  | some name =>
    dsimp only
    cases hread : d.transport.readSignal name with
    | error e => exact .inr (.inl ⟨name, e, rfl, hread, rfl⟩)
    | ok r => exact .inr (.inr ⟨name, r, rfl, hread, rfl⟩)

theorem readCoilSignal_eq (addr : UInt16) :
    d.readCoilSignal addr =
      if d.refused .coils addr then .error illegalDataAddress else .ok (d.bit .coils addr) := by
  have href : d.refused .coils addr = d.unreadable d.maps.coils addr := rfl
  have hbit : d.bit .coils addr = coilOf (d.reading d.maps.coils (.bool false) addr) := rfl
  rw [href, hbit]
  unfold readCoilSignal reading
  rcases d.unreadable_cases d.maps.coils addr with
    ⟨hname, hun⟩ | ⟨name, e, hname, hread, hun⟩ | ⟨name, r, hname, hread, hun⟩
  · simp only [hname, hun, if_true]
  · simp only [hname, hread, hun, if_true]
  · simp only [hname, hread, hun, Option.map_some]
    cases r <;> rfl

theorem readRegisterSignal_eq [FloatCast] {kind : ReadKind} (h : ¬ kind.IsBits) (addr : UInt16) :
    d.readRegisterSignal (kind.map d.maps) addr =
      if d.refused kind addr then .error illegalDataAddress else .ok (d.word kind addr) := by
  have href : d.refused kind addr = d.unreadable (kind.map d.maps) addr := by
    cases kind with
    | coils | discreteInputs => exact absurd trivial h
    | holdingRegisters | inputRegisters => rfl
  rw [href]
  unfold readRegisterSignal word reading
  rcases d.unreadable_cases (kind.map d.maps) addr with
    ⟨hname, hun⟩ | ⟨name, e, hname, hread, hun⟩ | ⟨name, r, hname, hread, hun⟩
  · simp only [hname, hun, if_true]
  · simp only [hname, hread, hun, if_true]
  · simp only [hname, hread, hun, Option.map_some]
    cases r <;> rfl

theorem coilLoop_eq_readLoop (start : UInt16) (n i : Nat) (result : List UInt8) :
    d.coilLoop start n i result = readLoop (d.refused .coils) (d.bit .coils) putBit start n i result := by
  induction n generalizing i result with
  | zero => rfl
  | succ n ih =>
    unfold coilLoop readLoop
    refine congrArg _ (funext fun addr => ?_)
    rw [readCoilSignal_eq]
    by_cases href : d.refused .coils addr = true
    · rw [if_pos href, if_pos href]
    · rw [if_neg href, if_neg href]
      cases d.bit .coils addr with
      | true => exact ih ..
      | false => exact ih ..

theorem registerLoop_eq_readLoop [FloatCast] {kind : ReadKind} (h : ¬ kind.IsBits) (start : UInt16) (n i : Nat)
    (result : List UInt8) :
    d.registerLoop (kind.map d.maps) start n i result =
      readLoop (d.refused kind) (d.word kind) putWord start n i result := by
  induction n generalizing i result with
  | zero => rfl
  | succ n ih =>
    unfold registerLoop readLoop
    refine congrArg _ (funext fun addr => ?_)
    rw [readRegisterSignal_eq h]
    by_cases href : d.refused kind addr = true
    · rw [if_pos href, if_pos href]
    · rw [if_neg href, if_neg href]
      exact ih ..

/-- A discrete input is on where its signal holds `true`, and off where it cannot be read. -/
theorem discreteLoop_eq_readLoop (start : UInt16) (n i : Nat) (result : List UInt8) :
    (d.discreteLoop start n i result).map Except.ok =
      readLoop (d.refused .discreteInputs) (d.bit .discreteInputs) putBit start n i result := by
  induction n generalizing i result with
  | zero => rfl
  | succ n ih =>
    unfold discreteLoop readLoop
    cases MachineInt.add start (UInt16.ofNat i) with
    | none => rfl
    | some addr =>
      have hgo : ¬ d.refused .discreteInputs addr = true := Bool.false_ne_true
      rw [Option.bind_some, Option.bind_some, if_neg hgo]
      unfold bit reading
      dsimp only
      cases d.maps.discreteInputs addr with
      | none => exact ih ..
      | some name =>
        dsimp only [Option.map_some]
        rcases d.transport.readSignal name with e | (_ | ⟨value, ts⟩)
        · exact ih ..
        · exact ih ..
        · cases value with
          | bool b =>
            cases b with
            | true => exact ih ..
            | false => exact ih ..
          | _ => exact ih ..

/-- **A read request that the handler admits.** -/
theorem handleRequest_read [FloatCast] {kind : ReadKind} {data : List UInt8} (h : kind.Admits data) (mbap : Mbap) :
    d.handleRequest mbap (kind.code :: data) =
      match d.collect kind (beWord data 0) (beWord data 2).toNat with
      | none => ⟨none, []⟩
      | some (.ok result) => .answer (readResponse mbap kind.code result)
      | some (.error exc) => .answer (exceptionResponse mbap kind.code exc) := by
  have hlong : ¬ data.length < 4 := Nat.not_lt_of_le h.long
  have hcount : ¬ (beWord data 2 = 0 ∨ beWord data 2 > kind.maxCount) := by
    rintro (hzero | hmany)
    · exact h.some hzero
    · exact absurd hmany (UInt16.not_lt.2 h.few)
  cases kind with
  | coils =>
    refine (if_neg hlong).trans ((if_neg hcount).trans ?_)
    rw [coilLoop_eq_readLoop]
    rfl
  | discreteInputs =>
    refine (if_neg hlong).trans ((if_neg hcount).trans ?_)
    unfold collect
    dsimp only
    rw [← discreteLoop_eq_readLoop]
    cases d.discreteLoop (beWord data 0) (beWord data 2).toNat 0
      (List.replicate (((beWord data 2).toNat + 7) / 8) 0) <;> rfl
  | holdingRegisters =>
    refine (if_neg hlong).trans ((if_neg hcount).trans ?_)
    have hloop : ∀ result, d.registerLoop d.maps.holdingRegs (beWord data 0) (beWord data 2).toNat 0 result = _ :=
      registerLoop_eq_readLoop (show ¬ ReadKind.holdingRegisters.IsBits from id) _ _ _
    rw [hloop]
    rfl
  | inputRegisters =>
    refine (if_neg hlong).trans ((if_neg hcount).trans ?_)
    have hloop : ∀ result, d.registerLoop d.maps.inputRegs (beWord data 0) (beWord data 2).toNat 0 result = _ :=
      registerLoop_eq_readLoop (show ¬ ReadKind.inputRegisters.IsBits from id) _ _ _
    rw [hloop]
    rfl

/-- **A read request that the handler does not admit.** -/
theorem handleRequest_refusal [FloatCast] {kind : ReadKind} {data : List UInt8} (h : ¬ kind.Admits data)
    (mbap : Mbap) :
    d.handleRequest mbap (kind.code :: data) = .answer (exceptionResponse mbap kind.code illegalDataValue) := by
  have hdata : data.length < 4 ∨ beWord data 2 = 0 ∨ beWord data 2 > kind.maxCount := by
    by_contra hnone
    rw [not_or, not_or] at hnone
    exact h ⟨Nat.le_of_not_lt hnone.1, hnone.2.1, UInt16.not_lt.1 hnone.2.2⟩
  cases kind with
  | coils =>
    show d.handleReadCoils mbap data = _
    unfold handleReadCoils
    rcases hdata with hshort | hcount
    · rw [if_pos hshort]
      rfl
    · exact (if_congr Iff.rfl rfl (if_pos hcount)).trans (ite_self _)
  | discreteInputs =>
    show d.handleReadDiscreteInputs mbap data = _
    unfold handleReadDiscreteInputs
    rcases hdata with hshort | hcount
    · rw [if_pos hshort]
      rfl
    · exact (if_congr Iff.rfl rfl (if_pos hcount)).trans (ite_self _)
  | holdingRegisters | inputRegisters =>
    show d.handleReadRegisters mbap _ data _ = _
    unfold handleReadRegisters
    rcases hdata with hshort | hcount
    · rw [if_pos hshort]
      rfl
    · exact (if_congr Iff.rfl rfl (if_pos hcount)).trans (ite_self _)

end ThreadDevice

/-! ## Staying in the address space -/

/-- The range ends inside the address space, or something from its start on is refused. -/
def ThreadDevice.InSpace (d : ThreadDevice) (kind : ReadKind) (start : UInt16) (count : Nat) : Prop :=
  start.toNat + count ≤ 2 ^ 16 ∨ ∃ addr, start ≤ addr ∧ d.refused kind addr = true

/-- **A read that stays in the address space**: it finishes, no address overflows, no signal below the start is read,
and a range past the last address is refused. -/
structure Stays (d : ThreadDevice) (kind : ReadKind) (mbap : Mbap) (data : List UInt8) (handled : Handled) : Prop where
  finishes : ∃ response, handled.response = some response
  fits : ∀ a ∈ sums (d.refused kind) (beWord data 0) (beWord data 2).toNat 0, a < 2 ^ 16
  above : ∀ addr ∈ reads (d.refused kind) (beWord data 0) (beWord data 2).toNat 0, beWord data 0 ≤ addr
  refuses : 2 ^ 16 < (beWord data 0).toNat + (beWord data 2).toNat →
    ∃ exc, handled.response = some (exceptionResponse mbap kind.code exc)

section Space

variable {d : ThreadDevice} {kind : ReadKind} {data : List UInt8}

theorem fits_iff (start : UInt16) (count : Nat) :
    (∀ a ∈ sums (d.refused kind) start count 0, a < 2 ^ 16) ↔ d.InSpace kind start count := by
  have hstart : start.toNat + 0 ≤ 2 ^ 16 := Nat.le_of_lt start.toNat_lt
  rw [sums_lt_iff (d.refused kind) hstart, Nat.zero_add]
  rfl

/-- What the handler collects as long as no address overflows. -/
theorem collect_ends [FloatCast] {start : UInt16} {count : Nat} (h : d.InSpace kind start count) :
    d.collect kind start count = some (.error illegalDataAddress) ∨
      start.toNat + count ≤ 2 ^ 16 ∧ ∃ bytes, d.collect kind start count = some (.ok bytes) := by
  have hstart : start.toNat + 0 ≤ 2 ^ 16 := Nat.le_of_lt start.toNat_lt
  have hfits := (fits_iff start count).2 h
  have hends : ∀ {α : Type} (value : UInt16 → α) put result,
      readLoop (d.refused kind) value put start count 0 result = some (.error illegalDataAddress) ∨
        start.toNat + count ≤ 2 ^ 16 ∧
          ∃ bytes, readLoop (d.refused kind) value put start count 0 result = some (.ok bytes) := by
    intro α value put result
    refine (readLoop_ends (d.refused kind) value put hfits result).imp_right fun ⟨hend, hok⟩ => ⟨?_, hok⟩
    have := hend hstart
    rwa [Nat.zero_add] at this
  cases kind with
  | coils | discreteInputs => exact hends ..
  | holdingRegisters | inputRegisters => exact hends ..

theorem stays_iff [FloatCast] (h : kind.Admits data) (mbap : Mbap) :
    Stays d kind mbap data (d.handleRequest mbap (kind.code :: data)) ↔
      d.InSpace kind (beWord data 0) (beWord data 2).toNat := by
  refine ⟨fun hstays => (fits_iff _ _).1 hstays.fits, fun hspace => ?_⟩
  have hfits := (fits_iff _ _).2 hspace
  have habove : ∀ addr ∈ reads (d.refused kind) (beWord data 0) (beWord data 2).toNat 0, beWord data 0 ≤ addr :=
    fun addr haddr => le_of_mem_reads _ hfits haddr
  rw [ThreadDevice.handleRequest_read h]
  rcases collect_ends hspace with herror | ⟨hend, bytes, hok⟩
  · rw [herror]
    exact ⟨⟨_, rfl⟩, hfits, habove, fun _ => ⟨_, rfl⟩⟩
  · rw [hok]
    exact ⟨⟨_, rfl⟩, hfits, habove, fun hlt => absurd hend (Nat.not_le_of_lt hlt)⟩

end Space

omit [Target] in
theorem code_ne (kind : ReadKind) : kind.code ≠ 0x10 := by cases kind <;> decide

/-- **Reads stay in the address space exactly where the range does**, or something in it is refused: in the device and
in its thread. -/
theorem reads_stay_iff [FloatCast] (d : VirtualModbusTcpDevice) (thread : ThreadDevice)
    (h : d.threadDevice = some thread) (mbap : Mbap) (kind : ReadKind) (data : List UInt8) (hadm : kind.Admits data) :
    (Stays thread kind mbap data (d.handleRequest mbap (kind.code :: data)) ↔
        thread.InSpace kind (beWord data 0) (beWord data 2).toNat) ∧
      (Stays thread kind mbap data (thread.handleRequest mbap (kind.code :: data)) ↔
        thread.InSpace kind (beWord data 0) (beWord data 2).toNat) := by
  rw [handleRequest_eq h mbap (code_ne kind)]
  exact ⟨stays_iff hadm mbap, stays_iff hadm mbap⟩

/-! ## Well-formed answers -/

/-- **A response in its frame**: the transaction and the unit of the request, and a length that counts what follows
it. -/
structure Framed (mbap : Mbap) (response : List UInt8) : Prop where
  transaction : response.take 2 = mbap.transaction
  unit : response.getD 6 0 = mbap.unit
  length : (beWord response 4).toNat + 6 = response.length

section Frames

omit [Target]

variable (mbap : Mbap)

theorem length_transaction : mbap.transaction.length = 2 := by
  unfold Mbap.transaction
  rw [List.length_take, mbap.length_eq]
  rfl

/-- A header in front of a body. -/
theorem framed_append {lenHi lenLo : UInt8} {body : List UInt8}
    (h : (UInt16.ofNat (lenHi.toNat * 256 + lenLo.toNat)).toNat = body.length + 1) :
    Framed mbap (mbap.transaction ++ ([0, 0, lenHi, lenLo, mbap.unit] ++ body)) := by
  obtain ⟨a, b, hab⟩ := List.length_eq_two.1 (length_transaction mbap)
  rw [hab]
  refine ⟨hab.symm, rfl, ?_⟩
  have hlen : ([a, b] ++ ([0, 0, lenHi, lenLo, mbap.unit] ++ body)).length = body.length + 1 + 6 := by
    rw [List.length_append, List.length_append]
    show 2 + (5 + body.length) = _
    omega
  rw [hlen]
  exact congrArg (· + 6) h

/-- The two bytes of a length. -/
theorem length_bytes {n : Nat} (h : n < 2 ^ 16) :
    (UInt16.ofNat ((UInt8.ofNat (n >>> 8)).toNat * 256 + (UInt8.ofNat (n &&& 0xFF)).toNat)).toNat = n := by
  have hlo : n &&& 0xFF = n % 2 ^ 8 := Nat.and_two_pow_sub_one_eq_mod n 8
  rw [hlo, Nat.shiftRight_eq_div_pow, UInt8.toNat_ofNat', UInt8.toNat_ofNat', UInt16.toNat_ofNat']
  omega

theorem framed_exceptionResponse (fc exc : UInt8) : Framed mbap (exceptionResponse mbap fc exc) := by
  have heq : exceptionResponse mbap fc exc =
      mbap.transaction ++ ([0, 0, 0, 3, mbap.unit] ++ [fc ||| 0x80, exc]) := by
    unfold exceptionResponse
    simp only [List.append_assoc, List.cons_append, List.nil_append]
  rw [heq]
  refine framed_append mbap ?_
  show (UInt16.ofNat 3).toNat = 3
  decide

theorem framed_readResponse (fc : UInt8) {data : List UInt8} (h : data.length + 3 < 2 ^ 16) :
    Framed mbap (readResponse mbap fc data) := by
  have heq : readResponse mbap fc data = mbap.transaction ++ ([0, 0, UInt8.ofNat ((2 + data.length + 1) >>> 8),
      UInt8.ofNat ((2 + data.length + 1) &&& 0xFF), mbap.unit] ++ (fc :: UInt8.ofNat data.length :: data)) := by
    unfold readResponse
    simp only [List.append_assoc, List.cons_append, List.nil_append]
  rw [heq]
  refine framed_append mbap ((length_bytes (by omega)).trans ?_)
  rw [List.length_cons, List.length_cons]
  omega

theorem framed_echoResponse (fc : UInt8) {data : List UInt8} (h : data.length + 2 < 2 ^ 16) :
    Framed mbap (echoResponse mbap fc data) := by
  have heq : echoResponse mbap fc data = mbap.transaction ++ ([0, 0, UInt8.ofNat ((1 + data.length + 1) >>> 8),
      UInt8.ofNat ((1 + data.length + 1) &&& 0xFF), mbap.unit] ++ (fc :: data)) := by
    unfold echoResponse
    simp only [List.append_assoc, List.cons_append, List.nil_append]
  rw [heq]
  refine framed_append mbap ((length_bytes (by omega)).trans ?_)
  rw [List.length_cons]
  omega

end Frames

namespace ThreadDevice

/-- **What a read should bring**: as many bytes as its values take, bit by bit or word by word the values of its
addresses, and no other bit. -/
def Carries [FloatCast] (d : ThreadDevice) (kind : ReadKind) (start : UInt16) (count : Nat) (response : List UInt8) :
    Prop :=
  match kind with
  | .coils | .discreteInputs =>
    (response.getD 8 0).toNat = (count + 7) / 8 ∧ response.length = 9 + (count + 7) / 8 ∧
      ∀ i, bitAt (response.drop 9) i = (decide (i < count) && d.bit kind (UInt16.ofNat (start.toNat + i)))
  | .holdingRegisters | .inputRegisters =>
    (response.getD 8 0).toNat = count * 2 ∧ response.length = 9 + count * 2 ∧
      ∀ i < count, beWord (response.drop 9) (i * 2) = d.word kind (UInt16.ofNat (start.toNat + i))

/-- **A well-formed answer**: in its frame, and for a range inside the address space with nothing refused, with the
values of its addresses. -/
def WellFormed [FloatCast] (d : ThreadDevice) (mbap : Mbap) (pdu : List UInt8) (handled : Handled) : Prop :=
  ∃ response, handled.response = some response ∧ Framed mbap response ∧
    ∀ (kind : ReadKind) data, pdu = kind.code :: data → kind.Admits data →
      (beWord data 0).toNat + (beWord data 2).toNat ≤ 2 ^ 16 →
      (∀ i < (beWord data 2).toNat, d.refused kind (UInt16.ofNat ((beWord data 0).toNat + i)) = false) →
      d.Carries kind (beWord data 0) (beWord data 2).toNat response

variable {d : ThreadDevice} {kind : ReadKind} {data : List UInt8}

omit [Target] in
/-- The parts of a read response. -/
theorem readResponse_parts (mbap : Mbap) (fc : UInt8) (result : List UInt8) :
    (readResponse mbap fc result).getD 8 0 = UInt8.ofNat result.length ∧
      (readResponse mbap fc result).length = 9 + result.length ∧ (readResponse mbap fc result).drop 9 = result := by
  obtain ⟨a, b, hab⟩ := List.length_eq_two.1 (length_transaction mbap)
  unfold readResponse
  dsimp only
  rw [hab]
  refine ⟨rfl, ?_, rfl⟩
  simp only [List.length_append, List.length_cons, List.length_nil]

/-- What is collected fits into a frame. -/
theorem length_collect [FloatCast] {start count : UInt16} {result : List UInt8}
    (h : d.collect kind start count.toNat = some (.ok result)) (hcount : count ≤ kind.maxCount) :
    result.length ≤ 250 := by
  have hle : count.toNat ≤ kind.maxCount.toNat := hcount
  cases kind with
  | coils | discreteInputs =>
    have hmax : count.toNat ≤ 2000 := hle
    rw [length_readLoop _ _ _ length_putBit h, List.length_replicate]
    omega
  | holdingRegisters | inputRegisters =>
    have hmax : count.toNat ≤ 125 := hle
    rw [length_readLoop _ _ _ length_putWord h, List.length_replicate]
    omega

/-- **A range inside the address space** is answered with the values of its addresses. -/
theorem carries_read [FloatCast] {start count : UInt16} (hcount : count ≤ kind.maxCount)
    (hend : start.toNat + count.toNat ≤ 2 ^ 16)
    (hread : ∀ i < count.toNat, d.refused kind (UInt16.ofNat (start.toNat + i)) = false) (mbap : Mbap) :
    ∃ result, d.collect kind start count.toNat = some (.ok result) ∧
      d.Carries kind start count.toNat (readResponse mbap kind.code result) := by
  have hle : count.toNat ≤ kind.maxCount.toNat := hcount
  have hgo : ∀ j, 0 ≤ j → j < 0 + count.toNat → d.refused kind (UInt16.ofNat (start.toNat + j)) = false :=
    fun j _ hj => hread j (by omega)
  have hspace : start.toNat + (0 + count.toNat) ≤ 2 ^ 16 := by rwa [Nat.zero_add]
  unfold collect Carries
  cases kind with
  | coils | discreteInputs =>
    have hmax : count.toNat ≤ 2000 := hle
    refine ⟨_, readLoop_ok (d.refused _) _ _ hspace hgo _, ?_⟩
    obtain ⟨hbytes, hlen, hdrop⟩ := readResponse_parts mbap _ (putAll (d.bit _) putBit start count.toNat 0
      (List.replicate ((count.toNat + 7) / 8) 0))
    rw [length_putAll length_putBit, List.length_replicate] at hbytes hlen
    refine ⟨?_, hlen, fun i => ?_⟩
    · rw [hbytes, UInt8.toNat_ofNat']
      omega
    · have hroom : ∀ j, j < 0 + count.toNat → j / 8 < (List.replicate ((count.toNat + 7) / 8) (0 : UInt8)).length := by
        intro j hj
        rw [List.length_replicate]
        omega
      have hin : (0 ≤ i ∧ i < 0 + count.toNat) ↔ i < count.toNat := by omega
      rw [hdrop, bitAt_putAll hroom, bitAt_zeros, Bool.or_false, decide_eq_decide.2 hin]
  | holdingRegisters | inputRegisters =>
    have hmax : count.toNat ≤ 125 := hle
    refine ⟨_, readLoop_ok (d.refused _) _ _ hspace hgo _, ?_⟩
    obtain ⟨hbytes, hlen, hdrop⟩ := readResponse_parts mbap _ (putAll (d.word _) putWord start count.toNat 0
      (List.replicate (count.toNat * 2) 0))
    rw [length_putAll length_putWord, List.length_replicate] at hbytes hlen
    refine ⟨?_, hlen, fun i hi => ?_⟩
    · rw [hbytes, UInt8.toNat_ofNat']
      omega
    · have hroom : ∀ j, j < 0 + count.toNat → j * 2 + 1 < (List.replicate (count.toNat * 2) (0 : UInt8)).length := by
        intro j hj
        rw [List.length_replicate]
        omega
      rw [hdrop, beWord_putAll hroom (by omega), if_pos (Nat.zero_le i)]

/-- A read panics exactly if an address overflows in a build that checks. -/
theorem collect_eq_none_iff [FloatCast] {start count : UInt16} :
    d.collect kind start count.toNat = none ↔
      Target.overflowChecks = true ∧ ¬ d.InSpace kind start count.toNat := by
  have hcount : 0 + count.toNat ≤ 2 ^ 16 := by
    have := count.toNat_lt
    omega
  constructor
  · intro hnone
    have hout : ¬ d.InSpace kind start count.toNat := by
      intro hspace
      rcases collect_ends hspace with herror | ⟨-, bytes, hok⟩
      · rw [hnone] at herror
        cases herror
      · rw [hnone] at hok
        cases hok
    refine ⟨?_, hout⟩
    by_contra hchecks
    have hends : ∀ {α : Type} (value : UInt16 → α) put result,
        readLoop (d.refused kind) value put start count.toNat 0 result ≠ none := by
      intro α value put result hloop
      obtain ⟨r, hr⟩ :=
        readLoop_of_unchecked (d.refused kind) value put (Bool.eq_false_iff.2 hchecks) count.toNat 0 result
      rw [hloop] at hr
      cases hr
    cases kind with
    | coils | discreteInputs => exact hends _ _ _ hnone
    | holdingRegisters | inputRegisters => exact hends _ _ _ hnone
  · rintro ⟨hchecks, hout⟩
    rw [← fits_iff] at hout
    cases kind with
    | coils | discreteInputs => exact readLoop_panics _ _ _ hchecks hcount hout _
    | holdingRegisters | inputRegisters => exact readLoop_panics _ _ _ hchecks hcount hout _

end ThreadDevice

section Answers

variable {d : VirtualModbusTcpDevice} {thread : ThreadDevice}

omit [Target] in
theorem code_inj {kind kind' : ReadKind} (h : kind.code = kind'.code) : kind = kind' := by
  cases kind <;> cases kind' <;> first | rfl | exact absurd h (by decide)

/-- **A read request.** -/
theorem read_wellFormed_iff [FloatCast] (mbap : Mbap) (kind : ReadKind) (data : List UInt8) :
    thread.WellFormed mbap (kind.code :: data) (thread.handleRequest mbap (kind.code :: data)) ↔
      (Target.overflowChecks = true → kind.Admits data →
        thread.InSpace kind (beWord data 0) (beWord data 2).toNat) := by
  by_cases hadm : kind.Admits data
  · rw [ThreadDevice.handleRequest_read hadm]
    constructor
    · rintro ⟨response, hresponse, -, -⟩ hchecks -
      by_contra hout
      rw [ThreadDevice.collect_eq_none_iff.2 ⟨hchecks, hout⟩] at hresponse
      cases hresponse
    · intro hspace
      -- nothing panics, so there is something to answer
      have hsome : thread.collect kind (beWord data 0) (beWord data 2).toNat ≠ none := by
        intro hnone
        obtain ⟨hchecks, hout⟩ := ThreadDevice.collect_eq_none_iff.1 hnone
        exact hout (hspace hchecks hadm)
      -- and a range inside the address space is answered with its values
      have hcarries : ∀ (kind' : ReadKind) data', kind.code :: data = kind'.code :: data' → kind'.Admits data' →
          (beWord data' 0).toNat + (beWord data' 2).toNat ≤ 2 ^ 16 →
          (∀ i < (beWord data' 2).toNat, thread.refused kind' (UInt16.ofNat ((beWord data' 0).toNat + i)) = false) →
          ∃ result, thread.collect kind (beWord data 0) (beWord data 2).toNat = some (.ok result) ∧
            thread.Carries kind' (beWord data' 0) (beWord data' 2).toNat (readResponse mbap kind.code result) := by
        intro kind' data' heq hadm' hend hread
        obtain ⟨hcode, rfl⟩ := List.cons.inj heq
        obtain rfl := code_inj hcode
        exact ThreadDevice.carries_read hadm'.few hend hread mbap
      rcases hcollect : thread.collect kind (beWord data 0) (beWord data 2).toNat with _ | (exc | result)
      · exact absurd hcollect hsome
      · refine ⟨_, rfl, framed_exceptionResponse .., fun kind' data' heq hadm' hend hread => ?_⟩
        obtain ⟨result, hok, -⟩ := hcarries kind' data' heq hadm' hend hread
        rw [hcollect] at hok
        cases hok
      · have hlen := ThreadDevice.length_collect hcollect hadm.few
        refine ⟨_, rfl, framed_readResponse mbap _ (by omega), fun kind' data' heq hadm' hend hread => ?_⟩
        obtain ⟨_, hok, h⟩ := hcarries kind' data' heq hadm' hend hread
        rw [hcollect] at hok
        cases hok
        exact h
  · refine iff_of_true ?_ fun _ h => absurd h hadm
    rw [ThreadDevice.handleRequest_refusal hadm]
    refine ⟨_, rfl, framed_exceptionResponse .., fun kind' data' heq hadm' => ?_⟩
    obtain ⟨hcode, rfl⟩ := List.cons.inj heq
    obtain rfl := code_inj hcode
    exact absurd hadm' hadm

omit [Target] in
/-- An answer to a write. -/
theorem framed_written (mbap : Mbap) (fc : UInt8) {echo : List UInt8} (h : echo.length + 2 < 2 ^ 16) [Target]
    (r : Except UInt8 Unit × List Publication) :
    ∃ response, (ThreadDevice.written mbap fc echo r).response = some response ∧ Framed mbap response := by
  obtain ⟨_ | _, published⟩ := r
  · exact ⟨_, rfl, framed_exceptionResponse ..⟩
  · exact ⟨_, rfl, framed_echoResponse mbap fc h⟩

/-- **Every other request** is answered in its frame. -/
theorem framed_other [FloatCast] (mbap : Mbap) {pdu : List UInt8} (hlen : pdu.length < 65535)
    (h : ∀ (kind : ReadKind) data, pdu ≠ kind.code :: data) :
    ∃ response, (thread.handleRequest mbap pdu).response = some response ∧ Framed mbap response := by
  have hrefused : ∀ fc exc, ∃ response,
      (Handled.answer (exceptionResponse mbap fc exc)).response = some response ∧ Framed mbap response :=
    fun fc exc => ⟨_, rfl, framed_exceptionResponse ..⟩
  cases pdu with
  | nil => exact hrefused ..
  | cons fc data =>
    have hdata : data.length + 2 < 2 ^ 16 := by
      rw [List.length_cons] at hlen
      omega
    have htake : (data.take 4).length + 2 < 2 ^ 16 := by
      rw [List.length_take]
      omega
    have hcode : ∀ kind : ReadKind, fc ≠ kind.code := fun kind heq => h kind data (congrArg (· :: data) heq)
    unfold ThreadDevice.handleRequest
    dsimp only
    split
    · exact absurd rfl (hcode .coils)
    · exact absurd rfl (hcode .discreteInputs)
    · exact absurd rfl (hcode .holdingRegisters)
    · exact absurd rfl (hcode .inputRegisters)
    · unfold ThreadDevice.handleWriteSingleCoil
      dsimp only
      split_ifs
      · exact hrefused ..
      · exact framed_written mbap _ hdata _
      · exact framed_written mbap _ hdata _
      · exact hrefused ..
    · unfold ThreadDevice.handleWriteSingleRegister
      dsimp only
      split_ifs
      · exact hrefused ..
      · exact framed_written mbap _ hdata _
    · unfold ThreadDevice.handleWriteMultipleCoils
      dsimp only
      split_ifs
      · exact hrefused ..
      · exact framed_written mbap _ htake _
    · unfold ThreadDevice.handleWriteMultipleRegisters
      dsimp only
      split_ifs
      · exact hrefused ..
      · exact framed_written mbap _ htake _
    · exact hrefused ..

/-- The device asks for another length in one place, and answers in the frame there too. -/
theorem framed_other_device [FloatCast] (h : d.threadDevice = some thread) (mbap : Mbap) {pdu : List UInt8}
    (hlen : pdu.length < 65535) (hother : ∀ (kind : ReadKind) data, pdu ≠ kind.code :: data) :
    ∃ response, (d.handleRequest mbap pdu).response = some response ∧ Framed mbap response := by
  cases pdu with
  | nil =>
    refine ⟨_, rfl, ?_⟩
    rw [exceptionResponse_eq]
    exact framed_exceptionResponse ..
  | cons fc data =>
    by_cases hfc : fc = 0x10
    · subst hfc
      have htake : (data.take 4).length + 2 < 2 ^ 16 := by
        rw [List.length_take]
        omega
      show ∃ response, (d.handleWriteMultipleRegisters mbap data).response = some response ∧ Framed mbap response
      unfold VirtualModbusTcpDevice.handleWriteMultipleRegisters
      dsimp only
      rw [exceptionResponse_eq, writeRegisterSignal_eq h, written_eq]
      split
      · exact ⟨_, rfl, framed_exceptionResponse ..⟩
      · exact framed_written mbap _ htake _
    · rw [handleRequest_eq h mbap hfc]
      exact framed_other mbap hlen hother

end Answers

/-- **Every request has a well-formed answer**, of the device and of its thread, exactly where no address of an
admitted read overflows in a build that checks. -/
theorem answers_iff [FloatCast] (d : VirtualModbusTcpDevice) (thread : ThreadDevice) (h : d.threadDevice = some thread)
    (mbap : Mbap) (pdu : List UInt8) (hlen : pdu.length < 65535) :
    (thread.WellFormed mbap pdu (d.handleRequest mbap pdu) ∧
        thread.WellFormed mbap pdu (thread.handleRequest mbap pdu)) ↔
      (Target.overflowChecks = true → ∀ (kind : ReadKind) data, pdu = kind.code :: data → kind.Admits data →
        thread.InSpace kind (beWord data 0) (beWord data 2).toNat) := by
  by_cases hread : ∃ (kind : ReadKind) (data : List UInt8), pdu = kind.code :: data
  · obtain ⟨kind, data, rfl⟩ := hread
    rw [handleRequest_eq h mbap (code_ne kind), and_self, read_wellFormed_iff]
    constructor
    · intro hspace hchecks kind' data' heq hadm
      obtain ⟨hcode, rfl⟩ := List.cons.inj heq
      obtain rfl := code_inj hcode
      exact hspace hchecks hadm
    · exact fun hspace hchecks hadm => hspace hchecks kind data rfl hadm
  · have hother : ∀ (kind : ReadKind) data, pdu ≠ kind.code :: data := fun kind data heq => hread ⟨kind, data, heq⟩
    refine iff_of_true ⟨?_, ?_⟩ fun _ kind data heq => absurd heq (hother kind data)
    · obtain ⟨response, hresponse, hframed⟩ := framed_other_device h mbap hlen hother
      exact ⟨response, hresponse, hframed, fun kind data heq => absurd heq (hother kind data)⟩
    · obtain ⟨response, hresponse, hframed⟩ := framed_other mbap hlen hother
      exact ⟨response, hresponse, hframed, fun kind data heq => absurd heq (hother kind data)⟩

end Audesys.Runtime.VirtualModbus

/-! ## Over the last address -/

namespace Audesys.Runtime.VirtualModbus

open Audesys.Hal

local instance checkedModbus : Target := host true

/-- No request below reads a float. -/
local instance wholeCast : FloatCast := ⟨fun _ => 0⟩

/-- Coils 0 and 1 are the signals `pump` and `valve`, and nothing else is mapped. -/
def pumpMaps : SignalMaps :=
  ⟨fun addr => if addr = 0 then some "pump" else if addr = 1 then some "valve" else none, fun _ => none, fun _ => none,
    fun _ => none⟩

/-- The pump is on, the valve has no value. -/
def pumpTable : HalTransport :=
  ⟨fun name => .ok (if name = "pump" then some (.bool true, epoch) else none), fun _ _ _ => .ok ()⟩

def pumpDevice : VirtualModbusTcpDevice := ⟨some pumpTable, pumpMaps⟩

def pumpThread : ThreadDevice := ⟨pumpTable, pumpMaps⟩

def pumpHeader : Mbap := ⟨[0, 7, 0, 0, 0, 6, 1], rfl⟩

/-- Two inputs from the last address on. -/
def lastInputs : List UInt8 := [0xFF, 0xFF, 0, 2]

/-- Two coils from the first address on. -/
def firstCoils : List UInt8 := [0, 0, 0, 2]

theorem lastInputs_panics : pumpDevice.handleRequest pumpHeader (0x02 :: lastInputs) = ⟨none, []⟩ := rfl

theorem lastInputs_admitted : ReadKind.discreteInputs.Admits lastInputs := ⟨by decide, by decide, by decide⟩

/-- `65535 + 1` overflows in the second round. -/
theorem lastInputs_strays :
    pumpDevice.threadDevice = some pumpThread ∧ ReadKind.discreteInputs.Admits lastInputs ∧
      ¬ Stays pumpThread .discreteInputs pumpHeader lastInputs
        (pumpDevice.handleRequest pumpHeader (ReadKind.discreteInputs.code :: lastInputs)) := by
  refine ⟨rfl, lastInputs_admitted, fun h => ?_⟩
  obtain ⟨response, hresponse⟩ := h.finishes
  have hnone : (pumpDevice.handleRequest pumpHeader (ReadKind.discreteInputs.code :: lastInputs)).response = none :=
    congrArg Handled.response lastInputs_panics
  rw [hnone] at hresponse
  cases hresponse

/-- The first coils stay. -/
theorem firstCoils_stay :
    Stays pumpThread .coils pumpHeader firstCoils
      (pumpDevice.handleRequest pumpHeader (ReadKind.coils.code :: firstCoils)) :=
  (reads_stay_iff pumpDevice pumpThread rfl pumpHeader .coils firstCoils ⟨by decide, by decide, by decide⟩).1.2
    (.inl (by decide))

/-- The device does not answer. -/
theorem lastInputs_unanswered :
    pumpDevice.threadDevice = some pumpThread ∧ (0x02 :: lastInputs).length < 65535 ∧
      ¬ pumpThread.WellFormed pumpHeader (0x02 :: lastInputs)
        (pumpDevice.handleRequest pumpHeader (0x02 :: lastInputs)) := by
  refine ⟨rfl, by decide, ?_⟩
  rw [lastInputs_panics]
  rintro ⟨response, hresponse, -, -⟩
  cases hresponse

/-- The first coils are answered: the pump is on, the valve is off. -/
theorem firstCoils_answered :
    pumpThread.WellFormed pumpHeader (0x01 :: firstCoils) (pumpDevice.handleRequest pumpHeader (0x01 :: firstCoils)) ∧
      (pumpDevice.handleRequest pumpHeader (0x01 :: firstCoils)).response =
        some [0, 7, 0, 0, 0, 4, 1, 0x01, 1, 0b01] := by
  refine ⟨((answers_iff pumpDevice pumpThread rfl pumpHeader (0x01 :: firstCoils) (by decide)).2 ?_).1, rfl⟩
  intro _ kind data heq _
  obtain ⟨-, rfl⟩ := List.cons.inj heq
  exact .inl (by decide)

end Audesys.Runtime.VirtualModbus
