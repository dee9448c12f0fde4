import Audesys.Hal.Host
import Audesys.Runtime.Client.Snapshot

/-!
# `Runtime.Client.Consumed` — the count of consumed bytes

Callers of `decode_hal_value` slice with the count it returns. Behind every discriminant but the one of a `Bool` the
count is what was read: it stays within the data, and what comes behind it does not matter (`Consumes`). A `Bool` takes
a missing byte for `false` and counts it, so a single zero byte decodes to two bytes (`strictAt_iff`).
-/

open List

namespace Audesys.Runtime.Client

open Audesys.Hal Audesys.Runtime.Ipc

variable [Target]

/-- What callers rely on when they slice: the count stays within the data, and a longer string with the same first bytes
decodes to the same value. -/
def StrictAt (data : List UInt8) : Prop :=
  ∀ v n, decodeHalValue data = .ok (v, n) → n ≤ data.length ∧
    ∀ longer : List UInt8, data.length < longer.length → longer.take n = data.take n → decodeHalValue longer = .ok (v, n)

/-- A reader of what is behind the discriminant: a result with the count `1 + k` depends on the first `k` bytes, and
they are there. -/
def Consumes {α : Type} (read : List UInt8 → Except String (α × Nat)) : Prop :=
  ∀ rest a n, read rest = .ok (a, n) → ∃ k, n = 1 + k ∧ k ≤ rest.length ∧ ∀ s, read (rest.take k ++ s) = .ok (a, n)

section
variable {α β : Type} {read read' : List UInt8 → Except String (α × Nat)}

section
omit [Target]

theorem need_eq_ok {data : List UInt8} {n : Nat} {u : Unit} : need data n = .ok u ↔ n ≤ data.length := by
  unfold need
  split
  · constructor
    · intro h
      cases h
    · intro h
      omega
  · constructor
    · intro _
      omega
    · intro _
      rfl

theorem bind_eq_ok {x : Except String α} {f : α → Except String β} {b : β} :
    (x >>= f) = .ok b ↔ ∃ a, x = .ok a ∧ f a = .ok b := by
  cases x with
  | error e =>
    constructor
    · intro h
      cases h
    · rintro ⟨a, h, _⟩
      cases h
  | ok a =>
    constructor
    · intro h
      exact ⟨a, rfl, h⟩
    · rintro ⟨a', h, hf⟩
      cases h
      exact hf

theorem Consumes.ite {c : Prop} [Decidable c] (h : Consumes read) (h' : Consumes read') :
    Consumes fun rest => if c then read rest else read' rest := by
  by_cases hc : c
  · simp only [if_pos hc]
    exact h
  · simp only [if_neg hc]
    exact h'

theorem consumes_error (e : String) : Consumes fun _ => (.error e : Except String (α × Nat)) := by
  intro rest a n h
  cases h

end

/-- **A fixed number of bytes.** -/
theorem consumes_fixed (k : Nat) (value : List UInt8 → HalValue) : Consumes (decodeFixed k value) := by
  intro rest v n h
  simp only [decodeFixed, readN, bind_eq_ok, need_eq_ok] at h
  obtain ⟨_, ⟨_, hlen, hbytes⟩, hvalue⟩ := h
  cases hbytes
  cases hvalue
  refine ⟨k, rfl, hlen, fun s => ?_⟩
  have htaken : (rest.take k).length = k := length_take_of_le hlen
  rw [decodeFixed_append value 0 s htaken, length_cons, htaken, Nat.add_comm]

section
omit [Target]
variable {rest : List UInt8} {k : Nat} (hk : k ≤ rest.length) (s : List UInt8)
include hk

/-- What lies in the first `k` bytes is read alike whatever comes behind them. -/
theorem need_front {j : Nat} (hj : j ≤ k) : need (rest.take k ++ s) j = .ok () := by
  rw [need_eq_ok, length_append, length_take_of_le hk]
  omega

theorem take_front {j : Nat} (hj : j ≤ k) : (rest.take k ++ s).take j = rest.take j := by
  rw [take_append_of_le_length (by rw [length_take_of_le hk]; exact hj), take_take, Nat.min_eq_left hj]

theorem slice_front {i j : Nat} (hij : i + j ≤ k) : ((rest.take k ++ s).drop i).take j = (rest.drop i).take j := by
  have hlen : (rest.take k).length = k := length_take_of_le hk
  rw [drop_append_of_le_length (by omega), take_append_of_le_length (by rw [length_drop]; omega),
    drop_take, take_take, Nat.min_eq_left (by omega)]

end

omit [Target] in
/-- **Data behind a length field**: the field and the data are there, and nothing else counts. -/
theorem decodeSized_ok {rest bytes : List UInt8} {len : Nat} (h : decodeSized rest = .ok (bytes, len)) :
    4 + len ≤ rest.length ∧ ∀ s, decodeSized (rest.take (4 + len) ++ s) = .ok (bytes, len) := by
  simp only [decodeSized, bind_eq_ok, need_eq_ok] at h
  obtain ⟨_, hfield, _, hdata, heq⟩ := h
  cases heq
  refine ⟨hdata, fun s => ?_⟩
  unfold decodeSized
  rw [take_front hdata s (by omega), need_front hdata s (by omega)]
  show (need _ _ >>= _) = _
  rw [need_front hdata s (Nat.le_refl _), slice_front hdata s (Nat.le_refl _)]
  rfl

/-- A value made of data behind a length field, where the count is the one of the field and the data. -/
theorem consumes_sized {value : List UInt8 × Nat → Except String (HalValue × Nat)}
    (hcount : ∀ p v n, value p = .ok (v, n) → n = 5 + p.2) : Consumes fun rest => decodeSized rest >>= value := by
  intro rest v n h
  rw [bind_eq_ok] at h
  obtain ⟨p, hsized, hvalue⟩ := h
  have hn : n = 5 + p.2 := hcount p v n hvalue
  obtain ⟨hlen, hfront⟩ := decodeSized_ok hsized
  refine ⟨4 + p.2, by omega, hlen, fun s => ?_⟩
  rw [bind_eq_ok]
  exact ⟨p, hfront s, hvalue⟩

/-- An array: the byte behind the length field is the type of the elements. -/
theorem consumes_array : Consumes fun rest => need rest 4 >>= fun _ =>
    need rest (4 + 1 + MachineInt.leNat (rest.take 4)) >>= fun _ => pinTypeFromDisc ((rest.drop 4).headD 0) >>= fun elem =>
      .ok (HalValue.array elem ((rest.drop 5).take (MachineInt.leNat (rest.take 4))), 6 + MachineInt.leNat (rest.take 4)) := by
  intro rest v n h
  simp only [bind_eq_ok, need_eq_ok] at h
  obtain ⟨_, hfield, _, hdata, elem, helem, heq⟩ := h
  cases heq
  refine ⟨4 + 1 + MachineInt.leNat (rest.take 4), by omega, hdata, fun s => ?_⟩
  have hhead : ∀ l : List UInt8, (l.drop 4).headD 0 = ((l.drop 4).take 1).headD 0 := by
    intro l
    cases l.drop 4 <;> rfl
  simp only [bind_eq_ok]
  rw [take_front hdata s (by omega), hhead, slice_front hdata s (by omega), ← hhead, slice_front hdata s (by omega)]
  exact ⟨(), need_front hdata s (by omega), (), need_front hdata s (Nat.le_refl _), elem, helem, rfl⟩

/-- **Behind every other discriminant** the count is what was read. -/
theorem consumes_decode {disc : UInt8} (h : disc ≠ 0) : Consumes fun rest => decodeHalValue (disc :: rest) := by
  simp only [decodeHalValue, if_neg h]
  refine .ite (consumes_fixed 1 _) <| .ite (consumes_fixed 1 _) <| .ite (consumes_fixed 2 _) <|
    .ite (consumes_fixed 2 _) <| .ite (consumes_fixed 4 _) <| .ite (consumes_fixed 4 _) <|
    .ite (consumes_fixed 8 _) <| .ite (consumes_fixed 8 _) <| .ite (consumes_fixed 4 _) <|
    .ite (consumes_fixed 8 _) <| .ite ?_ <| .ite ?_ <| .ite consumes_array (consumes_error _)
  · refine consumes_sized fun p v n hvalue => ?_
    cases hvalue
    rfl
  · refine consumes_sized fun p v n hvalue => ?_
    obtain ⟨_, _, heq⟩ := bind_eq_ok.1 hvalue
    cases heq
    rfl

end

/-- **Where the decoder is strict**: everywhere but at a single zero byte. -/
theorem strictAt_iff (data : List UInt8) : StrictAt data ↔ data ≠ [0] := by
  constructor
  · rintro h rfl
    exact absurd (h (.bool false) 2 rfl).1 (by decide)
  · intro hne v n hdecode
    match data with
    | [] => cases hdecode
    | disc :: rest =>
      by_cases hdisc : disc = 0
      · subst hdisc
        -- a `Bool` with its byte
        match rest with
        | [] => exact absurd rfl hne
        | b :: rest =>
          cases hdecode
          refine ⟨by simp, fun longer _ htake => ?_⟩
          match longer with
          | [] => cases htake
          | [_] => cases htake
          | _ :: _ :: _ =>
            cases htake
            rfl
      · obtain ⟨k, rfl, hk, hfront⟩ := consumes_decode hdisc rest v n hdecode
        refine ⟨by rw [length_cons]; omega, fun longer _ htake => ?_⟩
        rw [Nat.add_comm, take_succ_cons] at htake
        match longer with
        | [] => cases htake
        | disc' :: rest' =>
          rw [take_succ_cons, List.cons.injEq] at htake
          obtain ⟨rfl, htake⟩ := htake
          have h := hfront (rest'.drop k)
          rwa [← htake, take_append_drop] at h

end Audesys.Runtime.Client

namespace Audesys.Runtime.Client

open Audesys.Hal

/-- A release build. -/
local instance releaseConsumed : Target := host false

/-- A `Bool` without its byte decodes to `false`, two bytes long. -/
theorem bool_not_strict : decodeHalValue [0] = .ok (.bool false, 2) ∧ ¬ ∀ data, StrictAt data := by
  refine ⟨rfl, fun h => ?_⟩
  have hcount : 2 ≤ [(0 : UInt8)].length := (h [0] (.bool false) 2 rfl).1
  exact absurd hcount (by decide)

end Audesys.Runtime.Client
